import Kayak.Client
import Mathlib.Logic.Relation

/-!
# Runs of one core

The run model of the spec: the scheduler calls `execute` again and again; between calls
the server answers requests on the wire, each at most once, in any order, with a response
that echoes the request's stamp (`answers`). A run starts from `new`, with any
configuration, clock and random draws, and ends at the first panic.

`Step` is one move of the system, `Reachable` the states of all runs. `act` is the same
move as a function, so that a concrete run can be evaluated (`runActions_steps`). The last
section evaluates a few runs of the shipped client once each; the general results are
instantiated at the states they reach.
-/

namespace Kayak

open Relation

/-- A clock whose `i`-th reading is `i + 1`. -/
def Tsc.succ : Tsc := ⟨Nat.succ, fun _ _ h => Nat.succ_lt_succ h⟩

/-- A sampler of `n` elements that draws `k` every time. -/
def Zipf.const (n k : ℕ) (h : k ≤ n) : Zipf := ⟨n, fun _ => k, fun _ => h⟩

/-- A sampler of `n + 1` elements that draws `1, 2, .., n + 1` in turn, again and again. -/
def Zipf.cycle (n : ℕ) : Zipf :=
  ⟨n + 1, fun j => j % (n + 1) + 1, fun j => Nat.mod_lt j n.succ_pos⟩

namespace PushbackRecvSend

/-- A client for concrete runs: four-byte keys and values, every draw the first key of the
first tenant, the clock `Tsc.succ`, a coin that always lands on zero. -/
def sample (master useInvoke : Bool) (numReqs : ℕ) : PushbackRecvSend :=
  setupSendRecv master ⟨4, 4, 0, useInvoke, numReqs⟩ Tsc.succ (fun _ => 0)
    (Zipf.const 1 1 le_rfl) (Zipf.const 1 1 le_rfl)

/-- The server answers the request `q` on the wire with `p`, which reaches the port. -/
def serve (s : PushbackRecvSend) (q : Request) (p : Packet) : PushbackRecvSend :=
  { s with wire := s.wire.erase q, receiver := s.receiver ++ [p] }

variable (c : Consts)

/-- One move of a core and its server. -/
inductive Step : PushbackRecvSend → PushbackRecvSend → Prop where
  /-- The scheduler calls `execute`, which returns without panicking. -/
  | execute {s s' : PushbackRecvSend} (env : Env) : execute c env s = .ok s' → Step s s'
  /-- The server answers a request on the wire. -/
  | serve {s : PushbackRecvSend} (q : Request) (p : Packet) :
      q ∈ s.wire → answers q p = true → Step s (s.serve q p)

/-- The moves of a run whose server answers each request `q` with `ans q`. -/
inductive StepBy (ans : Request → Packet) : PushbackRecvSend → PushbackRecvSend → Prop where
  /-- The scheduler calls `execute`, which returns without panicking. -/
  | execute {s s' : PushbackRecvSend} (env : Env) : execute c env s = .ok s' → StepBy ans s s'
  /-- The server answers a request on the wire with its answer under `ans`. -/
  | serve {s : PushbackRecvSend} (q : Request) :
      q ∈ s.wire → answers q (ans q) = true → StepBy ans s (s.serve q (ans q))

/-- The states of the runs that start at `new`. -/
inductive Reachable : PushbackRecvSend → Prop where
  | new (resps : ℕ) (master : Bool) (config : ClientConfig) (reqs : ℕ) (clock : Tsc)
      (rng : ℕ → UInt32) (keyRng tenantRng : Zipf) :
      Reachable (new resps master config reqs clock rng keyRng tenantRng)
  | step {s s' : PushbackRecvSend} : Reachable s → Step c s s' → Reachable s'

/-- A move of the system named by what the environment chooses. -/
inductive Action where
  | execute (env : Env)
  /-- The server answers the `i`-th request on the wire with `p`. -/
  | serve (i : ℕ) (p : Packet)

/-- The move `a`, if it is possible. -/
def act : Action → PushbackRecvSend → Option PushbackRecvSend
  | .execute env, s => (execute c env s).toOption
  | .serve i p, s =>
    match s.wire[i]? with
    | some q => if answers q p then some (s.serve q p) else none
    | none => none

/-- A sequence of moves. -/
def runActions : List Action → PushbackRecvSend → Option PushbackRecvSend
  | [], s => some s
  | a :: as, s => act c a s >>= runActions as

theorem step_of_act {a : Action} {s s' : PushbackRecvSend} (h : act c a s = some s') :
    Step c s s' := by
  cases a with
  | execute env =>
    simp only [act] at h
    cases he : execute c env s <;> simp_all [Except.toOption]
    exact .execute env he
  | serve i p =>
    simp only [act] at h
    split at h
    · rename_i q hq
      split at h
      · cases h; exact .serve q p (List.getElem?_mem hq) ‹_›
      · cases h
    · cases h

theorem Reachable.runActions {as : List Action} {s s' : PushbackRecvSend} (hs : Reachable c s)
    (h : runActions c as s = some s') : Reachable c s' := by
  induction as generalizing s with
  | nil => cases h; exact hs
  | cons a as ih =>
    simp only [PushbackRecvSend.runActions, Option.bind_eq_bind, Option.bind_eq_some] at h
    obtain ⟨u, hu, h⟩ := h
    exact ih (hs.step (step_of_act c hu)) h

variable {c} in
/-- A run whose server answers with `ans` is a run. -/
theorem StepBy.step {ans : Request → Packet} {s s' : PushbackRecvSend} (h : StepBy c ans s s') :
    Step c s s' := by
  cases h with
  | execute env he => exact .execute env he
  | serve q hq ha => exact .serve q _ hq ha

variable {c} in
theorem StepBy.steps {ans : Request → Packet} {s s' : PushbackRecvSend}
    (h : ReflTransGen (StepBy c ans) s s') : ReflTransGen (Step c) s s' :=
  h.mono fun _ _ => StepBy.step

theorem runActions_steps {as : List Action} {s s' : PushbackRecvSend}
    (h : runActions c as s = some s') : ReflTransGen (Step c) s s' := by
  induction as generalizing s with
  | nil => cases h; exact .refl
  | cons a as ih =>
    simp only [PushbackRecvSend.runActions, Option.bind_eq_bind, Option.bind_eq_some] at h
    obtain ⟨u, hu, h⟩ := h
    exact .head (step_of_act c hu) (ih h)

variable {c} in
theorem Reachable.refl_trans {s s' : PushbackRecvSend} (hs : Reachable c s)
    (h : ReflTransGen (Step c) s s') : Reachable c s' := by
  induction h with
  | refl => exact hs
  | tail _ hst ih => exact ih.step hst

/-! ### Concrete runs -/

/-- Where the moves `as` lead from `s`; `s` itself if one of them is not possible. -/
def after (as : List Action) (s : PushbackRecvSend) : PushbackRecvSend :=
  (runActions c as s).getD s

theorem steps_after {as : List Action} {s : PushbackRecvSend}
    (h : (runActions c as s).isSome = true) : ReflTransGen (Step c) s (after c as s) := by
  obtain ⟨s', hs⟩ := Option.isSome_iff_exists.1 h
  rw [after, hs]
  exact runActions_steps c hs

/-- The first `execute` fills the window with invokes stamped `2, 3, ..`; the server answers
the one stamped `2` with `Ok`; the next `execute` counts it. -/
def okRun : List Action :=
  [.execute ⟨0, ⟨.yielded, 0, []⟩⟩, .serve 0 (.invoke 2 .statusOk []),
   .execute ⟨1, ⟨.yielded, 0, []⟩⟩]

/-- The first `execute` fills the window with invokes stamped `2, 3, ..`; the server pushes
back the invoke stamped `2`; the next `execute` handles that response and runs the task,
which returns WAITING and sends a get stamped `2` to the back of the wire; the server answers
the get; the last `execute` handles the answer, which queues the task again. -/
def pushbackRun : List Action :=
  [.execute ⟨0, ⟨.yielded, 0, []⟩⟩, .serve 0 (.invoke 2 .statusPushback []),
   .execute ⟨1, ⟨.waiting, 0, []⟩⟩, .serve 31 (.get 2 1 []),
   .execute ⟨1, ⟨.yielded, 0, []⟩⟩]

/-- A client in invoke mode with a target of one response and a budget of one request. -/
def oneShot : PushbackRecvSend :=
  new 1 true ⟨4, 4, 0, true, 1⟩ 1 Tsc.succ (fun _ => 0) (Zipf.const 1 1 le_rfl)
    (Zipf.const 1 1 le_rfl)

/-- The state `okRun` reaches from `oneShot`: the window filled, one `Ok` counted, `stop`
read. -/
def okStopped : PushbackRecvSend := after (Consts.shipped false) okRun oneShot

theorem okStopped_steps : ReflTransGen (Step (Consts.shipped false)) oneShot okStopped :=
  steps_after _ rfl

/-- Past the target: the server answers the invoke stamped `3`, and one more `execute`
runs. -/
def okFrozen : PushbackRecvSend :=
  after (Consts.shipped false)
    [.serve 0 (.invoke 3 .statusOk []), .execute ⟨1, ⟨.yielded, 0, []⟩⟩] okStopped

theorem okFrozen_steps : ReflTransGen (Step (Consts.shipped false)) okStopped okFrozen :=
  steps_after _ rfl

/-- `pushbackRun` from the shipped client in invoke mode, with the execution feature, and then
an `Ok` for the invoke stamped `3` in the port: a task queued after its get was answered, 30
invokes on the wire. -/
def tasked : PushbackRecvSend :=
  after (Consts.shipped true) (pushbackRun ++ [.serve 0 (.invoke 3 .statusOk [])])
    (sample false true 1)

theorem tasked_steps : ReflTransGen (Step (Consts.shipped true)) (sample false true 1) tasked :=
  steps_after _ rfl

/-- One more `execute` from `tasked`: it counts the `Ok`, and the task completes. -/
def taskDone : PushbackRecvSend :=
  after (Consts.shipped true) [.execute ⟨1, ⟨.completed, 5, []⟩⟩] tasked

theorem taskDone_steps : ReflTransGen (Step (Consts.shipped true)) (sample false true 1) taskDone :=
  tasked_steps.trans (steps_after _ rfl)

/-- A client in native mode with a target of one response and a budget of one request. -/
def nativeShot : PushbackRecvSend :=
  new 1 true ⟨4, 4, 0, false, 1⟩ 1 Tsc.succ (fun _ => 0) (Zipf.const 1 1 le_rfl)
    (Zipf.const 1 1 le_rfl)

/-- The first `execute` of `nativeShot` sends 32 gets stamped `2, 3, ..`; the server answers
the one stamped `2` with thirty zero bytes. -/
def nativeAnswered : PushbackRecvSend :=
  after (Consts.shipped false)
    [.execute ⟨0, ⟨.yielded, 0, []⟩⟩, .serve 0 (.get 2 1 (zeros 30))] nativeShot

theorem nativeAnswered_steps :
    ReflTransGen (Step (Consts.shipped false)) nativeShot nativeAnswered :=
  steps_after _ rfl

/-- A client in invoke mode with a budget of 100 requests whose keys cycle through 8. -/
def keyedShot : PushbackRecvSend :=
  new 100 true ⟨4, 4, 0, true, 100⟩ 100 Tsc.succ (fun _ => 0) (Zipf.cycle 7)
    (Zipf.const 1 1 le_rfl)

/-- `okRun` from `keyedShot`: 32 invokes with the keys `1, .., 8, 1, ..` sent, one answered
and counted, so that the next `send` has room for one more. -/
def keyed : PushbackRecvSend := after (Consts.shipped false) okRun keyedShot

theorem keyed_steps : ReflTransGen (Step (Consts.shipped false)) keyedShot keyed :=
  steps_after _ rfl

/-- `okRun` on core 0 of the shipped eight-core client. -/
def okCore : PushbackRecvSend :=
  after (Consts.shipped false) okRun (sample true true (34 * 1000 * 1000))

theorem okCore_steps :
    ReflTransGen (Step (Consts.shipped false)) (sample true true (34 * 1000 * 1000)) okCore :=
  steps_after _ rfl

end PushbackRecvSend

end Kayak
