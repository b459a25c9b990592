import Kayak.Shutdown
import Kayak.Window

/-!
# Reaching the response target

`setup_send_recv` gives each core a response target, `34 * 1000 * 1000`, and a request
budget, `num_reqs`. A core counts responses in `recv`; the `recv` whose batch brings the
count to the target records `stop = rdtsc()`, the next `recv` sets `finished`, and `execute`
then sets `FINISHED`, which `main` waits for.

**`invoke_execute_returns`**: in invoke mode, on keys of at least four bytes, no call of
`execute` panics, from any state of any run: whatever the server answers, whatever the
scheduler polls and whatever the tasks do. (In native mode a short response payload or an
overflow of `mul` still ends the run; `window` lists those panics.)

**`reaches_target`**: in invoke mode, every target up to the budget rounded up to a multiple
of 32 is reached: some run whose server answers every invoke with `Ok` leads to a state whose
next `execute` sets `finished`. The run is made of the rounds of `Progress`, each a full
window, the last one crossing the target.

**`finished_never_set`** and **`never_stops`**: no target beyond the budget's reach is
reached. A core sends at most `requests + 31` requests, so with a target above that it never
sets `finished` in any run; and a client whose configured `num_reqs` is below
`34 * 1000 * 1000 - 31` is never stopped by `main`, however its eight cores interleave.

**`stop_stamp`**: in every state of every run, `stop` is `0` while the core is short of its
target, and once the target is counted it is a clock reading later than `start` that no
later move changes. So on a core that has reached a positive target `drop` computes
`stop - start` without underflow (compare `stop_before_all_done`, where `main` stops the
client before core 1 gets there).
-/

namespace Kayak

open Relation

namespace PushbackRecvSend

variable {c : Consts} {s s' u v : PushbackRecvSend} {rx : List Packet}

/-! ### Invoke mode never panics -/

theorem Inv.recvPackets_invoke {b : List Packet} (h : Inv c s (b ++ rx))
    (hn : s.native = false) : ∃ s', PushbackRecvSend.recvPackets c b s = .ok s' := by
  induction b generalizing rx with
  | nil => exact ⟨s, rfl⟩
  | cons p ps ih =>
    have h' := h.perm List.perm_middle.symm
    obtain ⟨u, hu⟩ := ih h'
    have hnu : u.native = false := (congrArg Prod.fst (recvPackets_frame hu).1).trans hn
    obtain ⟨s', hs'⟩ := (h'.recvPackets hu).handlePacket_invoke hnu
    exact ⟨s', by rw [PushbackRecvSend.recvPackets, hu, ok_bind]; exact hs'⟩

theorem Inv.recv_invoke (n : ℕ) (h : Inv c s s.receiver) (hn : s.native = false) :
    ∃ s', PushbackRecvSend.recv c n s = .ok s' := by
  rw [PushbackRecvSend.recv]
  split
  · exact ⟨_, rfl⟩
  · have h' : Inv c { s with receiver := s.receiver.drop n }
        (s.receiver.take n ++ s.receiver.drop n) := by
      rw [List.take_append_drop]; exact { h with }
    obtain ⟨u, hu⟩ := h'.recvPackets_invoke hn
    rw [hu, ok_bind]
    split <;> exact ⟨_, rfl⟩

section Run

variable {resps reqs : ℕ} {master : Bool} {config : ClientConfig} {clock : Tsc}
  {rng : ℕ → UInt32} {keyRng tenantRng : Zipf}

/-- **No panic in invoke mode**: with keys of at least four bytes, every call of `execute`
from every state of every run returns. -/
theorem invoke_execute_returns (h1 : 1 ≤ c.numOps) (hk : 4 ≤ config.keyLen)
    (hi : config.useInvoke = true)
    (hs : ReflTransGen (Step c) (new resps master config reqs clock rng keyRng tenantRng) s)
    (env : Env) : ∃ s', execute c env s = .ok s' := by
  have hI := Inv.reachable h1 ((Reachable.new ..).refl_trans hs)
  obtain ⟨u, hu, -⟩ := (Long.run hk hs).send
  have hn : u.native = false := (congrArg Prod.fst (send_frame hu).1).trans
    ((congrArg Prod.fst (setup_of_steps hs)).trans (by simp [setup, new, hi]))
  obtain ⟨v, hv⟩ := ((send_frame hu).2 ▸ hI.send h1 hu).recv_invoke env.batch hn
  refine ⟨executeTask c env.task v, ?_⟩
  rw [execute, hu, ok_bind, hv, ok_bind]
  rfl

/-- After `pushbackRun`, with an `Ok` at the port and a task queued: the next `execute` polls
the `Ok` and runs the task, which waits again. -/
theorem invoke_execute_returns_sample :
    ∃ s', execute (Consts.shipped true) ⟨1, ⟨.waiting, 0, []⟩⟩ tasked = .ok s' :=
  invoke_execute_returns le_rfl (by decide) (by decide) tasked_steps ⟨1, ⟨.waiting, 0, []⟩⟩

/-! ### Every target within the budget is reached -/

/-- **Every target within the budget is reached**: in invoke mode, with keys of at least four
bytes and a target no larger than the budget rounded up to a multiple of 32, a run whose
server answers every invoke with `Ok` (`StepBy.steps`: a run of the system) leads the core
to a state whose next `execute` sets `finished`. -/
theorem reaches_target (h1 : 1 ≤ c.numOps) (hk : 4 ≤ config.keyLen)
    (hi : config.useInvoke = true) (hr : resps ≤ 32 * ((reqs + 31) / 32)) :
    ∃ u s, ReflTransGen (StepBy c Request.success)
        (new resps master config reqs clock rng keyRng tenantRng) u ∧
      execute c ⟨0, idleTask⟩ u = .ok s ∧ s.finished = true :=
  reaches_of_round Quiet (fun hs hq => hq.round h1 hs) (fun _ hq hr => hq.finish hr)
    (Quiet.new hk hi) hr

theorem reaches_target_sample :
    ∃ u s, ReflTransGen (StepBy (Consts.shipped false) Request.success)
      (new 64 true ⟨4, 4, 0, true, 40⟩ 40 Tsc.succ (fun _ => 0) (Zipf.const 1 1 le_rfl)
        (Zipf.const 1 1 le_rfl)) u ∧
      execute (Consts.shipped false) ⟨0, idleTask⟩ u = .ok s ∧ s.finished = true :=
  reaches_target le_rfl (by decide) rfl (by decide)

end Run

/-! ### A target beyond the budget is never reached -/

/-- A core counts at most what it sent, and sends at most `requests + 31`. -/
theorem Reachable.recvd_lt (h1 : 1 ≤ c.numOps) (hs : Reachable c s)
    (hb : s.requests + 31 < s.responses) : s.recvd < s.responses := by
  have := (Inv.reachable h1 hs).acct
  have := sent_le_requests_add hs
  omega

theorem send_clock (h : s.send = .ok s') : s'.stop = s.stop ∧ s.ticks ≤ s'.ticks :=
  send_rel (fun a b => b.stop = a.stop ∧ a.ticks ≤ b.ticks) (fun _ => ⟨rfl, le_rfl⟩)
    (fun h1 h2 => ⟨h2.1.trans h1.1, h1.2.trans h2.2⟩)
    (fun _ hu => ⟨(sendOne_frame hu).2.2.2.2.1, (sendOne_frame hu).2.2.2.2.2 ▸ Nat.le_succ _⟩) h

theorem recvPackets_clock {b : List Packet} (h : recvPackets c b s = .ok s') :
    s'.stop = s.stop ∧ s.ticks ≤ s'.ticks := by
  induction b generalizing s' with
  | nil => cases h; exact ⟨rfl, le_rfl⟩
  | cons p ps ih =>
    obtain ⟨u, hu, h⟩ := bind_eq_ok.1 h
    obtain ⟨-, -, -, -, -, h1, h2⟩ := handlePacket_frame h
    obtain ⟨h3, h4⟩ := ih hu
    exact ⟨h1.trans h3, h4.trans h2⟩

/-- What `recv` does to the stop stamp: it records a clock reading, no earlier than the last
one read, exactly when its batch brings the count to the target, and leaves it alone
otherwise. -/
theorem recv_stop {n : ℕ} (h : recv c n s = .ok s') :
    s.ticks ≤ s'.ticks ∧ (s.responses ≤ s.recvd → s'.stop = s.stop) ∧
      (s'.recvd < s'.responses → s'.stop = s.stop) ∧
      (s.recvd < s.responses → s'.responses ≤ s'.recvd →
        ∃ k, s.ticks ≤ k ∧ s'.stop = s.clock.read k) := by
  rw [recv] at h
  split at h
  · cases h; exact ⟨le_rfl, fun _ => rfl, fun _ => rfl, fun h' => absurd h' (by omega)⟩
  · obtain ⟨u, hu, h⟩ := bind_eq_ok.1 h
    obtain ⟨hst, htk⟩ := recvPackets_clock hu
    have hset := (recvPackets_frame hu).1
    simp only [setup, Prod.mk.injEq] at hset
    split at h <;> cases h
    · refine ⟨Nat.le_succ_of_le htk, fun h' => absurd h' ‹_›,
        fun h' => absurd h' (Nat.not_lt.2 ‹_›), fun _ _ => ⟨u.ticks, htk, ?_⟩⟩
      simp only [hset.2.1]
    · exact ⟨htk, fun h' => absurd h' ‹_›, fun _ => hst, fun _ h' => absurd h' ‹_›⟩

/-- The stop stamp along a run: `0` until the target is counted, then a clock reading after
`start`, which is the clock's first reading. -/
structure StopStamp (s : PushbackRecvSend) : Prop where
  ticks : 1 ≤ s.ticks
  start : s.start = s.clock.read 0
  before : s.recvd < s.responses → s.stop = 0
  after : s.responses ≤ s.recvd → 0 < s.responses → s.start < s.stop

theorem StopStamp.new (resps : ℕ) (master : Bool) (config : ClientConfig) (reqs : ℕ)
    (clock : Tsc) (rng : ℕ → UInt32) (keyRng tenantRng : Zipf) :
    StopStamp (new resps master config reqs clock rng keyRng tenantRng) where
  ticks := le_rfl
  start := rfl
  before _ := rfl
  after h h' := absurd h (Nat.not_le.2 h')

/-- One `execute` keeps the stop stamp's invariant. -/
theorem StopStamp.execute {env : Env} (hs : StopStamp s) (h : execute c env s = .ok s') :
    StopStamp s' := by
  have hw := Step.setup (.execute env h)
  obtain ⟨u, hu, h⟩ := bind_eq_ok.1 h
  obtain ⟨v, hv, h⟩ := bind_eq_ok.1 h
  cases h
  have hu' := (send_frame hu).1
  have hv' := (recv_frame hv).1.trans hu'
  simp only [setup, Prod.mk.injEq] at hw hu' hv'
  obtain ⟨-, hcw, hstw, hresw, -⟩ := hw
  obtain ⟨-, hcu, -, hresu, -⟩ := hu'
  obtain ⟨-, -, -, hresv, -⟩ := hv'
  obtain ⟨-, -, -, -, hrw, -, hsw, htw⟩ := @executeTask_frame c v env.task
  obtain ⟨hsu, htu⟩ := send_clock hu
  have hru := (send_tally hu).1
  have hrv := (recv_tally hv).1
  obtain ⟨htv, hv1, hv2, hv3⟩ := recv_stop hv
  refine ⟨?_, ?_, fun hlt => ?_, fun hge hpos => ?_⟩
  · rw [htw]; exact hs.ticks.trans (htu.trans htv)
  · rw [hstw, hcw]; exact hs.start
  · rw [hrw, hresw] at hlt
    rw [hsw, hv2 (by omega), hsu]
    exact hs.before (by omega)
  · rw [hrw, hresw] at hge
    rw [hresw] at hpos
    rw [hsw, hstw]
    by_cases hst : s.responses ≤ s.recvd
    · rw [hv1 (by omega), hsu]; exact hs.after hst hpos
    · obtain ⟨k, hk, hk'⟩ := hv3 (by omega) (by omega)
      rw [hk', hs.start, hcu]
      exact s.clock.strictMono (by have := hs.ticks; omega)

theorem StopStamp.step (hs : StopStamp s) (h : Step c s s') : StopStamp s' := by
  cases h with
  | execute env he => exact hs.execute he
  | serve q p _ _ => exact ⟨hs.ticks, hs.start, hs.before, hs.after⟩

theorem Reachable.stopStamp (hs : Reachable c s) : StopStamp s := by
  induction hs with
  | new => exact StopStamp.new ..
  | step _ hst ih => exact ih.step hst

/-- Once the target is counted, no move changes `stop`. -/
theorem Step.stop_eq (h : Step c s s') (ht : s.responses ≤ s.recvd) : s'.stop = s.stop := by
  cases h with
  | serve q p _ _ => rfl
  | execute env he =>
    obtain ⟨u, hu, he⟩ := bind_eq_ok.1 he
    obtain ⟨v, hv, he⟩ := bind_eq_ok.1 he
    cases he
    have hres : u.responses = s.responses := congrArg (fun x => x.2.2.2.1) (send_frame hu).1
    rw [executeTask_frame.2.2.2.2.2.2.1,
      (recv_stop hv).2.1 (by rw [hres, (send_tally hu).1]; exact ht), (send_clock hu).1]

/-- **The stop stamp**: in every state of every run, `stop` is `0` before the target; once
the target is counted it is later than `start` if the target is positive, and no later move
changes it. -/
theorem stop_stamp (hs : Reachable c s) :
    (s.recvd < s.responses → s.stop = 0) ∧
      (s.responses ≤ s.recvd → 0 < s.responses → s.start < s.stop) ∧
      (s.responses ≤ s.recvd → ∀ s', ReflTransGen (Step c) s s' → s'.stop = s.stop) := by
  have hst := hs.stopStamp
  refine ⟨hst.before, hst.after, fun ht s' hs' => ?_⟩
  induction hs' with
  | refl => rfl
  | tail hsu hst' ih =>
    rename_i u w
    have htu : u.responses ≤ u.recvd := by
      clear ih hst'
      induction hsu with
      | refl => exact ht
      | tail _ h ih' => exact Cluster.target_step h ih'
    exact (hst'.stop_eq htu).trans ih

/-- The stop stamp after `okRun`: the target of one response counted, `stop` read. -/
theorem stop_stamp_sample : Reachable (Consts.shipped false) okStopped ∧
    okStopped.responses ≤ okStopped.recvd ∧ okStopped.start < okStopped.stop ∧
    ∀ s', ReflTransGen (Step (Consts.shipped false)) okStopped s' → s'.stop = okStopped.stop := by
  have hr := (Reachable.new ..).refl_trans okStopped_steps
  have ht : okStopped.responses ≤ okStopped.recvd := by decide
  exact ⟨hr, ht, (stop_stamp hr).2.1 ht (by rw [responses_of_steps okStopped_steps]; decide),
    (stop_stamp hr).2.2 ht⟩

end PushbackRecvSend

/-! ### `main` never stops a client whose budget falls short -/

namespace Cluster

variable {c : Consts} {config : ClientConfig} {clock : Fin 8 → Tsc} {rng : Fin 8 → ℕ → UInt32}
  {keyRng tenantRng : Fin 8 → Zipf} {k : Cluster}

/-- A run of the system is, for each core, a run of that core. -/
theorem cores_run (h : ReflTransGen (Step c) (start config clock rng keyRng tenantRng) k)
    (i : Fin 8) :
    ReflTransGen (PushbackRecvSend.Step c) ((start config clock rng keyRng tenantRng).cores i)
      (k.cores i) := by
  induction h with
  | refl => exact .refl
  | tail _ hst ih =>
    cases hst with
    | execute j env _ he =>
      by_cases hij : i = j
      · subst hij; simpa using ih.tail (.execute env he)
      · simpa [Function.update_noteq hij] using ih
    | serve j q p _ hq hp =>
      by_cases hij : i = j
      · subst hij; simpa using ih.tail (.serve q p hq hp)
      · simpa [Function.update_noteq hij] using ih
    | stop _ => exact ih

/-- **`main` never stops**: with `num_reqs + 31` below the response target
`34 * 1000 * 1000`, no core ever counts its target, `FINISHED` is never set, and in no
interleaving of the eight cores does `main` leave its wait loop. -/
theorem never_stops (h1 : 1 ≤ c.numOps) (hb : config.numReqs + 31 < 34 * 1000 * 1000)
    (h : ReflTransGen (Step c) (start config clock rng keyRng tenantRng) k) :
    k.stopped = false := by
  cases hs : k.stopped
  · rfl
  · obtain ⟨i, hi⟩ := (safe_run h).flag ((safe_run h).stop hs)
    have hrun := cores_run h i
    have hset := PushbackRecvSend.setup_of_steps hrun
    simp only [PushbackRecvSend.setup, Prod.mk.injEq] at hset
    have hreach : PushbackRecvSend.Reachable c (k.cores i) :=
      (PushbackRecvSend.Reachable.new ..).refl_trans hrun
    exact absurd hi (Nat.not_le.2 (hreach.recvd_lt h1 (by
      rw [hset.2.2.2.1, hset.2.2.2.2.1]; exact hb)))

theorem never_stops_sample : ¬ ∃ k, ReflTransGen (Step (Consts.shipped false))
    (start ⟨4, 4, 0, true, 1000⟩ (fun _ => Tsc.succ) (fun _ _ => 0)
      (fun _ => Zipf.const 1 1 le_rfl) (fun _ => Zipf.const 1 1 le_rfl)) k ∧ k.stopped = true :=
  fun ⟨_, h, hs⟩ => absurd hs (by rw [never_stops le_rfl (by decide) h]; decide)

end Cluster

end Kayak
