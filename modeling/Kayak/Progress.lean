import Kayak.Budget
import Kayak.Invariant

/-!
# Progress of one core

A run in which the server answers every request with success makes progress: in invoke
mode, a *round* of three moves (an `execute` that fills the window and polls nothing, the
server answering the 32 invokes on the wire with `Ok`, an `execute` that polls them)
brings a quiet core (nothing in flight, no task to run) back to quiet with 32 more
responses counted.

**`reach_of_round`**: rounds of this kind, iterated from a state with nothing outstanding,
reach every response target the budget covers, the last round crossing it; native mode uses
the same iteration with its own round (`NativeProgress`). **`finish`**: a quiet core that has
counted its response target sets `finished` on its next `execute`. So every response target
that is a multiple of 32, such as the `34 * 1000 * 1000` of `setup_send_recv`, is reached.
-/

namespace Kayak

/-- The server's successful answer to a request: `Ok` to an invoke, the value to a get. -/
def Request.success : Request → Packet
  | .invoke _ _ _ t => .invoke t .statusOk []
  | .get tenant _ _ t => .get t tenant []
  | .put _ _ _ _ t => .put t

theorem answers_success (q : Request) : answers q q.success = true := by
  cases q <;> simp [answers, Request.success]

namespace PushbackRecvSend

open Relation

variable {c : Consts} {s s' u : PushbackRecvSend} {fuel : ℕ}

/-- The server answers the whole wire, front to back, each request `q` with `ans q`. -/
theorem serve_all {ans : Request → Packet} (hans : ∀ q, answers q (ans q) = true)
    {qs : List Request} (h : s.wire = qs) :
    ReflTransGen (StepBy c ans) s { s with wire := [], receiver := s.receiver ++ qs.map ans } := by
  induction qs generalizing s with
  | nil =>
    cases s; simp only at h; subst h
    simpa using ReflTransGen.refl
  | cons q qs ih =>
    have hq : q ∈ s.wire := h ▸ List.mem_cons_self q qs
    have hw : (s.serve q (ans q)).wire = qs := by simp [serve, h]
    refine ReflTransGen.head (StepBy.serve q hq (hans q)) ?_
    simpa [serve] using ih hw

/-! ### Sending from a quiet core -/

/-- In invoke mode an iteration of the loop sends an invoke and touches neither the run
queue nor the count of responses. -/
theorem sendOne_invoke_wire (hn : s.native = false) (h : s.sendOne = .ok s') :
    s'.waiting = s.waiting ∧ s'.recvd = s.recvd ∧
      ∃ q, s'.wire = s.wire ++ [q] ∧ q.kind = .invoke := by
  obtain ⟨_, _, _, _, rfl⟩ := sendOne_invoke hn h
  exact ⟨rfl, rfl, _, rfl, rfl⟩

theorem send_invoke_wire (hn : s.native = false) (h : s.send = .ok s') :
    s'.waiting = s.waiting ∧ s'.recvd = s.recvd ∧
      ∃ qs, s'.wire = s.wire ++ qs ∧ ∀ q ∈ qs, q.kind = .invoke := by
  refine (send_rel (fun a b => a.native = false → b.native = false ∧ b.waiting = a.waiting ∧
    b.recvd = a.recvd ∧ ∃ qs, b.wire = a.wire ++ qs ∧ ∀ q ∈ qs, q.kind = .invoke) ?_ ?_ ?_ h hn).2
  · intro a ha; exact ⟨ha, rfl, rfl, [], by simp, by simp⟩
  · intro a b d h1 h2 ha
    obtain ⟨hb, hw1, hr1, qs1, hq1, hk1⟩ := h1 ha
    obtain ⟨hd, hw2, hr2, qs2, hq2, hk2⟩ := h2 hb
    exact ⟨hd, hw2.trans hw1, hr2.trans hr1, qs1 ++ qs2, by simp [hq2, hq1],
      fun q hq => (List.mem_append.1 hq).elim (hk1 q) (hk2 q)⟩
  · intro a b _ hu ha
    obtain ⟨hw, hr, q, hq, hk⟩ := sendOne_invoke_wire ha hu
    exact ⟨(congrArg Prod.fst (sendOne_frame hu).1).trans ha, hw, hr, [q], hq, by simp [hk]⟩

/-- `send` leaves the run queue alone. -/
theorem sendOne_waiting (h : s.sendOne = .ok s') : s'.waiting = s.waiting := by
  cases hn : s.native
  · obtain ⟨_, _, _, _, rfl⟩ := sendOne_invoke hn h; rfl
  · obtain ⟨-, rfl⟩ := sendOne_native hn h; rfl

theorem send_waiting (h : s.send = .ok s') : s'.waiting = s.waiting :=
  send_rel (fun a b => b.waiting = a.waiting) (fun _ => rfl) (fun h1 h2 => h2.trans h1)
    (fun _ hu => sendOne_waiting hu) h

/-- With the window full, `send` sends nothing. -/
theorem send_of_full (h : 32 ≤ s.outstanding) : s.send = .ok s := by
  unfold send
  split
  · rfl
  · rw [sendLoop, if_neg (by omega)]; rfl

/-- Before its target a core that polls nothing does nothing in `recv`. -/
theorem recv_zero (h : s.recvd < s.responses) : recv c 0 s = .ok s := by
  simp [recv, Nat.not_le.2 h, recvPackets]
  rfl

/-! ### Receiving the answers -/

/-- Handling `Ok` responses to invokes with past stamps, no more than are outstanding: each
counts one response and reads the clock once. -/
theorem recvPackets_oks (c : Consts) {ps : List Packet} (hn : s.native = false)
    (hok : ∀ p ∈ ps, ∃ t, t < s.clock.read s.ticks ∧ p = .invoke t .statusOk [])
    (ho : ps.length ≤ s.outstanding) :
    ∃ s', recvPackets c ps s = .ok s' ∧ s'.recvd = s.recvd + ps.length ∧
      s'.outstanding = s.outstanding - ps.length ∧ s'.ticks = s.ticks + ps.length ∧
      s'.waiting = s.waiting ∧ s'.wire = s.wire ∧ s'.receiver = s.receiver ∧
      s'.setup = s.setup ∧ s'.buffers = s.buffers := by
  induction ps with
  | nil => exact ⟨s, rfl, rfl, rfl, rfl, rfl, rfl, rfl, rfl, rfl⟩
  | cons p ps ih =>
    obtain ⟨u, hu, hr, ho', ht, hw, hwire, hrx, hset, hbuf⟩ :=
      ih (fun p hp => hok p (List.mem_cons_of_mem _ hp)) (by simp at ho; omega)
    obtain ⟨t, hlt, rfl⟩ := hok p (List.mem_cons_self _ _)
    simp only [setup, Prod.mk.injEq] at hset
    have hle : t ≤ u.clock.read u.ticks := by
      rw [hset.2.1, ht]
      exact hlt.le.trans (s.clock.strictMono.monotone (Nat.le_add_right _ _))
    have h1 : 1 ≤ u.outstanding := by simp at ho; omega
    rw [recvPackets, hu, ok_bind, handlePacket_statusOk (hset.1.trans hn) hle h1]
    refine ⟨_, rfl, ?_, ?_, ?_, hw, hwire, hrx, ?_, hbuf⟩
    · simp [hr]; omega
    · simp only [List.length_cons] at ho ⊢; omega
    · simp [ht]; omega
    · simp [setup, hset]

theorem mem_stamps_of_mem {wire : List Request} {rx : List Packet} {p : Packet} {k : Kind}
    {t : ℕ} (hp : p ∈ rx) (ht : p.tag = some (k, t)) : t ∈ stamps wire rx :=
  Multiset.mem_map.2 ⟨(k, t), List.mem_append.2 (.inr (List.mem_filterMap.2 ⟨p, hp, ht⟩)), rfl⟩

/-- A core before its target that polls exactly the `Ok` answers at its port, no more than
are outstanding, counts them all and leaves the port empty. -/
theorem Inv.recv_oks {rs : List Request} (h : Inv c s s.receiver) (hn : s.native = false)
    (hrx : s.receiver = rs.map Request.success) (hk : ∀ q ∈ rs, q.kind = .invoke)
    (ho : rs.length ≤ s.outstanding) (hr : s.recvd < s.responses) :
    ∃ s', PushbackRecvSend.recv c rs.length s = .ok s' ∧ s'.recvd = s.recvd + rs.length ∧
      s'.waiting = s.waiting ∧ s'.wire = s.wire ∧ s'.receiver = [] ∧
      s'.setup = s.setup ∧ s'.buffers = s.buffers := by
  have hok : ∀ p ∈ rs.map Request.success, ∃ t, t < s.clock.read s.ticks ∧
      p = .invoke t .statusOk [] := by
    intro p hp
    obtain ⟨q, hq, rfl⟩ := List.mem_map.1 hp
    cases q with
    | invoke tenant n pl t =>
      exact ⟨t, h.fresh t (mem_stamps_of_mem (hrx ▸ hp)
        (show Packet.tag (.invoke t .statusOk []) = some (.invoke, t) from rfl)), rfl⟩
    | get => cases hk _ hq
    | put => cases hk _ hq
  have hn' : ({ s with receiver := [] } : PushbackRecvSend).native = false := hn
  obtain ⟨u, hu, hru, -, -, hw, hwire, hrxu, hset, hbuf⟩ :=
    recvPackets_oks c hn' hok (by simpa using ho)
  have hlen : (rs.map Request.success).length = rs.length := List.length_map _ _
  rw [hlen] at hru
  rw [PushbackRecvSend.recv, if_neg (by omega), hrx, List.take_of_length_le hlen.le,
    List.drop_of_length_le hlen.le, hu, ok_bind]
  split <;> exact ⟨_, rfl, hru, hw, hwire, hrxu, hset, hbuf⟩

/-! ### Rounds -/

/-- With nothing in flight nothing is outstanding, and every request sent has been
counted. -/
theorem Inv.idle {rx : List Packet} (h : Inv c s rx) (hw : s.wire = []) (hr : rx = []) :
    s.outstanding = 0 ∧ s.recvd = s.sent := by
  have ho : s.outstanding = 0 := by rw [h.count, hw, hr]; rfl
  exact ⟨ho, by have := h.acct; omega⟩

/-- A core of invoke mode with nothing in flight and no task to run, its buffers long. -/
structure Quiet (s : PushbackRecvSend) : Prop where
  invoke : s.native = false
  wire : s.wire = []
  receiver : s.receiver = []
  waiting : s.waiting = []
  long : Long s

/-- The task step of an `execute` on a core whose run queue is empty. -/
def idleTask : TaskRun := ⟨.yielded, 0, []⟩

/-- A task step that yields only rotates the run queue. -/
theorem executeTask_idle (s : PushbackRecvSend) :
    ∃ w, executeTask c idleTask s = { s with waiting := w } := by
  cases hw : s.waiting with
  | nil => exact ⟨[], by rw [executeTask_nil hw, ← hw]⟩
  | cons m rest => exact ⟨rest ++ [m], executeTask_yielded hw rfl⟩

/-- An `execute` that polls nothing, on a core with no task to run, before its target, is
its `send`. -/
theorem execute_send (hs : s.send = .ok u) (hr : u.recvd < u.responses) (hw : u.waiting = []) :
    execute c ⟨0, idleTask⟩ s = .ok u := by
  rw [execute, hs, ok_bind, recv_zero hr, ok_bind, executeTask_nil hw]
  rfl

/-- An `execute` on a full window, with no task to run after its `recv`, is that `recv`. -/
theorem execute_recv {n : ℕ} (ho : 32 ≤ s.outstanding) (hr : recv c n s = .ok u)
    (hw : u.waiting = []) : execute c ⟨n, idleTask⟩ s = .ok u := by
  rw [execute, send_of_full ho, ok_bind, hr, ok_bind, executeTask_nil hw]
  rfl

/-- A core of invoke mode with its window full on the wire: 32 invokes, nothing at the port,
no task to run, its buffers long. -/
structure Full (s : PushbackRecvSend) : Prop where
  invoke : s.native = false
  receiver : s.receiver = []
  waiting : s.waiting = []
  wire : ∀ q ∈ s.wire, q.kind = .invoke
  full : s.outstanding = 32
  length : s.wire.length = 32
  long : Long s

/-- A quiet core before its target with some budget left fills the window on its next
`execute`. -/
theorem Quiet.fill (h1 : 1 ≤ c.numOps) (hs : Reachable c s) (hq : Quiet s)
    (hr : s.recvd < s.responses) (hb : s.sent < s.requests) :
    ∃ s', execute c ⟨0, idleTask⟩ s = .ok s' ∧ Full s' ∧ s'.recvd = s.recvd ∧
      s'.sent = s.sent + 32 := by
  have ho := ((Inv.reachable h1 hs).idle hq.wire hq.receiver).1
  obtain ⟨u, hu, hlu⟩ := hq.long.send
  obtain ⟨hwu, hru, qs, hqs, hks⟩ := send_invoke_wire hq.invoke hu
  rcases send_fills_window hu with ⟨hle, -⟩ | ⟨-, hsu, hou, -, qs', hqs', hlen⟩
  · omega
  obtain ⟨hset, hrxu⟩ := send_frame hu
  simp only [setup, Prod.mk.injEq] at hset
  rw [hq.wire, List.nil_append] at hqs hqs'
  obtain rfl : qs' = qs := hqs'.symm.trans hqs
  refine ⟨u, execute_send hu (by rw [hru, hset.2.2.2.1]; omega) (hwu.trans hq.waiting),
    ⟨hset.1.trans hq.invoke, hrxu.trans hq.receiver, hwu.trans hq.waiting, hqs ▸ hks,
      by rw [hou, ho]; rfl, by rw [hqs, hlen, ho], hlu⟩, hru, by omega⟩

/-- A full window before the target drains: the server answers the 32 invokes with `Ok`, and
the core counts them on its next `execute`, quiet again. -/
theorem Full.drain (h1 : 1 ≤ c.numOps) (hs : Reachable c s) (hf : Full s)
    (hr : s.recvd < s.responses) :
    ∃ s', ReflTransGen (StepBy c Request.success) s s' ∧ Quiet s' ∧
      s'.recvd = s.recvd + 32 ∧ s'.sent = s.sent := by
  have hsrv : ReflTransGen (StepBy c Request.success) s _ :=
    serve_all answers_success (rfl : s.wire = s.wire)
  rw [hf.receiver, List.nil_append] at hsrv
  set v := { s with wire := [], receiver := s.wire.map Request.success }
  obtain ⟨w, hw, hrw, hww, hwirew, hrxw, hsetw, hbufw⟩ :=
    (Inv.reachable h1 (hs.refl_trans (StepBy.steps hsrv))).recv_oks hf.invoke rfl hf.wire
      (by rw [hf.length]; exact hf.full.ge) hr
  have hex : StepBy c Request.success v w :=
    .execute _ (execute_recv hf.full.ge hw (hww.trans hf.waiting))
  refine ⟨w, hsrv.tail hex, ⟨(congrArg Prod.fst hsetw).trans hf.invoke, hwirew, hrxw,
    hww.trans hf.waiting, hf.long.of_buffers hbufw⟩, by rw [hrw, hf.length], sent_of_buffers hbufw⟩

/-- **One round**: from a quiet state of a run before its target with some budget left, the
core fills the window, the server answers the 32 invokes with `Ok`, and the core counts them:
a quiet state with 32 more sent and 32 more counted. -/
theorem Quiet.round (h1 : 1 ≤ c.numOps) (hs : Reachable c s) (hq : Quiet s)
    (hr : s.recvd < s.responses) (hb : s.sent < s.requests) :
    ∃ s', ReflTransGen (StepBy c Request.success) s s' ∧ Quiet s' ∧
      s'.recvd = s.recvd + 32 ∧ s'.sent = s.sent + 32 := by
  obtain ⟨u, hu, hfu, hru, hsu⟩ := hq.fill h1 hs hr hb
  obtain ⟨s', hs', hq', hr', hs''⟩ := hfu.drain h1 (hs.step (.execute _ hu))
    (by rw [hru, responses_of_steps (.single (.execute _ hu))]; exact hr)
  exact ⟨s', .head (.execute _ hu) hs', hq', by omega, by omega⟩

/-- `n` rounds that each count 32 more responses and send 32 more requests, from the states of
some kind `Q`, reach every target within `32 * n` responses when the budget lets the last of
them start: rounds are taken until the count reaches the target, the last one crossing it. -/
theorem reach_of_round {ans : Request → Packet} (Q : PushbackRecvSend → Prop)
    (hround : ∀ {s}, Reachable c s → Q s → s.recvd < s.responses → s.sent < s.requests →
      ∃ s', ReflTransGen (StepBy c ans) s s' ∧ Q s' ∧ s'.recvd = s.recvd + 32 ∧
        s'.sent = s.sent + 32)
    (n : ℕ) (hs : Reachable c s) (hq : Q s) (he : s.recvd = s.sent)
    (hr : s.responses ≤ s.recvd + 32 * n) (hb : s.sent + 32 * n ≤ s.requests + 31) :
    ∃ u, ReflTransGen (StepBy c ans) s u ∧ Q u ∧ s.responses ≤ u.recvd := by
  induction n generalizing s with
  | zero => exact ⟨s, .refl, hq, by omega⟩
  | succ n ih =>
    by_cases hrs : s.responses ≤ s.recvd
    · exact ⟨s, .refl, hq, hrs⟩
    obtain ⟨s', hss, hq', hr', hb'⟩ := hround hs hq (by omega) (by omega)
    have hset := setup_of_steps (StepBy.steps hss)
    simp only [setup, Prod.mk.injEq] at hset
    obtain ⟨-, -, -, hres, hreqs, -⟩ := hset
    obtain ⟨u, hu, hqu, hru⟩ :=
      ih (hs.refl_trans (StepBy.steps hss)) hq' (by omega) (by omega) (by omega)
    exact ⟨u, hss.trans hu, hqu, by omega⟩

/-- A core with long buffers that has counted its target sets `finished` on its next
`execute`, in either mode, whatever its run queue holds. -/
theorem execute_finishes (hl : Long s) (hr : s.responses ≤ s.recvd) :
    ∃ s', execute c ⟨0, idleTask⟩ s = .ok s' ∧ s'.finished = true := by
  obtain ⟨u, hu, -⟩ := hl.send
  have hru := (send_tally hu).1
  have hset := (send_frame hu).1
  simp only [setup, Prod.mk.injEq] at hset
  obtain ⟨w, hw⟩ := @executeTask_idle c { u with finished := true }
  refine ⟨executeTask c idleTask { u with finished := true }, ?_, by rw [hw]⟩
  rw [execute, hu, ok_bind, recv, if_pos (by omega), pure_bind]
  rfl

/-- **Finish**: a quiet core that has counted its target sets `finished` on its next
`execute`. -/
theorem Quiet.finish (hq : Quiet s) (hr : s.responses ≤ s.recvd) :
    ∃ s', execute c ⟨0, idleTask⟩ s = .ok s' ∧ s'.finished = true :=
  execute_finishes hq.long hr

section Run

variable {master : Bool} {config : ClientConfig} {resps reqs : ℕ} {clock : Tsc}
  {rng : ℕ → UInt32} {keyRng tenantRng : Zipf}

/-- From `new`, rounds of some kind reach every target up to the budget rounded up to a
multiple of 32, the window; the next `execute` then sets `finished` when a state of that
kind that has counted its target does. -/
theorem reaches_of_round {ans : Request → Packet} (Q : PushbackRecvSend → Prop)
    (hround : ∀ {s}, Reachable c s → Q s → s.recvd < s.responses → s.sent < s.requests →
      ∃ s', ReflTransGen (StepBy c ans) s s' ∧ Q s' ∧ s'.recvd = s.recvd + 32 ∧
        s'.sent = s.sent + 32)
    (hfin : ∀ {u}, Reachable c u → Q u → u.responses ≤ u.recvd →
      ∃ s, execute c ⟨0, idleTask⟩ u = .ok s ∧ s.finished = true)
    (hq : Q (new resps master config reqs clock rng keyRng tenantRng))
    (hr : resps ≤ 32 * ((reqs + 31) / 32)) :
    ∃ u s, ReflTransGen (StepBy c ans)
        (new resps master config reqs clock rng keyRng tenantRng) u ∧
      execute c ⟨0, idleTask⟩ u = .ok s ∧ s.finished = true := by
  obtain ⟨u, hu, hqu, hru⟩ := reach_of_round Q hround ((resps + 31) / 32) (.new ..) hq rfl
    (show resps ≤ 0 + _ by omega) (show 0 + _ ≤ reqs + 31 by omega)
  have hset := setup_of_steps (StepBy.steps hu)
  simp only [setup, Prod.mk.injEq] at hset
  obtain ⟨s, hs⟩ := hfin ((Reachable.new ..).refl_trans (StepBy.steps hu)) hqu
    (by rw [hset.2.2.2.1]; exact hru)
  exact ⟨u, s, hu, hs⟩

theorem Quiet.new (hk : 4 ≤ config.keyLen) (hi : config.useInvoke = true) :
    Quiet (new resps master config reqs clock rng keyRng tenantRng) :=
  ⟨by simp [PushbackRecvSend.new, hi], rfl, rfl, rfl, Long.new hk⟩

/-- In invoke mode, with keys of at least four bytes and a budget that covers it, a response
target that is a multiple of 32 is reached: some run leads to a state whose next `execute`
sets `finished`. -/
theorem reaches_finished (h1 : 1 ≤ c.numOps) (hk : 4 ≤ config.keyLen)
    (hi : config.useInvoke = true) (k : ℕ) (hreq : 32 * k ≤ reqs) :
    ∃ u s, ReflTransGen (StepBy c Request.success)
        (new (32 * k) master config reqs clock rng keyRng tenantRng) u ∧
      execute c ⟨0, idleTask⟩ u = .ok s ∧ s.finished = true :=
  reaches_of_round Quiet (fun hs hq => hq.round h1 hs) (fun _ hq hr => hq.finish hr)
    (Quiet.new hk hi) (by omega)

end Run

end PushbackRecvSend

end Kayak
