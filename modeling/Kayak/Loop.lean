import Kayak.Target

/-!
# The closed loop the client is

The benchmark client is a closed loop. It keeps at most 32 operations open: invokes in invoke
mode, operations of `NUM_OPS` gets in native mode. It opens each operation under a new
reading of the clock, and counts it once, when its last response is handled. `Loop` is that
design: the clock's last reading, the stamps of the open operations, and the counts of
operations opened and closed. The gets of pushed-back tasks and the intermediate gets of a
native operation are not operations of the loop.

## What is proved

* `Loop.Safe.steps`: every run of the loop is safe. Every operation opened is open or
  counted, at most 32 are open, no two open ones share a stamp, and every open stamp was read
  from the clock.
* **`client_refines_loop`**: every run of the client from `new` is a run of the loop, in both
  modes and whatever the server answers and the scheduler polls. `loopOf` reads the loop off
  a state: the last clock reading, the stamps of the logical requests in flight, `sent` and
  `recvd`. Each iteration of `send` opens an operation. Each response that ends an operation
  closes it. Every other move reads the clock or changes nothing. So every state of the client
  is safe as the loop is.
-/

namespace Kayak

open Relation

/-- The closed loop of the client's design: the clock's last reading, the stamps of the open
operations, and the counts of operations opened and closed. -/
structure Loop where
  clock : ℕ
  pending : Multiset ℕ
  opened : ℕ
  closed : ℕ

namespace Loop

/-- The moves of the loop. -/
inductive Step : Loop → Loop → Prop where
  /-- The clock is read. -/
  | tick {l : Loop} {t : ℕ} : l.clock < t → Step l { l with clock := t }
  /-- While fewer than 32 are open, an operation is opened under a new reading of the clock. -/
  | issue {l : Loop} {t : ℕ} : l.clock < t → Multiset.card l.pending < 32 →
      Step l { l with clock := t, pending := t ::ₘ l.pending, opened := l.opened + 1 }
  /-- An open operation ends and is counted. -/
  | complete {l : Loop} {t : ℕ} : t ∈ l.pending →
      Step l { l with pending := l.pending.erase t, closed := l.closed + 1 }

/-- What the loop guarantees: every operation opened is open or counted, at most 32 are open,
no two open ones share a stamp, and each open stamp was read from the clock. -/
structure Safe (l : Loop) : Prop where
  count : l.opened = l.closed + Multiset.card l.pending
  window : Multiset.card l.pending ≤ 32
  nodup : l.pending.Nodup
  past : ∀ t ∈ l.pending, t ≤ l.clock

theorem Safe.step {l l' : Loop} (h : Safe l) (hs : Step l l') : Safe l' := by
  have hc := h.count
  cases hs with
  | tick ht => exact ⟨hc, h.window, h.nodup, fun t' hm => (h.past t' hm).trans ht.le⟩
  | issue ht hw =>
    refine ⟨by simp only [Multiset.card_cons]; omega, by simp only [Multiset.card_cons]; omega,
      Multiset.nodup_cons.2 ⟨fun hm => absurd (h.past _ hm) (Nat.not_le.2 ht), h.nodup⟩, ?_⟩
    intro t' hm
    rcases Multiset.mem_cons.1 hm with rfl | hm
    · exact le_rfl
    · exact (h.past t' hm).trans ht.le
  | complete hm =>
    have hpos := Multiset.card_pos_iff_exists_mem.2 ⟨_, hm⟩
    have he := Multiset.card_erase_of_mem hm
    rw [Nat.pred_eq_sub_one] at he
    have hw := h.window
    exact ⟨by simp only [he]; omega, by simp only [he]; omega, h.nodup.erase _,
      fun t' ht' => h.past t' (Multiset.mem_of_mem_erase ht')⟩

theorem Safe.steps {l l' : Loop} (h : Safe l) (hs : ReflTransGen Step l l') : Safe l' := by
  induction hs with
  | refl => exact h
  | tail _ hst ih => exact ih.step hst

/-- Reading the clock on from reading `a - 1` to reading `b - 1` is a tick, or nothing. -/
theorem reads {l : Loop} {k : Tsc} {a b : ℕ} (hl : l.clock = k.read (a - 1)) (ha : 1 ≤ a)
    (hab : a ≤ b) : ReflTransGen Step l { l with clock := k.read (b - 1) } := by
  rcases Nat.lt_or_eq_of_le hab with hlt | rfl
  · exact .single (.tick (hl ▸ k.strictMono (by omega)))
  · rw [← hl]

end Loop

namespace PushbackRecvSend

variable {c : Consts} {s s' : PushbackRecvSend} {rx rx' : List Packet} {t : ℕ}

/-- The stamps of the logical requests in a multiset of what is in flight. -/
def logicalStamps (native : Bool) (m : Multiset (Kind × ℕ)) : Multiset ℕ :=
  (m.filter fun x => x.1.logical native).map Prod.snd

theorem logicalStamps_cons (native : Bool) (x : Kind × ℕ) (m : Multiset (Kind × ℕ)) :
    logicalStamps native (x ::ₘ m) =
      if x.1.logical native then x.2 ::ₘ logicalStamps native m else logicalStamps native m := by
  unfold logicalStamps
  rw [Multiset.filter_cons]
  split <;> simp

theorem card_logicalStamps (native : Bool) (m : Multiset (Kind × ℕ)) :
    Multiset.card (logicalStamps native m) = m.countP fun x => x.1.logical native := by
  rw [logicalStamps, Multiset.card_map, Multiset.countP_eq_card_filter]

/-- The loop a state of the client is at, `rx` being the responses not yet handled: the clock's
last reading, the stamps of the logical requests in flight, the requests sent and the responses
counted. -/
def loopOf (s : PushbackRecvSend) (rx : List Packet) : Loop where
  clock := s.clock.read (s.ticks - 1)
  pending := logicalStamps s.native (flight s.wire rx)
  opened := s.sent
  closed := s.recvd

/-- A move that sends and counts nothing and keeps the logical stamps in flight only reads the
clock on. -/
theorem loop_idle (ht : 1 ≤ s.ticks) (hle : s.ticks ≤ s'.ticks) (hk : s'.clock = s.clock)
    (hp : logicalStamps s'.native (flight s'.wire rx') = logicalStamps s.native (flight s.wire rx))
    (ho : s'.sent = s.sent) (hc : s'.recvd = s.recvd) :
    ReflTransGen Loop.Step (loopOf s rx) (loopOf s' rx') := by
  have e : loopOf s' rx' = { loopOf s rx with clock := s.clock.read (s'.ticks - 1) } := by
    simp only [loopOf, hk, hp, ho, hc]
  rw [e]
  exact Loop.reads rfl ht hle

/-- A response of kind `k` and stamp `t` that is counted exactly when its kind is logical closes
its operation in the loop, if it has one, and reads the clock on. -/
theorem loop_respond {p : Packet} {k : Kind} (ht : 1 ≤ s.ticks) (hle : s.ticks ≤ s'.ticks)
    (hp : p.tag = some (k, t)) (hn : s'.native = s.native) (hk : s'.clock = s.clock)
    (hw : s'.wire = s.wire) (ho : s'.sent = s.sent)
    (hc : s'.recvd = s.recvd + if k.logical s.native then 1 else 0) :
    ReflTransGen Loop.Step (loopOf s (p :: rx)) (loopOf s' rx) := by
  have hcons : (loopOf s (p :: rx)).pending =
      if k.logical s.native then t ::ₘ logicalStamps s.native (flight s.wire rx)
      else logicalStamps s.native (flight s.wire rx) := by
    simp only [loopOf, flight_cons s.wire hp, logicalStamps_cons]
  have hrest : logicalStamps s'.native (flight s'.wire rx) =
      logicalStamps s.native (flight s.wire rx) := by rw [hn, hw]
  cases hl : k.logical s.native
  · rw [hl, if_neg Bool.false_ne_true] at hcons hc
    exact loop_idle ht hle hk (hrest.trans hcons.symm) ho hc
  · rw [hl, if_pos rfl] at hcons hc
    have hm : t ∈ (loopOf s (p :: rx)).pending := by rw [hcons]; exact Multiset.mem_cons_self _ _
    refine .head (.complete hm) ?_
    have e : loopOf s' rx = { loopOf s (p :: rx) with
        pending := (loopOf s (p :: rx)).pending.erase t, closed := s.recvd + 1,
        clock := s.clock.read (s'.ticks - 1) } := by
      simp only [loopOf, hk, hrest, ho, hc]
      rw [show logicalStamps s.native (flight s.wire (p :: rx)) = _ from hcons,
        Multiset.erase_cons_head]
    rw [e]
    exact Loop.reads rfl ht hle

/-! ### Send and serve -/

/-- An iteration of `send`, on a window with room, opens an operation under the stamp it reads
from the clock. -/
theorem Inv.sendOne_loop (h : Inv c s rx) (ht : 1 ≤ s.ticks) (hlt : s.outstanding < 32)
    (hs : s.sendOne = .ok s') : Loop.Step (loopOf s rx) (loopOf s' rx) := by
  have hclk : (loopOf s rx).clock < s.clock.read s.ticks := s.clock.strictMono (by omega)
  have hw : Multiset.card (loopOf s rx).pending < 32 := by
    rw [loopOf, card_logicalStamps, ← h.count]; exact hlt
  have issue := Loop.Step.issue hclk hw
  have hsnoc : ∀ q : Request, q.stamp = s.clock.read s.ticks → q.kind.logical s.native = true →
      logicalStamps s.native (flight (s.wire ++ [q]) rx) =
        s.clock.read s.ticks ::ₘ (loopOf s rx).pending := by
    intro q hq hk
    rw [flight_wire_snoc, logicalStamps_cons]
    simp only [Request.tag, hk, if_true, hq]
    rfl
  cases hn : s.native
  · obtain ⟨pg, pp, p, tenant, rfl⟩ := sendOne_invoke hn hs
    convert issue using 2
    simp only [loopOf, Nat.add_sub_cancel,
      hsnoc (.invoke tenant 8 p (s.clock.read s.ticks)) rfl (by simp [Kind.logical, hn])]
  · obtain ⟨-, rfl⟩ := sendOne_native hn hs
    convert issue using 2
    simp only [loopOf, Nat.add_sub_cancel]
    exact hsnoc _ (by cases s.workload.call <;> rfl)
      (by cases s.workload.call <;> simp [nativeRequest, Kind.logical, hn])

theorem Inv.send_loop (h : Inv c s rx) (h1 : 1 ≤ c.numOps) (ht : 1 ≤ s.ticks)
    (hs : s.send = .ok s') : ReflTransGen Loop.Step (loopOf s rx) (loopOf s' rx) :=
  (send_rel (fun a b => Inv c a rx → 1 ≤ a.ticks →
      Inv c b rx ∧ 1 ≤ b.ticks ∧ ReflTransGen Loop.Step (loopOf a rx) (loopOf b rx))
    (fun _ ha ht => ⟨ha, ht, .refl⟩)
    (fun hab hbd ha ht => (hab ha ht).elim fun hb hr =>
      (hbd hb hr.1).imp_right fun hd => ⟨hd.1, hr.2.trans hd.2⟩)
    (fun hlt hu ha ht => ⟨ha.sendOne h1 hlt hu,
      (sendOne_frame hu).2.2.2.2.2 ▸ Nat.le_succ_of_le ht, .single (ha.sendOne_loop ht hlt hu)⟩)
    hs h ht).2.2

theorem loopOf_serve {q : Request} {p : Packet} (hq : q ∈ s.wire) (hp : answers q p) :
    loopOf (s.serve q p) (rx ++ [p]) = loopOf s rx := by
  have hf : flight (s.wire.erase q) (rx ++ [p]) = flight s.wire rx := by
    rw [flight_rx_snoc _ _ (tag_of_answers hp), flight_erase hq rx]; rfl
  simp only [loopOf, serve, hf]

/-! ### Receive -/

/-- Handling a response moves the loop: a response that ends an operation closes it, and every
response reads the clock on or leaves it. -/
theorem Inv.handlePacket_loop {p : Packet} (h : Inv c s (p :: rx)) (ht : 1 ≤ s.ticks)
    (hs : PushbackRecvSend.handlePacket c s p = .ok s') : ReflTransGen Loop.Step (loopOf s (p :: rx)) (loopOf s' rx) := by
  have hr := h.reply p (List.mem_cons_self _ _)
  cases hn : s.native
  · cases p with
    | invoke t st r =>
      cases st with
      | statusOk =>
        obtain ⟨-, -, rfl⟩ := handlePacket_statusOk_ok hn hs
        exact loop_respond ht (Nat.le_succ _) rfl rfl rfl rfl rfl (by simp [Kind.logical, hn])
      | statusPushback =>
        obtain ⟨-, -, rfl⟩ := handlePacket_pushback_ok hn hs
        exact loop_respond ht (by simp only; omega) rfl rfl rfl rfl rfl
          (by simp [Kind.logical, hn])
      | other k => simp [Packet.Reply] at hr
    | get t tenant pl =>
      obtain ⟨-, rfl⟩ := handlePacket_get_ok hn hs
      exact loop_respond ht (Nat.le_succ _) rfl rfl rfl rfl rfl (by simp [Kind.logical, hn])
    | put t =>
      obtain ⟨-, rfl⟩ := handlePacket_put_ok hn hs
      exact loop_respond ht (Nat.le_succ _) rfl rfl rfl rfl rfl (by simp [Kind.logical, hn])
    | other => cases hr
  · cases p with
    | get t tenant pl =>
      have hp : (Packet.get t tenant pl).tag = some (.get, t) := rfl
      obtain ⟨n, hl⟩ := Option.isSome_iff_exists.1 (AList.lookup_isSome.2
        ((h.nativeIff hn t).2 (mem_stamps_cons s.wire hp rx)))
      by_cases hne : n = c.numOps
      · obtain ⟨-, l, rfl⟩ := handlePacket_done_ok hn (hne ▸ hl) hs
        exact loop_respond ht (Nat.le_succ _) hp rfl rfl rfl rfl (by simp [Kind.logical, hn])
      · obtain ⟨-, val, rfl⟩ := handlePacket_step_ok hn hl hne hs
        refine loop_idle ht le_rfl rfl ?_ rfl rfl
        rw [flight_wire_snoc, flight_cons _ hp]
        rfl
    | invoke t st r => cases h.get_of_native hn rfl
    | put t => cases h.get_of_native hn rfl
    | other => cases hr

theorem loopOf_perm (hp : rx.Perm rx') : loopOf s rx = loopOf s rx' := by
  simp only [loopOf, flight_perm hp]

theorem Inv.recvPackets_loop {b : List Packet} (h : Inv c s (b ++ rx)) (ht : 1 ≤ s.ticks)
    (hs : PushbackRecvSend.recvPackets c b s = .ok s') :
    ReflTransGen Loop.Step (loopOf s (b ++ rx)) (loopOf s' rx) := by
  induction b generalizing s' rx with
  | nil => cases hs; exact .refl
  | cons p ps ih =>
    obtain ⟨u, hu, hs⟩ := bind_eq_ok.1 hs
    have hm : List.Perm ((p :: ps) ++ rx) (ps ++ p :: rx) := List.perm_middle.symm
    have h' := h.perm hm
    rw [loopOf_perm hm]
    exact (ih h' hu).trans
      ((h'.recvPackets hu).handlePacket_loop (ht.trans (recvPackets_clock hu).2) hs)

theorem Inv.recv_loop {n : ℕ} (h : Inv c s s.receiver) (ht : 1 ≤ s.ticks)
    (hs : PushbackRecvSend.recv c n s = .ok s') :
    ReflTransGen Loop.Step (loopOf s s.receiver) (loopOf s' s'.receiver) := by
  rw [PushbackRecvSend.recv] at hs
  split at hs
  · cases hs; exact .refl
  · obtain ⟨u, hu, hs⟩ := bind_eq_ok.1 hs
    have hrun : ReflTransGen Loop.Step (loopOf s s.receiver) (loopOf u u.receiver) := by
      rw [(recvPackets_frame hu).2.1]
      have h' : Inv c { s with receiver := s.receiver.drop n }
          (s.receiver.take n ++ s.receiver.drop n) := by
        rw [List.take_append_drop]; exact { h with }
      have hrun := h'.recvPackets_loop ht hu
      rwa [List.take_append_drop] at hrun
    have htu : 1 ≤ u.ticks := ht.trans (recvPackets_clock hu).2
    split at hs <;> cases hs
    · exact hrun.trans (loop_idle htu (Nat.le_succ _) rfl rfl rfl rfl)
    · exact hrun

/-! ### Local tasks and whole runs -/

/-- A task step opens and closes nothing: the get a waiting task sends is not an operation of
the loop. -/
theorem Inv.executeTask_loop {r : TaskRun} (h : Inv c s rx) :
    loopOf (PushbackRecvSend.executeTask c r s) rx = loopOf s rx := by
  cases hw : s.waiting with
  | nil => rw [executeTask_nil hw]
  | cons m rest =>
    have hn : s.native = false := by
      cases hn : s.native
      · rfl
      · simp [(h.managerEmpty hn).2] at hw
    cases hr : r.state with
    | yielded => rw [executeTask_yielded hw hr]; rfl
    | waiting =>
      rw [executeTask_waiting hw hr]
      simp [loopOf, flight_wire_snoc, logicalStamps_cons, Request.tag, Kind.logical, hn]
    | completed =>
      obtain ⟨_, _, _, _, he⟩ := @executeTask_completed c s r m rest hw hr
      rw [he]; rfl

/-- A move of the client is a run of the loop. -/
theorem Step.loop (h1 : 1 ≤ c.numOps) (hr : Reachable c s) (hs : Step c s s') :
    ReflTransGen Loop.Step (loopOf s s.receiver) (loopOf s' s'.receiver) := by
  have hI := Inv.reachable h1 hr
  have ht := hr.stopStamp.ticks
  cases hs with
  | serve q p hq hp =>
    show ReflTransGen Loop.Step _ (loopOf (s.serve q p) (s.receiver ++ [p]))
    rw [loopOf_serve hq hp]
  | execute env he =>
    obtain ⟨u, hu, he⟩ := bind_eq_ok.1 he
    obtain ⟨v, hv, he⟩ := bind_eq_ok.1 he
    cases he
    have hIu : Inv c u u.receiver := (send_frame hu).2 ▸ hI.send h1 hu
    have hsend : ReflTransGen Loop.Step (loopOf s s.receiver) (loopOf u u.receiver) :=
      (send_frame hu).2 ▸ hI.send_loop h1 ht hu
    rw [executeTask_frame.2.1, (hIu.recv hv).executeTask_loop]
    exact hsend.trans (hIu.recv_loop (ht.trans (send_clock hu).2) hv)

section Run

variable {resps reqs : ℕ} {master : Bool} {config : ClientConfig} {clock : Tsc}
  {rng : ℕ → UInt32} {keyRng tenantRng : Zipf}

/-- **The client is the closed loop**: every run of the client from `new`, in both modes and
whatever the server answers and the scheduler polls, read through `loopOf`, is a run of the
loop from the clock's first reading with nothing open. So every state of the client is safe as
the loop is. -/
theorem client_refines_loop (h1 : 1 ≤ c.numOps)
    (hs : ReflTransGen (Step c) (new resps master config reqs clock rng keyRng tenantRng) s) :
    ReflTransGen Loop.Step ⟨clock.read 0, 0, 0, 0⟩ (loopOf s s.receiver) ∧
      Loop.Safe (loopOf s s.receiver) := by
  have hrun : ReflTransGen Loop.Step ⟨clock.read 0, 0, 0, 0⟩ (loopOf s s.receiver) := by
    induction hs with
    | refl => exact .refl
    | tail hsb hst ih => exact ih.trans (hst.loop h1 ((Reachable.new ..).refl_trans hsb))
  exact ⟨hrun, Loop.Safe.steps ⟨rfl, Nat.zero_le _, Multiset.nodup_zero,
    fun _ h => absurd h (Multiset.not_mem_zero _)⟩ hrun⟩

/-- The loop after `okRun`: 32 operations opened, one closed. -/
theorem client_refines_loop_sample :
    ReflTransGen Loop.Step ⟨Tsc.succ.read 0, 0, 0, 0⟩ (loopOf okStopped okStopped.receiver) ∧
      Loop.Safe (loopOf okStopped okStopped.receiver) :=
  client_refines_loop le_rfl okStopped_steps

end Run

end PushbackRecvSend

end Kayak
