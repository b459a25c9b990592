import Kayak.Tasks

/-!
# The order of the requests sent

The client puts three kinds of request on the wire. `send` opens an operation with a
request stamped with a fresh reading of the clock: an invoke in invoke mode, a get (or, by
`put_pct`, a put) in native mode. In native mode `recv` answers a get that is not the last
step of its operation with the next get, under the operation's stamp. In invoke mode the
WAITING branch of `execute_task` sends a get stamped with the task's id, the stamp of the
invoke that created it.

`SendOrder` says how the log of requests sent grows: each request either opens an operation,
with a stamp later than every stamp sent before it, or is a get that continues an operation
opened earlier, under its stamp. **`send_log_ordered`**: in every state of every run, in both
modes, the log grows this way. So no put is ever sent, whatever `put_pct` is configured
(`new` gives the workload `put_pct = 0`), and in invoke mode the invokes go out in strictly
increasing order of their stamps, so that no two tasks share an id.
-/

namespace Kayak

/-- The kind of request that opens an operation: an invoke, or in native mode its first
get. -/
def openKind (native : Bool) : Kind := if native then .get else .invoke

theorem openKind_ne_put (native : Bool) : openKind native ≠ .put := by
  cases native <;> decide

/-- How the log of requests sent grows. -/
inductive SendOrder (native : Bool) : List Request → Prop where
  | nil : SendOrder native []
  /-- A request that opens an operation, stamped later than everything sent before. -/
  | opens {l : List Request} {q : Request} : SendOrder native l → (∀ p ∈ l, p.stamp < q.stamp) →
      q.kind = openKind native → SendOrder native (l ++ [q])
  /-- A get that continues an operation opened earlier, under its stamp. -/
  | continues {l : List Request} {p q : Request} : SendOrder native l → p ∈ l →
      p.kind = openKind native → q.kind = .get → q.stamp = p.stamp → SendOrder native (l ++ [q])

namespace SendOrder

variable {native : Bool} {l : List Request}

/-- No put is ever sent. -/
theorem kind_ne_put (h : SendOrder native l) : ∀ q ∈ l, q.kind ≠ .put := by
  induction h with
  | nil => simp
  | opens _ _ hk ih =>
    exact List.forall_mem_append.2 ⟨ih, List.forall_mem_singleton.2 (hk ▸ openKind_ne_put _)⟩
  | continues _ _ _ hk _ ih =>
    exact List.forall_mem_append.2 ⟨ih, List.forall_mem_singleton.2 (by rw [hk]; decide)⟩

/-- In invoke mode the invokes go out in strictly increasing order of their stamps. -/
theorem invokes_sorted (h : SendOrder false l) :
    ((l.filter fun q => q.kind = .invoke).map Request.stamp).Sorted (· < ·) := by
  induction h with
  | nil => exact List.sorted_nil
  | @opens l q _ hlt hk ih =>
    have hq : decide (q.kind = .invoke) = true := by rw [hk]; rfl
    rw [List.filter_append, List.filter_singleton, hq, cond_true, List.map_append]
    refine List.pairwise_append.2 ⟨ih, List.pairwise_singleton _ _, fun a ha b hb => ?_⟩
    obtain ⟨p, hp, rfl⟩ := List.mem_map.1 ha
    have hb' : b = q.stamp := by simpa using hb
    exact hb' ▸ hlt p (List.mem_of_mem_filter hp)
  | @continues l _ q _ _ _ hk _ ih =>
    have hq : decide (q.kind = .invoke) = false := by rw [hk]; rfl
    rwa [List.filter_append, List.filter_singleton, hq, cond_false, List.append_nil]

end SendOrder

namespace PushbackRecvSend

variable {c : Consts} {s s' u v : PushbackRecvSend} {rx : List Packet}

/-! ### One operation at a time -/

/-- An iteration of `send`'s loop opens an operation: one request, of the kind of the mode,
stamped with the clock's next reading. -/
theorem Inv.sendOne_opens (h : Inv c s rx) (hs : s.sendOne = .ok s') :
    s'.native = s.native ∧ ∃ q, s'.sender = s.sender ++ [q] ∧
      (∀ p ∈ s.sender, p.stamp < q.stamp) ∧ q.kind = openKind s.native := by
  cases hn : s.native
  · obtain ⟨pg, pp, p, tenant, rfl⟩ := sendOne_invoke hn hs
    exact ⟨hn, _, rfl, h.freshSender, rfl⟩
  · obtain ⟨-, rfl⟩ := sendOne_native hn hs
    refine ⟨hn, _, rfl, fun p hp => ?_, ?_⟩ <;> rw [Pushback.call_of_putPct h.putPct]
    · exact h.freshSender p hp
    · rfl

theorem Inv.send_order (h : Inv c s rx) (h1 : 1 ≤ c.numOps) (hs : s.send = .ok s')
    (ho : SendOrder s.native s.sender) : SendOrder s'.native s'.sender :=
  (send_rel (fun a b => Inv c a rx → SendOrder a.native a.sender →
      Inv c b rx ∧ SendOrder b.native b.sender)
    (fun _ ha hoa => ⟨ha, hoa⟩)
    (fun hab hbd ha hoa => (hab ha hoa).elim hbd)
    (fun hlt hu ha hoa => ⟨ha.sendOne h1 hlt hu, by
      obtain ⟨hn, q, hq, hlt', hk⟩ := ha.sendOne_opens hu
      rw [hn, hq]
      exact hoa.opens hlt' hk⟩) hs h ho).2

/-- Handling a response sends nothing, but in native mode the next get of an operation, under
its stamp: the step counter of the operation counts the gets already sent for it. -/
theorem Inv.handlePacket_order {p : Packet} (h : Inv c s (p :: rx))
    (hs : PushbackRecvSend.handlePacket c s p = .ok s') :
    SendOrder s.native s.sender → SendOrder s'.native s'.sender := by
  have hn' : s'.native = s.native := congrArg Prod.fst (handlePacket_frame hs).1
  rw [hn']
  intro ho
  cases hn : s.native
  · obtain ⟨hse, -⟩ : s'.sender = s.sender ∧ (live s' 0 ↔ _) := h.handlePacket_live hn hs
    rw [hse, ← hn]; exact ho
  · rw [← hn]
    cases p with
    | get t tenant pl =>
      cases hl : s.nativeState.lookup t with
      | none => rw [handlePacket_unwrap hn hl] at hs; cases hs
      | some n =>
        by_cases hne : n = c.numOps
        · obtain ⟨-, l, rfl⟩ := handlePacket_done_ok hn (hne ▸ hl) hs; exact ho
        · obtain ⟨-, val, rfl⟩ := handlePacket_step_ok hn hl hne hs
          obtain ⟨h1, -, hcount⟩ := h.steps hn t n hl
          obtain ⟨q, hq, hq'⟩ := List.countP_pos_iff.1 (hcount ▸ h1)
          simp only [decide_eq_true_eq] at hq'
          exact ho.continues hq (by rw [hq'.1, hn]; rfl) rfl hq'.2.symm
    | _ => rw [handlePacket_native_notGet hn (by simp)] at hs; cases hs; exact ho

theorem Inv.recvPackets_order {b : List Packet} (h : Inv c s (b ++ rx))
    (hs : PushbackRecvSend.recvPackets c b s = .ok s') (ho : SendOrder s.native s.sender) :
    SendOrder s'.native s'.sender := by
  induction b generalizing rx s' with
  | nil => cases hs; exact ho
  | cons p ps ih =>
    obtain ⟨u, hu, hs⟩ := bind_eq_ok.1 hs
    have h' := h.perm List.perm_middle.symm
    exact (h'.recvPackets hu).handlePacket_order hs (ih h' hu)

theorem Inv.recv_order {n : ℕ} (h : Inv c s s.receiver)
    (hs : PushbackRecvSend.recv c n s = .ok s') (ho : SendOrder s.native s.sender) :
    SendOrder s'.native s'.sender := by
  rw [PushbackRecvSend.recv] at hs
  split at hs
  · cases hs; exact ho
  · obtain ⟨u, hu, hs⟩ := bind_eq_ok.1 hs
    have h' : Inv c { s with receiver := s.receiver.drop n }
        (s.receiver.take n ++ s.receiver.drop n) := by
      rw [List.take_append_drop]; exact { h with }
    have hu' := h'.recvPackets_order hu ho
    split at hs <;> cases hs <;> exact hu'

/-- A task step sends a get only for the task at the head of the run queue, under its id; so
it continues an operation when that id is the stamp of an opening request. -/
theorem executeTask_order {r : TaskRun}
    (hc : ∀ m rest, s.waiting = m :: rest → ∃ q ∈ s.sender, q.kind = openKind s.native ∧
      q.stamp = m.id)
    (ho : SendOrder s.native s.sender) :
    SendOrder (executeTask c r s).native (executeTask c r s).sender := by
  cases hw : s.waiting with
  | nil => rw [executeTask_nil hw]; exact ho
  | cons m rest =>
    cases hr : r.state with
    | yielded => rw [executeTask_yielded hw hr]; exact ho
    | waiting =>
      rw [executeTask_waiting hw hr]
      obtain ⟨q, hq, hk, hs⟩ := hc m rest hw
      exact ho.continues hq hk rfl hs.symm
    | completed =>
      obtain ⟨_, _, _, _, he⟩ := @executeTask_completed c s r m rest hw hr
      rw [he]; exact ho

/-! ### Over a run -/

/-- The log of every state of every run grows as `SendOrder` says. -/
theorem Reachable.sendOrder (h1 : 1 ≤ c.numOps) (hs : Reachable c s) :
    SendOrder s.native s.sender := by
  induction hs with
  | new => exact .nil
  | step hr hst ih =>
    rename_i s s'
    cases hst with
    | serve q p _ _ => exact ih
    | execute env he =>
      have hI := Inv.reachable h1 hr
      obtain ⟨u, hu, he⟩ := bind_eq_ok.1 he
      obtain ⟨v, hv, he⟩ := bind_eq_ok.1 he
      cases he
      have hIu : Inv c u u.receiver := (send_frame hu).2 ▸ hI.send h1 hu
      have hvn : v.native = s.native :=
        congrArg Prod.fst ((recv_frame hv).1.trans (send_frame hu).1)
      refine executeTask_order (fun m rest hw => ?_) (hIu.recv_order hv (hI.send_order h1 hu ih))
      cases hn : s.native
      · have hl : live v m.id := .inr (by rw [hw]; exact List.mem_map_of_mem _ (List.mem_cons_self _ _))
        obtain ⟨q, hq, hk, hs⟩ := hI.live_recv h1 hn (Reachable.created h1 hr) hu hv hl
        exact ⟨q, hq, by rw [hvn, hn, hk]; rfl, hs⟩
      · have := ((hIu.recv hv).managerEmpty (hvn.trans hn)).2
        rw [this] at hw; cases hw

/-- **Send order**: in every state of every run, in both modes, each request in the log either
opens an operation, stamped later than every request before it, or is a get continuing an
operation opened earlier, under its stamp; no put is ever sent; and in invoke mode the
invokes' stamps strictly increase. -/
theorem send_log_ordered (h1 : 1 ≤ c.numOps) (hs : Reachable c s) :
    SendOrder s.native s.sender ∧ (∀ q ∈ s.sender, q.kind ≠ .put) ∧
      (s.native = false →
        ((s.sender.filter fun q => q.kind = .invoke).map Request.stamp).Sorted (· < ·)) :=
  have h := hs.sendOrder h1
  ⟨h, h.kind_ne_put, fun hn => (hn ▸ h).invokes_sorted⟩

/-- The send log after `pushbackRun`: 32 invokes, then the get of the pushed-back task. -/
theorem send_log_ordered_sample : 1 ≤ (Consts.shipped true).numOps ∧
    Reachable (Consts.shipped true) tasked ∧
    (SendOrder tasked.native tasked.sender ∧ (∀ q ∈ tasked.sender, q.kind ≠ .put) ∧
      (tasked.native = false →
        ((tasked.sender.filter fun q => q.kind = .invoke).map Request.stamp).Sorted (· < ·))) :=
  ⟨le_rfl, (Reachable.new ..).refl_trans tasked_steps,
    send_log_ordered le_rfl ((Reachable.new ..).refl_trans tasked_steps)⟩

end PushbackRecvSend

end Kayak
