import Kayak.Invariant

/-!
# The window

**`window`**: in every state of every run, in invoke and in native mode,
`recvd + outstanding = sent`, `outstanding ≤ 32`, `outstanding` is the number of logical
requests in flight (invokes, or native operations, whose last response has not been
handled), and no call of `execute` panics on an underflow; in particular the
`outstanding -= 1` of `recv` never runs at zero.

The second half rests on a classification of the panics a run can end in
(`Panic.possible`): a key or payload buffer too short for its slice in either mode, and in
native mode only an empty response payload, the overflow of `mul`, and the `u8` step
counter when `NUM_OPS` exceeds 255. None is an underflow and none is the `unwrap` of a
missing step counter.
-/

namespace Kayak

/-- The panics a call of `execute` can raise in a run, by mode. -/
def Panic.possible (c : Consts) (native : Bool) : Panic → Prop
  | .sliceOutOfRange => True
  | .indexOutOfBounds => native = true
  | .mulOverflow => native = true
  | .addOverflow => native = true ∧ 255 < c.numOps
  | .subOverflow => False
  | .unwrapNone => False

namespace PushbackRecvSend

variable {c : Consts} {s s' : PushbackRecvSend} {rx : List Packet} {e : Panic}

/-! ### Send -/

theorem sendLoop_eq_error {fuel : ℕ} (h : sendLoop fuel s = .error e) : e = .sliceOutOfRange := by
  induction fuel generalizing s with
  | zero => cases h
  | succ fuel ih =>
    rw [sendLoop] at h
    split at h
    · rcases bind_eq_error.1 h with h | ⟨u, -, h⟩
      · exact sendOne_eq_error h
      · exact ih h
    · cases h

theorem send_eq_error (h : s.send = .error e) : e = .sliceOutOfRange := by
  rw [send] at h
  split at h
  · cases h
  · exact sendLoop_eq_error h

/-! ### Receive -/

/-- In invoke mode the handling of a response in flight returns: its stamp is in the past, and
a response to an invoke finds `outstanding` at least one. -/
theorem Inv.handlePacket_invoke {p : Packet} (h : Inv c s (p :: rx)) (hn : s.native = false) :
    ∃ s', PushbackRecvSend.handlePacket c s p = .ok s' := by
  cases p with
  | invoke t st r =>
    have hp : Packet.tag (.invoke t st r) = some (.invoke, t) := rfl
    have hlt := h.fresh t (mem_stamps_cons s.wire hp rx)
    have ho := h.one_le_outstanding hn
    cases st with
    | statusOk => exact ⟨_, handlePacket_statusOk hn hlt.le ho r⟩
    | statusPushback =>
      exact ⟨_, handlePacket_pushback hn (hlt.trans (Tsc.read_lt_succ _ _)).le ho r⟩
    | other k => exact ⟨_, handlePacket_invokeOther hn k r⟩
  | get t tenant pl =>
    have hp : Packet.tag (.get t tenant pl) = some (.get, t) := rfl
    exact ⟨_, handlePacket_get hn (h.fresh t (mem_stamps_cons s.wire hp rx)).le tenant pl⟩
  | put t => exact (h.put_free hn).elim
  | other => exact ⟨_, handlePacket_other hn⟩

/-- In invoke mode the handling of a response in flight returns; in native mode it panics
only as `Panic.possible` says. -/
theorem Inv.handlePacket_eq_error {p : Packet} (h : Inv c s (p :: rx))
    (he : PushbackRecvSend.handlePacket c s p = .error e) : e.possible c s.native := by
  have hr := h.reply p (List.mem_cons_self _ _)
  cases hn : s.native
  · obtain ⟨s', hs'⟩ := h.handlePacket_invoke hn
    cases he.symm.trans hs'
  · cases p with
    | get t tenant pl =>
      have hp : Packet.tag (.get t tenant pl) = some (.get, t) := rfl
      obtain ⟨n, hl⟩ := Option.isSome_iff_exists.1
        (AList.lookup_isSome.2 ((h.nativeIff hn t).2 (mem_stamps_cons s.wire hp rx)))
      obtain ⟨-, hle, -⟩ := h.steps hn t n hl
      by_cases hne : n = c.numOps
      · subst hne
        have ho : 1 ≤ s.outstanding := by rw [h.count_cons hp]; simp [Kind.logical, hn]
        rw [handlePacket_done hn hl (h.fresh t (mem_stamps_cons s.wire hp rx)).le ho] at he
        rcases bind_eq_error.1 he with he | ⟨m, -, he⟩
        · rcases bind_eq_error.1 he with he | ⟨i, -, he⟩
          · rw [index_eq_error he]; rfl
          · rw [mul_eq] at he; rw [foldlM_mulU64_eq_error he]; rfl
        · cases he
      · rcases handlePacket_step_error hn hl hne he with rfl | ⟨rfl, h8⟩
        · trivial
        · exact ⟨rfl, by omega⟩
    | invoke t st r => cases h.get_of_native hn rfl
    | put t => cases h.get_of_native hn rfl
    | other => exact hr.elim

theorem Inv.recvPackets_eq_error {b : List Packet} (h : Inv c s (b ++ rx))
    (he : PushbackRecvSend.recvPackets c b s = .error e) : e.possible c s.native := by
  induction b generalizing rx with
  | nil => cases he
  | cons p ps ih =>
    rcases bind_eq_error.1 he with he | ⟨u, hu, he⟩
    · exact ih (h.perm List.perm_middle.symm) he
    · have hn : u.native = s.native := congrArg Prod.fst (recvPackets_frame hu).1
      exact hn ▸ ((h.perm List.perm_middle.symm).recvPackets hu).handlePacket_eq_error he

theorem Inv.recv_eq_error {n : ℕ} (h : Inv c s s.receiver)
    (he : PushbackRecvSend.recv c n s = .error e) :
    e.possible c s.native := by
  rw [PushbackRecvSend.recv] at he
  split at he
  · cases he
  · rcases bind_eq_error.1 he with he | ⟨u, -, he⟩
    · have h' : Inv c { s with receiver := s.receiver.drop n }
          (s.receiver.take n ++ s.receiver.drop n) := by
        rw [List.take_append_drop]; exact { h with }
      exact h'.recvPackets_eq_error he
    · split at he <;> cases he

/-- The panics of one call of `execute` from a state of a run. -/
theorem Inv.execute_eq_error {env : Env} (h : Inv c s s.receiver) (h1 : 1 ≤ c.numOps)
    (he : PushbackRecvSend.execute c env s = .error e) : e.possible c s.native := by
  rcases bind_eq_error.1 he with he | ⟨u, hu, he⟩
  · rw [send_eq_error he]; trivial
  · rcases bind_eq_error.1 he with he | ⟨v, -, he⟩
    · have hn : u.native = s.native := congrArg Prod.fst (send_frame hu).1
      exact hn ▸ ((send_frame hu).2 ▸ h.send h1 hu).recv_eq_error he
    · cases he

/-! ### The window -/

/-- **Window accounting**: in every state of every run, `recvd + outstanding = sent`, the
window holds at most 32 requests, `outstanding` counts the logical requests in flight, and
no call of `execute` panics on an underflow. -/
theorem window (h1 : 1 ≤ c.numOps) (hs : Reachable c s) :
    s.recvd + s.outstanding = s.sent ∧ s.outstanding ≤ 32 ∧
      s.outstanding = (flight s.wire s.receiver).countP (fun x => x.1.logical s.native) ∧
      ∀ env, execute c env s ≠ .error .subOverflow := by
  have h := Inv.reachable h1 hs
  exact ⟨h.acct, h.window, h.count, fun env he => h.execute_eq_error h1 he⟩

/-- The window after `okRun`: 32 invokes sent, one answered and counted. -/
theorem window_sample : 1 ≤ (Consts.shipped false).numOps ∧
    Reachable (Consts.shipped false) okStopped ∧
    (okStopped.recvd + okStopped.outstanding = okStopped.sent ∧ okStopped.outstanding ≤ 32 ∧
      okStopped.outstanding = (flight okStopped.wire okStopped.receiver).countP
        (fun x => x.1.logical okStopped.native) ∧
      ∀ env, execute (Consts.shipped false) env okStopped ≠ .error .subOverflow) :=
  have hr := (Reachable.new ..).refl_trans okStopped_steps
  ⟨le_rfl, hr, window le_rfl hr⟩

end PushbackRecvSend

end Kayak
