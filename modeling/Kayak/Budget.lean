import Kayak.Encoding

/-!
# The request budget of `send`

`setup_send_recv` gives each client a budget of `num_reqs` requests, kept in `requests`.
`send` tests the budget once, on entry (`if self.requests <= self.sent { return; }`), and
then refills the window: `while self.outstanding < 32` it sends one request and counts it
in `sent`. The loop does not look at the budget again.

**`send_fills_window`**: a call of `send` that returns either finds the budget spent and
changes nothing, or puts exactly `32 - outstanding` new requests on the wire, raising `sent`
by that number and `outstanding` to 32, however little of the budget is left.
**`Long.send`**: on buffers long enough for its copies, which every run from `new` with
`key_len ≥ 4` has, `send` does return.

So the budget is overshot. **`sent_le_requests_add`**: in every reachable state
`sent ≤ requests + 31`, and no better: **`sent_exceeds_requests`** runs the shipped client
with `num_reqs = 1`, whose first `execute` sends 32 requests.
-/

namespace Kayak.PushbackRecvSend

open Relation

variable {c : Consts} {s s' u : PushbackRecvSend} {fuel : ℕ}

/-! ### What one call of `send` does -/

/-- One iteration of the loop sends one request and counts it. -/
theorem sendOne_count (h : s.sendOne = .ok s') :
    s'.sent = s.sent + 1 ∧ s'.outstanding = s.outstanding + 1 ∧ s'.requests = s.requests ∧
      ∃ q, s'.wire = s.wire ++ [q] := by
  cases hn : s.native
  · obtain ⟨_, _, _, _, rfl⟩ := sendOne_invoke hn h; exact ⟨rfl, rfl, rfl, _, rfl⟩
  · obtain ⟨-, rfl⟩ := sendOne_native hn h; exact ⟨rfl, rfl, rfl, _, rfl⟩

/-- The loop, given fuel for `32 - outstanding` iterations, runs until the window is full. -/
theorem sendLoop_fills (h : sendLoop fuel s = .ok s') (hf : 32 - s.outstanding ≤ fuel) :
    s'.sent = s.sent + (32 - s.outstanding) ∧ s'.outstanding = max s.outstanding 32 ∧
      s'.requests = s.requests ∧
      ∃ qs : List Request, s'.wire = s.wire ++ qs ∧ qs.length = 32 - s.outstanding := by
  induction fuel generalizing s with
  | zero => cases h; exact ⟨by omega, by omega, rfl, [], by simp, by simp; omega⟩
  | succ fuel ih =>
    rw [sendLoop] at h
    split at h
    · obtain ⟨u, hu, h⟩ := bind_eq_ok.1 h
      obtain ⟨hs, ho, hr, q, hw⟩ := sendOne_count hu
      obtain ⟨hs', ho', hr', qs, hw', hl⟩ := ih h (by omega)
      exact ⟨by omega, by omega, hr'.trans hr, q :: qs, by simp [hw', hw], by simp; omega⟩
    · cases h; exact ⟨by omega, by omega, rfl, [], by simp, by simp; omega⟩

/-- What `send` does when it returns: nothing once the budget is spent, and otherwise fill the
window to 32 requests, whatever is left of the budget. -/
theorem send_fills_window (h : s.send = .ok s') :
    s.requests ≤ s.sent ∧ s' = s ∨
    s.sent < s.requests ∧ s'.sent = s.sent + (32 - s.outstanding) ∧
      s'.outstanding = max s.outstanding 32 ∧ s'.requests = s.requests ∧
      ∃ qs : List Request, s'.wire = s.wire ++ qs ∧ qs.length = 32 - s.outstanding := by
  rw [send] at h
  split at h
  · cases h; exact .inl ⟨‹_›, rfl⟩
  · exact .inr ⟨by omega, sendLoop_fills h (by omega)⟩

/-! ### `send` returns -/

/-- The buffers are long enough for every copy `abc` and `send` make. -/
def Long (s : PushbackRecvSend) : Prop :=
  4 ≤ s.workload.keyBuf.length ∧ 16 + 4 ≤ s.payloadGet.length ∧ 18 + 4 ≤ s.payloadPut.length

theorem Long.of_buffers (hl : Long s) (h : s'.buffers = s.buffers) : Long s' := by
  simp only [buffers, Prod.mk.injEq] at h
  obtain ⟨hw, hg, hp, -⟩ := h
  simpa only [Long, hw, hg, hp] using hl

theorem length_key {w : Pushback} (h : 4 ≤ w.keyBuf.length) : w.key.length = w.keyBuf.length := by
  simp [Pushback.key]; omega

/-- One iteration of the loop, with the clock read. -/
theorem sendOne_eq : s.sendOne = (if s.native
    then sendNative { s with ticks := s.ticks + 1 } (s.clock.read s.ticks)
    else sendInvoke { s with ticks := s.ticks + 1 } (s.clock.read s.ticks)) >>=
      fun u => pure { u with sent := u.sent + 1 } := by
  simp only [PushbackRecvSend.sendOne, rdtsc_eq]
  split <;> rfl

/-- On long buffers an iteration of the loop returns, and leaves the buffers long. -/
theorem Long.sendOne (hl : Long s) : ∃ s', s.sendOne = .ok s' ∧ Long s' := by
  obtain ⟨h4, hg, hp⟩ := hl
  have hk := length_key h4
  cases hn : s.native
  · rw [sendOne_eq, if_neg (by simp [hn]),
      @sendInvoke_eq { s with ticks := s.ticks + 1 } _ h4 hg hp, ok_bind]
    refine ⟨_, rfl, ?_⟩
    cases s.workload.isGet <;> simp [Long, Pushback.next, hk] <;> omega
  · rw [sendOne_eq, if_pos hn, sendNative, Pushback.abc_eq _ h4]
    exact ⟨_, rfl, by simp [Long, Pushback.next, hk, h4, hg, hp, transmit]⟩

theorem Long.sendLoop (hl : Long s) : ∃ s', sendLoop fuel s = .ok s' ∧ Long s' := by
  induction fuel generalizing s with
  | zero => exact ⟨s, rfl, hl⟩
  | succ fuel ih =>
    rw [PushbackRecvSend.sendLoop]
    split
    · obtain ⟨u, hu, hl'⟩ := hl.sendOne
      obtain ⟨s', h, hl''⟩ := ih hl'
      exact ⟨s', by rw [hu]; exact h, hl''⟩
    · exact ⟨s, rfl, hl⟩

theorem Long.send (hl : Long s) : ∃ s', s.send = .ok s' ∧ Long s' := by
  rw [PushbackRecvSend.send]
  split
  · exact ⟨s, rfl, hl⟩
  · exact hl.sendLoop

theorem Long.step (hl : Long s) (h : Step c s s') : Long s' := by
  cases h with
  | serve q p _ _ => exact hl.of_buffers rfl
  | execute env he =>
    obtain ⟨u, hu, hbu⟩ := execute_buffers he
    obtain ⟨u', hu', hlu⟩ := hl.send
    cases hu.symm.trans hu'
    exact hlu.of_buffers hbu

theorem Long.new {resps reqs : ℕ} {master : Bool} {config : ClientConfig} {clock : Tsc}
    {rng : ℕ → UInt32} {keyRng tenantRng : Zipf} (hk : 4 ≤ config.keyLen) :
    Long (PushbackRecvSend.new resps master config reqs clock rng keyRng tenantRng) := by
  simp only [Long, PushbackRecvSend.new, Pushback.new, payloadGetOf, payloadPutOf,
    List.length_append, length_zeros, length_leBytes]
  exact ⟨hk, by simp; omega, by simp; omega⟩

/-- In every run from `new` with `key_len ≥ 4`, every call of `send` returns. -/
theorem Long.run {resps reqs : ℕ} {master : Bool} {config : ClientConfig} {clock : Tsc}
    {rng : ℕ → UInt32} {keyRng tenantRng : Zipf} (hk : 4 ≤ config.keyLen)
    (hs : ReflTransGen (Step c)
      (PushbackRecvSend.new resps master config reqs clock rng keyRng tenantRng) s) :
    Long s := by
  induction hs with
  | refl => exact Long.new hk
  | tail _ hst ih => exact ih.step hst

/-! ### The budget over a run -/

theorem sent_of_buffers (h : s'.buffers = s.buffers) : s'.sent = s.sent :=
  congrArg (fun b => b.2.2.2) h

/-- One move of the system overshoots the budget by at most 31. -/
theorem Step.sent_le (h : Step c s s') (hb : s.sent ≤ s.requests + 31) :
    s'.sent ≤ s'.requests + 31 := by
  have hr : s'.requests = s.requests := by
    have := Step.setup h
    simp only [PushbackRecvSend.setup, Prod.mk.injEq] at this
    exact this.2.2.2.2.1
  cases h with
  | serve q p _ _ => exact hb
  | execute env he =>
    obtain ⟨u, hu, hbu⟩ := execute_buffers he
    rw [hr, sent_of_buffers hbu]
    rcases send_fills_window hu with ⟨-, rfl⟩ | ⟨hlt, hs, -⟩ <;> omega

theorem sent_le_requests_add (hs : Reachable c s) : s.sent ≤ s.requests + 31 := by
  induction hs with
  | new => exact Nat.zero_le _
  | step _ hst ih => exact hst.sent_le ih

/-- The shipped client with a budget of one request: its first `execute` sends 32. -/
theorem sent_exceeds_requests :
    ¬ ∀ s, Reachable (Consts.shipped false) s → s.sent ≤ s.requests := by
  intro h
  have hrun : (runActions (Consts.shipped false) [.execute ⟨0, ⟨.yielded, 0, []⟩⟩]
      (sample false true 1)).map (fun s => (s.sent, s.requests)) = some (32, 1) := rfl
  obtain ⟨s, hs, hv⟩ := Option.map_eq_some'.1 hrun
  have := h s ((Reachable.new ..).runActions _ hs)
  simp only [Prod.mk.injEq] at hv
  omega

end Kayak.PushbackRecvSend
