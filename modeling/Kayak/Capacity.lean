import Kayak.Recovery

/-!
# How many responses a core can count

`send` starts only below the budget, `requests`, but once started it fills the window to 32.
So a core sends at most `requests + 31` requests (`sent_le_requests_add`). With a budget of 32
or less it sends exactly one window: the first `send` fills the window from nothing, and no
later one starts.

## What is proved

* `sent_le_maxSent`: in every state of every run, `sent ≤ maxSent requests`.
* `Full.single`: with the window full on the wire, the server answering the oldest invoke, an
  `execute` polling it and the next `execute` refilling the window count one response and
  send one request.
* **`target_reachable_iff`**: in invoke mode, with keys of at least four bytes, no run sends
  more than `maxSent requests`, and a core can reach a response target exactly when it is at
  most `maxSent requests`: beyond it no run
  sets `finished`, and up to it some run does. The largest target, `requests + 31` for a
  budget of at least 33, is reached by answering invokes one at a time until `requests - 1`
  have been sent, then letting the window drain, so that the last `send` starts one request
  below the budget with the whole window free. Rounds of a full window (`reaches_target`)
  reach only the budget rounded up to a multiple of 32.
* **`recvd_overshoot`**: in every state of every run, in both modes,
  `recvd ≤ responses + 31`. The poll that reaches the target is handled whole, and it counts
  at most the 32 requests outstanding. No later `recv` counts anything.
* **`recvd_overshoot_reached`**: the bound is reached in invoke mode. With a positive target
  and a budget of at least `responses + 31`, some run counts one invoke at a time up to one
  short of the target, then a whole window in one poll.
-/

namespace Kayak

open Relation

/-- The most requests a core with budget `requests` sends: none without a budget, one window
when the budget fits in it, and otherwise up to 31 past the budget, when the last `send`
starts one request below it with the whole window free. -/
def maxSent (requests : ℕ) : ℕ :=
  if requests = 0 then 0 else if requests ≤ 32 then 32 else requests + 31

namespace PushbackRecvSend

variable {c : Consts} {s s' : PushbackRecvSend}

/-! ### No run sends more than `maxSent requests` -/

/-- What `send` allows of the count of requests sent: nothing or at least a window, and at most
`maxSent`. -/
structure SentCap (s : PushbackRecvSend) : Prop where
  window : s.sent = 0 ∨ 32 ≤ s.sent
  cap : s.sent ≤ maxSent s.requests

/-- A move keeps `SentCap`: a `send` that starts from nothing outstanding sends a whole
window, and one that starts below a budget of at most 32 starts from nothing sent. -/
theorem SentCap.step (h1 : 1 ≤ c.numOps) (hr : Reachable c s) (hc : SentCap s)
    (h : Step c s s') : SentCap s' := by
  have hreq : s'.requests = s.requests := requests_of_steps (.single h)
  cases h with
  | serve q p _ _ => exact ⟨hc.window, hc.cap⟩
  | execute env he =>
    obtain ⟨u, hu, hbu⟩ := execute_buffers he
    have hs' : s'.sent = u.sent := sent_of_buffers hbu
    have hacct := (Inv.reachable h1 hr).acct
    have hw := hc.window
    have hcap := hc.cap
    rcases send_fills_window hu with ⟨-, rfl⟩ | ⟨hlt, hsu, -⟩
    · exact ⟨by rw [hs']; exact hw, by rw [hs', hreq]; exact hcap⟩
    · refine ⟨by omega, ?_⟩
      rw [hs', hreq]
      unfold maxSent at hcap ⊢
      split_ifs at hcap ⊢ <;> omega

theorem sent_le_maxSent (h1 : 1 ≤ c.numOps) (hs : Reachable c s) :
    s.sent ≤ maxSent s.requests := by
  have hc : SentCap s := by
    induction hs with
    | new => exact ⟨.inl rfl, Nat.zero_le _⟩
    | step hr hst ih => exact ih.step h1 hr hst
  exact hc.cap

/-- A core that has set `finished` has counted its target. -/
theorem Reachable.counted (hs : Reachable c s) (hf : s.finished = true) :
    s.responses ≤ s.recvd := by
  induction hs with
  | new => exact absurd hf (by simp [PushbackRecvSend.new])
  | step _ hst ih => exact Cluster.finished_step hst ih hf

/-! ### One invoke at a time -/

/-- **One invoke at a time**: with the window full on the wire, the server answers the oldest
invoke with `Ok`, an `execute` polls it, and the next `execute` sends one invoke in its place:
one more counted, one more sent, the window full again. -/
theorem Full.single (h1 : 1 ≤ c.numOps) (hs : Reachable c s) (hf : Full s)
    (hr : s.recvd + 1 < s.responses) (hb : s.sent < s.requests) :
    ∃ s', ReflTransGen (Step c) s s' ∧ Full s' ∧ s'.recvd = s.recvd + 1 ∧
      s'.sent = s.sent + 1 := by
  have hacct := (Inv.reachable h1 hs).acct
  have hfull := hf.full
  obtain ⟨q, rest, hwire⟩ := List.exists_cons_of_length_pos
    (show 0 < s.wire.length by rw [hf.length]; omega)
  have hq : q ∈ s.wire := hwire ▸ List.mem_cons_self q rest
  have hlen : rest.length = 31 := by simpa [hwire] using hf.length
  -- the server answers the oldest invoke
  have hsrv : Step c s (s.serve q q.success) := .serve q q.success hq (answers_success q)
  have hv := hs.step hsrv
  have hvw : (s.serve q q.success).wire = rest := by simp [serve, hwire]
  -- an `execute` polls the answer
  obtain ⟨w, hw, hrw, hww, hwirew, hrxw, hsetw, hbufw⟩ :=
    (Inv.reachable h1 hv).recv_oks hf.invoke
      (show (s.serve q q.success).receiver = [q].map Request.success by simp [serve, hf.receiver])
      (by simpa using hf.wire q hq) (by simp [serve, hf.full]) (by simp [serve]; omega)
  have hex1 : Step c (s.serve q q.success) w :=
    .execute _ (execute_recv (by simp [serve, hf.full]) hw (hww.trans hf.waiting))
  have hw' := hv.step hex1
  simp only [setup, Prod.mk.injEq] at hsetw
  have hsw : w.sent = s.sent := sent_of_buffers hbufw
  have hacctw := (Inv.reachable h1 hw').acct
  -- the next `execute` sends one invoke in its place
  obtain ⟨x, hx, hlx⟩ := (hf.long.of_buffers hbufw).send
  obtain ⟨hwx, hrx, qs, hqs, hks⟩ := send_invoke_wire (hsetw.1.trans hf.invoke) hx
  rcases send_fills_window hx with ⟨hle, -⟩ | ⟨-, hsx, hox, -, qs', hqs', hlenq⟩
  · simp only [serve] at hsetw hrw; omega
  obtain rfl : qs' = qs := List.append_cancel_left (hqs'.symm.trans hqs)
  obtain ⟨hsetx, hrxx⟩ := send_frame hx
  simp only [setup, Prod.mk.injEq] at hsetx
  simp only [serve, List.length_singleton] at hsetw hrw
  have hex2 : Step c w x := .execute ⟨0, idleTask⟩
    (execute_send hx (by omega) (hwx.trans (hww.trans hf.waiting)))
  refine ⟨x, ((ReflTransGen.single hsrv).tail hex1).tail hex2, ⟨hsetx.1.trans
    (hsetw.1.trans hf.invoke), hrxx.trans hrxw, hwx.trans (hww.trans hf.waiting), ?_, ?_, ?_,
    hlx⟩, by rw [hrx, hrw], by omega⟩
  · rw [hqs, hwirew, hvw]
    intro q' hq'
    rcases List.mem_append.1 hq' with hq' | hq'
    · exact hf.wire q' (hwire ▸ List.mem_cons_of_mem q hq')
    · exact hks q' hq'
  · rw [hox, show w.outstanding = 31 by omega]; rfl
  · rw [hqs, List.length_append, hwirew, hvw, hlenq]; omega

/-- `m` invokes one at a time. -/
theorem Full.singles (h1 : 1 ≤ c.numOps) (m : ℕ) (hs : Reachable c s) (hf : Full s)
    (hr : s.recvd + m < s.responses) (hb : s.sent + m ≤ s.requests) :
    ∃ s', ReflTransGen (Step c) s s' ∧ Full s' ∧ s'.recvd = s.recvd + m ∧
      s'.sent = s.sent + m := by
  induction m generalizing s with
  | zero => exact ⟨s, .refl, hf, rfl, rfl⟩
  | succ m ih =>
    obtain ⟨u, hu, hfu, hru, hsu⟩ := hf.single h1 hs (by omega) (by omega)
    obtain ⟨s', hs', hf', hr', hse'⟩ := ih (hs.refl_trans hu) hfu
      (by rw [responses_of_steps hu]; omega) (by rw [requests_of_steps hu]; omega)
    exact ⟨s', hu.trans hs', hf', by omega, by omega⟩

/-! ### The count past the target -/

/-- One `recv` counts nothing once the target is reached, and before it at most the requests
outstanding: each response it counts retires one of them. -/
theorem Inv.recv_recvd {n : ℕ} (h : Inv c s s.receiver)
    (hs : PushbackRecvSend.recv c n s = .ok s') :
    s'.recvd = s.recvd ∨ s.recvd < s.responses ∧ s'.recvd ≤ s.recvd + s.outstanding := by
  rw [PushbackRecvSend.recv] at hs
  split at hs
  · cases hs; exact .inl rfl
  · obtain ⟨u, hu, hs⟩ := bind_eq_ok.1 hs
    have hIu : Inv c u (s.receiver.drop n) :=
      Inv.recvPackets (by rw [List.take_append_drop]; exact { h with }) hu
    have hsent : u.sent = s.sent := sent_of_buffers (recvPackets_frame hu).2.2
    have hr : s'.recvd = u.recvd := by split at hs <;> cases hs <;> rfl
    have := hIu.acct
    have := h.acct
    exact .inr ⟨by omega, by omega⟩

/-- A move counts nothing once the target is reached, and before it at most a window. -/
theorem Step.recvd_le (h1 : 1 ≤ c.numOps) (hr : Reachable c s) (h : Step c s s') :
    s'.recvd = s.recvd ∨ s.recvd < s.responses ∧ s'.recvd ≤ s.recvd + 32 := by
  cases h with
  | serve q p _ _ => exact .inl rfl
  | execute env he =>
    obtain ⟨u, hu, he⟩ := bind_eq_ok.1 he
    obtain ⟨v, hv, he⟩ := bind_eq_ok.1 he
    cases he
    have hIu : Inv c u u.receiver := (send_frame hu).2 ▸ (Inv.reachable h1 hr).send h1 hu
    have hru := (send_tally hu).1
    have hres : u.responses = s.responses := congrArg (fun x => x.2.2.2.1) (send_frame hu).1
    have hw := hIu.window
    rw [executeTask_frame.2.2.2.2.1]
    rcases hIu.recv_recvd hv with hv' | ⟨hlt, hle⟩
    · exact .inl (hv'.trans hru)
    · exact .inr ⟨by omega, by omega⟩

/-- **The count overshoots the target by at most 31**: in every state of every run, in both
modes, `recvd ≤ responses + 31`. The `recv` that reaches the target handles its whole poll,
which counts at most the 32 requests outstanding, and no later `recv` counts anything. So the
throughput `drop` prints counts at most 31 responses past the target. -/
theorem recvd_overshoot (h1 : 1 ≤ c.numOps) (hs : Reachable c s) :
    s.recvd ≤ s.responses + 31 := by
  induction hs with
  | new => exact Nat.zero_le _
  | step hr hst ih =>
    have hres := responses_of_steps (.single hst)
    rcases hst.recvd_le h1 hr with h | ⟨hlt, hle⟩ <;> omega

/-- The count after `okRun`: one response of a target of one. -/
theorem recvd_overshoot_sample : 1 ≤ (Consts.shipped false).numOps ∧
    Reachable (Consts.shipped false) okStopped ∧
    okStopped.recvd ≤ okStopped.responses + 31 :=
  have hr := (Reachable.new ..).refl_trans okStopped_steps
  ⟨le_rfl, hr, recvd_overshoot le_rfl hr⟩

section Run

variable {resps reqs : ℕ} {master : Bool} {config : ClientConfig} {clock : Tsc}
  {rng : ℕ → UInt32} {keyRng tenantRng : Zipf}

/-- No run reaches a target beyond `maxSent requests`: a core that sets `finished` has counted
its target, and counts at most what it sent. -/
theorem le_maxSent_of_finished (h1 : 1 ≤ c.numOps) {u s : PushbackRecvSend}
    (hu : ReflTransGen (Step c) (new resps master config reqs clock rng keyRng tenantRng) u)
    (he : execute c ⟨0, idleTask⟩ u = .ok s) (hf : s.finished = true) :
    resps ≤ maxSent reqs := by
  have hus := hu.tail (.execute _ he)
  have hs := (Reachable.new ..).refl_trans hus
  have hacct := (Inv.reachable h1 hs).acct
  have hc : resps ≤ s.recvd := by
    have := hs.counted hf; rwa [responses_of_steps hus] at this
  have hsent : s.sent ≤ maxSent reqs := by
    have := sent_le_maxSent h1 hs; rwa [requests_of_steps hus] at this
  omega

/-- In invoke mode every target up to `maxSent requests` is reached. Up to the budget rounded
up to a multiple of 32, rounds of a full window reach it; beyond, invokes are answered one at a
time until `requests - 1` have been sent, the window drains, and the last round starts one
request below the budget. -/
theorem reaches_maxSent (h1 : 1 ≤ c.numOps) (hk : 4 ≤ config.keyLen)
    (hi : config.useInvoke = true) (hr : resps ≤ maxSent reqs) :
    ∃ u s, ReflTransGen (Step c) (new resps master config reqs clock rng keyRng tenantRng) u ∧
      execute c ⟨0, idleTask⟩ u = .ok s ∧ s.finished = true := by
  by_cases hround : resps ≤ 32 * ((reqs + 31) / 32)
  · obtain ⟨u, s, hu, hs⟩ := reaches_of_round Quiet (fun hs hq => hq.round h1 hs)
      (fun _ hq hr => hq.finish hr) (Quiet.new hk hi) hround
    exact ⟨u, s, StepBy.steps hu, hs⟩
  have h33 : 33 ≤ reqs ∧ reqs < resps ∧ resps ≤ reqs + 31 := by
    unfold maxSent at hr; split_ifs at hr <;> omega
  have hs₀ : Reachable c (new resps master config reqs clock rng keyRng tenantRng) := .new ..
  -- the first window
  obtain ⟨s₁, hs₁, hf₁, hr₁, hse₁⟩ := (Quiet.new hk hi).fill h1 hs₀
    (show 0 < resps by omega) (show 0 < reqs by omega)
  have hrun₁ : ReflTransGen (Step c) _ s₁ := .single (.execute _ hs₁)
  -- one invoke at a time, until `requests - 1` are sent
  obtain ⟨s₂, hs₂, hf₂, hr₂, hse₂⟩ := hf₁.singles h1 (reqs - 33) (hs₀.refl_trans hrun₁)
    (by rw [hr₁, responses_of_steps hrun₁]; show 0 + _ < resps; omega)
    (by rw [hse₁, requests_of_steps hrun₁]; show 0 + 32 + _ ≤ reqs; omega)
  have hrun₂ := hrun₁.trans hs₂
  -- the window drains
  obtain ⟨s₃, hs₃, hq₃, hr₃, hse₃⟩ := hf₂.drain h1 ((Reachable.new ..).refl_trans hrun₂)
    (by rw [responses_of_steps hrun₂, hr₂, hr₁]; show 0 + _ < resps; omega)
  have hrun₃ := hrun₂.trans (StepBy.steps hs₃)
  -- the last round starts one request below the budget
  obtain ⟨s₄, hs₄, hq₄, hr₄, hse₄⟩ := hq₃.round h1 ((Reachable.new ..).refl_trans hrun₃)
    (by rw [responses_of_steps hrun₃, hr₃, hr₂, hr₁]; show 0 + _ + 32 < resps; omega)
    (by rw [requests_of_steps hrun₃, hse₃, hse₂, hse₁]; show 0 + 32 + _ < reqs; omega)
  have hrun₄ := hrun₃.trans (StepBy.steps hs₄)
  obtain ⟨s, he, hf⟩ := hq₄.finish
    (by rw [responses_of_steps hrun₄, hr₄, hr₃, hr₂, hr₁]; show resps ≤ 0 + _ + 32 + 32; omega)
  exact ⟨s₄, s, hrun₄, he, hf⟩

/-- **The targets a core can reach**: in invoke mode, with keys of at least four bytes, some
run leads a core to a state whose next `execute` sets `finished` exactly when its response
target is at most `maxSent requests`: none without a budget, 32 for a budget of at most 32,
and `requests + 31` beyond. -/
theorem target_reachable_iff (h1 : 1 ≤ c.numOps) (hk : 4 ≤ config.keyLen)
    (hi : config.useInvoke = true) :
    (∀ s, ReflTransGen (Step c) (new resps master config reqs clock rng keyRng tenantRng) s →
      s.sent ≤ maxSent reqs) ∧
    ((∃ u s, ReflTransGen (Step c) (new resps master config reqs clock rng keyRng tenantRng) u ∧
      execute c ⟨0, idleTask⟩ u = .ok s ∧ s.finished = true) ↔ resps ≤ maxSent reqs) := by
  refine ⟨fun s hs => ?_,
    ⟨fun ⟨_, _, hu, he, hf⟩ => le_maxSent_of_finished h1 hu he hf, reaches_maxSent h1 hk hi⟩⟩
  have := sent_le_maxSent h1 ((Reachable.new ..).refl_trans hs)
  rwa [requests_of_steps hs] at this

theorem target_reachable_iff_sample :
    (∀ s, ReflTransGen (Step (Consts.shipped false))
      (new 64 true ⟨4, 4, 0, true, 33⟩ 33 Tsc.succ (fun _ => 0) (Zipf.const 1 1 le_rfl)
        (Zipf.const 1 1 le_rfl)) s → s.sent ≤ maxSent 33) ∧
    ((∃ u s, ReflTransGen (Step (Consts.shipped false))
      (new 64 true ⟨4, 4, 0, true, 33⟩ 33 Tsc.succ (fun _ => 0) (Zipf.const 1 1 le_rfl)
        (Zipf.const 1 1 le_rfl)) u ∧
      execute (Consts.shipped false) ⟨0, idleTask⟩ u = .ok s ∧ s.finished = true) ↔
      64 ≤ maxSent 33) :=
  target_reachable_iff le_rfl (by decide) rfl

/-- **The overshoot is reached**: in invoke mode, with keys of at least four bytes, a positive
target and a budget of at least `responses + 31`, some run counts `responses + 31` responses.
The server answers one invoke at a time until the count is one short of the target with the
window full, then answers the whole window, and one poll counts all 32. -/
theorem recvd_overshoot_reached (h1 : 1 ≤ c.numOps) (hk : 4 ≤ config.keyLen)
    (hi : config.useInvoke = true) (hr : 1 ≤ resps) (hb : resps + 31 ≤ reqs) :
    ∃ s, ReflTransGen (Step c) (new resps master config reqs clock rng keyRng tenantRng) s ∧
      s.recvd = resps + 31 := by
  have hs₀ : Reachable c (new resps master config reqs clock rng keyRng tenantRng) := .new ..
  obtain ⟨s₁, hs₁, hf₁, hr₁, hse₁⟩ := (Quiet.new hk hi).fill h1 hs₀
    (show 0 < resps by omega) (show 0 < reqs by omega)
  have hrun₁ : ReflTransGen (Step c) _ s₁ := .single (.execute _ hs₁)
  -- one invoke at a time, until the count is one short of the target
  obtain ⟨s₂, hs₂, hf₂, hr₂, -⟩ := hf₁.singles h1 (resps - 1) (hs₀.refl_trans hrun₁)
    (by rw [hr₁, responses_of_steps hrun₁]; show 0 + _ < resps; omega)
    (by rw [hse₁, requests_of_steps hrun₁]; show 0 + 32 + _ ≤ reqs; omega)
  have hrun₂ := hrun₁.trans hs₂
  -- the whole window is answered and counted in one poll
  obtain ⟨s₃, hs₃, -, hr₃, -⟩ := hf₂.drain h1 ((Reachable.new ..).refl_trans hrun₂)
    (by rw [responses_of_steps hrun₂, hr₂, hr₁]; show 0 + _ < resps; omega)
  exact ⟨s₃, hrun₂.trans (StepBy.steps hs₃), by rw [hr₃, hr₂, hr₁]; show 0 + _ + 32 = _; omega⟩

theorem recvd_overshoot_reached_sample : ∃ s, ReflTransGen (Step (Consts.shipped false))
      (new 1 true ⟨4, 4, 0, true, 32⟩ 32 Tsc.succ (fun _ => 0) (Zipf.const 1 1 le_rfl)
        (Zipf.const 1 1 le_rfl)) s ∧ s.recvd = 1 + 31 :=
  recvd_overshoot_reached le_rfl (by decide) rfl le_rfl le_rfl

end Run

end PushbackRecvSend

end Kayak
