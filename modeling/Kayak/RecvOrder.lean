import Kayak.Invariant

/-!
# The order in which `recv` handles a batch

One call of `recv` polls up to `n` responses from the port, in the order the NIC delivered
them, and handles them with `while let Some(packet) = packets.pop()`: the last response of
the batch first; the model's `recvPackets` handles the rest of a batch before its first
response.

What a reader sees of the order is the run queue and the latency log. A `Pushback` response
appends its task to `waiting` and one latency sample to `latencies`. **`Inv.pushback_queued`**
says what one such response does from any state the run invariant holds in, and
**`Inv.recvPackets_pushbacks`**, by induction over the batch, what a batch of them does: the
tasks and the samples land in the reverse of the delivery order.
**`recv_queues_pushbacks_reversed`** lifts this to `recv` from every reachable invoke-mode
state that still expects responses: a batch of `Pushback` responses stamped `t₁, .., tₖ` in
delivery order appends the tasks `tₖ, .., t₁` to the run queue, and samples taken against
`tₖ, .., t₁` to the latency log. With two responses the two orders differ
(`recv_queues_pushbacks_reversed_sample`).
-/

namespace Kayak.PushbackRecvSend

variable {c : Consts} {s : PushbackRecvSend} {rx : List Packet}

/-- The batch of `Pushback` responses to the invokes stamped `r.1`, with read/write sets `r.2`,
in delivery order. -/
def pushbackBatch (rs : List (ℕ × List UInt8)) : List Packet :=
  rs.map fun r => .invoke r.1 .statusPushback r.2

/-- Invoke mode: a `Pushback` response in flight appends its task to the run queue and one
sample, taken at the next clock reading, to the latency log. -/
theorem Inv.pushback_queued {t : ℕ} {r : List UInt8}
    (h : Inv c s (.invoke t .statusPushback r :: rx)) (hn : s.native = false) :
    ∃ s', PushbackRecvSend.handlePacket c s (.invoke t .statusPushback r) = .ok s' ∧
      Inv c s' rx ∧ s'.native = false ∧
      s'.waiting.map TaskManager.id = s.waiting.map TaskManager.id ++ [t] ∧
      s'.latencies = s.latencies ++ [s.clock.read (s.ticks + 1) - t] := by
  have hp : Packet.tag (.invoke t .statusPushback r) = some (.invoke, t) := rfl
  have hlt := h.fresh t (mem_stamps_cons s.wire hp rx)
  obtain ⟨m, hm⟩ := h.lookup_manager hp hn
  have hs : PushbackRecvSend.handlePacket c s (.invoke t .statusPushback r) = _ :=
    handlePacket_pushback hn (hlt.trans (Tsc.read_lt_succ _ _)).le (h.one_le_outstanding hn) r
  refine ⟨_, hs, h.pushback hn hs, hn, ?_, rfl⟩
  simp [hm, h.managerId t m hm]

/-- Invoke mode: a batch of `Pushback` responses appends its tasks to the run queue, and its
samples to the latency log, last response first. -/
theorem Inv.recvPackets_pushbacks {rs : List (ℕ × List UInt8)}
    (h : Inv c s (pushbackBatch rs ++ rx)) (hn : s.native = false) :
    ∃ s', PushbackRecvSend.recvPackets c (pushbackBatch rs) s = .ok s' ∧ Inv c s' rx ∧
      s'.native = false ∧
      s'.waiting.map TaskManager.id = s.waiting.map TaskManager.id ++ (rs.map Prod.fst).reverse ∧
      ∃ nows : List ℕ, nows.length = rs.length ∧
        s'.latencies = s.latencies ++ List.zipWith (· - ·) nows (rs.map Prod.fst).reverse := by
  induction rs generalizing rx with
  | nil => exact ⟨s, rfl, h, hn, by simp, [], rfl, by simp⟩
  | cons r rs ih =>
    obtain ⟨u, hu, hiu, hnu, hwu, nows, hlen, hlu⟩ := ih (h.perm List.perm_middle.symm)
    obtain ⟨s', hs', hi', hn', hw', hl'⟩ := hiu.pushback_queued hnu
    refine ⟨s', ?_, hi', hn', ?_, nows ++ [u.clock.read (u.ticks + 1)], by simp [hlen], ?_⟩
    · show PushbackRecvSend.recvPackets c (pushbackBatch rs) s >>= _ = _
      rw [hu, ok_bind]; exact hs'
    · rw [hw', hwu]; simp
    · rw [hl', hlu, List.map_cons, List.reverse_cons, List.append_assoc,
        List.zipWith_append _ nows _ _ _ (by simp [hlen])]
      rfl

/-- **Receive order**: from a reachable invoke-mode state that still expects responses, `recv`
appends the tasks of a polled batch of `Pushback` responses to the run queue, and their latency
samples to the log, in the reverse of the delivery order. -/
theorem recv_queues_pushbacks_reversed (h1 : 1 ≤ c.numOps) (hs : Reachable c s)
    (hn : s.native = false) (hr : s.recvd < s.responses) {n : ℕ} {rs : List (ℕ × List UInt8)}
    (hb : s.receiver.take n = pushbackBatch rs) :
    ∃ s', recv c n s = .ok s' ∧
      s'.waiting.map TaskManager.id = s.waiting.map TaskManager.id ++ (rs.map Prod.fst).reverse ∧
      ∃ nows : List ℕ, nows.length = rs.length ∧
        s'.latencies = s.latencies ++ List.zipWith (· - ·) nows (rs.map Prod.fst).reverse := by
  have h : Inv c { s with receiver := s.receiver.drop n }
      (pushbackBatch rs ++ s.receiver.drop n) := by
    rw [← hb, List.take_append_drop]; exact { Inv.reachable h1 hs with }
  obtain ⟨u, hu, -, -, hw, nows, hlen, hl⟩ := h.recvPackets_pushbacks hn
  rw [PushbackRecvSend.recv, if_neg (by omega), hb, hu, ok_bind]
  split <;> exact ⟨_, rfl, hw, nows, hlen, hl⟩

set_option maxRecDepth 4000 in
/-- The shipped client in invoke mode sends invokes stamped `2, 3, ..`; the server pushes back
the first two, delivered in that order; one `recv` of both queues the task stamped 3 ahead of
the task stamped 2. -/
theorem recv_queues_pushbacks_reversed_sample :
    ∃ s, Reachable (Consts.shipped true) s ∧ ∃ s', recv (Consts.shipped true) 2 s = .ok s' ∧
      s'.waiting.map TaskManager.id = [3, 2] := by
  have hrun : (runActions (Consts.shipped true) [.execute ⟨0, ⟨.yielded, 0, []⟩⟩,
      .serve 0 (.invoke 2 .statusPushback []), .serve 0 (.invoke 3 .statusPushback [])]
      (sample false true 1)).map (fun s => (s.native, decide (s.recvd < s.responses),
        s.receiver, s.waiting.map TaskManager.id)) =
        some (false, true, pushbackBatch [(2, []), (3, [])], []) := rfl
  obtain ⟨s, hs, hv⟩ := Option.map_eq_some'.1 hrun
  simp only [Prod.mk.injEq, decide_eq_true_eq] at hv
  obtain ⟨hn, hr, hrx, hw⟩ := hv
  have hs' := (Reachable.new ..).runActions _ hs
  obtain ⟨s', h', hw', -⟩ := recv_queues_pushbacks_reversed (by decide) hs' hn hr
    (show s.receiver.take 2 = pushbackBatch [(2, []), (3, [])] by rw [hrx]; rfl)
  exact ⟨s, hs', s', h', by rw [hw', hw]; rfl⟩

end Kayak.PushbackRecvSend
