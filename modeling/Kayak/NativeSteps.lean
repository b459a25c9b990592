import Kayak.Tasks

/-!
# Native operations

In native mode (`use_invoke = false`) an operation is a chain of `NUM_OPS` gets under one
stamp. `send` issues the first and gives the stamp a counter of one in `native_state`; each
get response whose counter is below `NUM_OPS` sends the next get and counts it; the
response whose counter is `NUM_OPS` retires the operation.

**`native_steps`**: for every `1 ≤ NUM_OPS ≤ 255` and every state of every run in native
mode, `native_state` has a counter exactly for the operations in flight; a counter lies in
`1..=NUM_OPS`, equals the number of gets sent under its stamp, and exactly one of those is
in flight; no call of `execute` panics at the `unwrap` or on the `u8` counter; and handling
a get response retires its operation, with one increment of `recvd`, one decrement of
`outstanding` and one latency sample, exactly when `NUM_OPS` gets have been sent under its
stamp, that is when it is the `NUM_OPS`-th response, and otherwise sends the next get.

**Puts.** `PushbackRecvSend::new` passes `put_pct = 0` to `Pushback::new` (the configured
value is commented out), so no run issues a native put. **`native_drained`**: every
operation drawn is a get, only gets are in flight, and a run whose responses are all handled
has `outstanding = 0`, an empty `native_state` and `recvd = sent`.

**The last step's latency.** The response that retires an operation records
`rdtsc() - stamp - mul(init, NUM_MUL)`, `init` the first byte of its payload, as the cost of
the multiplications the extension would have done. `mul` multiplies `init` by
`1, 2, .., 999` on a `u64`, and `999!` exceeds `2^64`. **`native_completion_overflows`**:
whatever the stamp and the clock, a response whose first payload byte is not zero makes
`mul` overflow; **`native_completion_zero`**: with a zero byte the sample is the elapsed
time `now - stamp`.
-/

namespace Kayak

namespace PushbackRecvSend

variable {c : Consts} {s s' : PushbackRecvSend} {rx : List Packet} {t : ℕ}

theorem Inv.count_get (h : Inv c s rx) (hn : s.native = true) (ht : t ∈ stamps s.wire rx) :
    (flight s.wire rx).count (.get, t) = 1 := by
  obtain ⟨x, hx, rfl⟩ := Multiset.mem_map.1 ht
  have hk := h.onlyGets hn x hx
  exact Multiset.count_eq_one_of_mem (Multiset.Nodup.of_map _ h.nodup) (by rw [← hk]; exact hx)

/-- The step accounting of native operations in a state of a run in native mode. -/
structure NativeSteps (c : Consts) (s : PushbackRecvSend) : Prop where
  /-- An operation has a counter exactly while its get is in flight. -/
  keys : ∀ t, t ∈ s.nativeState ↔ t ∈ stamps s.wire s.receiver
  /-- A counter lies in `1..=NUM_OPS`, counts the gets sent under its stamp, and exactly one
  of them is in flight. -/
  counter : ∀ t n, s.nativeState.lookup t = some n →
    1 ≤ n ∧ n ≤ c.numOps ∧ n = s.sender.countP (fun q => q.kind = .get ∧ q.stamp = t) ∧
      (flight s.wire s.receiver).count (.get, t) = 1
  /-- No call of `execute` panics at the `unwrap` or on the counter. -/
  noPanic : ∀ env, execute c env s ≠ .error .unwrapNone ∧ execute c env s ≠ .error .addOverflow
  /-- Handling a get response at the port: after `NUM_OPS` gets under its stamp it retires
  the operation; before, it sends the next get and counts it. -/
  respond : ∀ t tenant pl s', Packet.get t tenant pl ∈ s.receiver →
    handlePacket c s (.get t tenant pl) = .ok s' →
    (s.sender.countP (fun q => q.kind = .get ∧ q.stamp = t) = c.numOps →
      ∃ l, s' = { s with
        recvd := s.recvd + 1, ticks := s.ticks + 1, latencies := s.latencies ++ [l]
        nativeState := s.nativeState.erase t, outstanding := s.outstanding - 1 }) ∧
    (s.sender.countP (fun q => q.kind = .get ∧ q.stamp = t) ≠ c.numOps →
      ∃ val, s' = { s with
        sender := s.sender ++ [.get tenant 1 val t], wire := s.wire ++ [.get tenant 1 val t]
        nativeState := s.nativeState.insert t
          (s.sender.countP (fun q => q.kind = .get ∧ q.stamp = t) + 1) })

/-- **Native multi-step state** in every state of every run in native mode. -/
theorem native_steps (h1 : 1 ≤ c.numOps) (h255 : c.numOps ≤ 255) (hs : Reachable c s)
    (hn : s.native = true) : NativeSteps c s := by
  have h := Inv.reachable h1 hs
  refine ⟨h.nativeIff hn, fun t n hl => ?_, fun env => ?_, fun t tenant pl s' hp hs' => ?_⟩
  · obtain ⟨h1, h2, h3⟩ := h.steps hn t n hl
    exact ⟨h1, h2, h3, h.count_get hn ((h.nativeIff hn t).1 (AList.lookup_isSome.1 (by simp [hl])))⟩
  · have hpos := fun e (he : execute c env s = .error e) => hn ▸ h.execute_eq_error h1 he
    exact ⟨fun he => hpos _ he, fun he => by have := (hpos _ he).2; omega⟩
  · have h' := h.perm (List.perm_cons_erase hp)
    have hq : Packet.tag (.get t tenant pl) = some (.get, t) := rfl
    obtain ⟨n, hl⟩ := Option.isSome_iff_exists.1
      (AList.lookup_isSome.2 ((h'.nativeIff hn t).2 (mem_stamps_cons s.wire hq _)))
    obtain ⟨-, -, rfl⟩ := h.steps hn t n hl
    refine ⟨fun he => ?_, fun hne => ?_⟩
    · obtain ⟨-, l, rfl⟩ := handlePacket_done_ok hn (he ▸ hl) hs'
      exact ⟨l, rfl⟩
    · obtain ⟨-, val, rfl⟩ := handlePacket_step_ok hn hl hne hs'
      exact ⟨val, rfl⟩

/-- The native steps with 32 operations open and the response to the one stamped `2` at the
port. -/
theorem native_steps_sample : 1 ≤ (Consts.shipped false).numOps ∧
    (Consts.shipped false).numOps ≤ 255 ∧
    Reachable (Consts.shipped false) nativeAnswered ∧ nativeAnswered.native = true ∧
    NativeSteps (Consts.shipped false) nativeAnswered :=
  have hr := (Reachable.new ..).refl_trans nativeAnswered_steps
  ⟨le_rfl, by decide, hr, native_of_steps nativeAnswered_steps,
    native_steps le_rfl (by decide) hr (native_of_steps nativeAnswered_steps)⟩

/-! ### The last step's latency -/

/-- With a first payload byte of zero, the last step records the elapsed time. -/
theorem native_completion_zero (hn : s.native = true) (hl : s.nativeState.lookup t = some c.numOps)
    (ht : t ≤ s.clock.read s.ticks) (ho : 1 ≤ s.outstanding) (tenant : ℕ) (pl : List UInt8) :
    handlePacket c s (.get t tenant (0 :: pl)) = .ok { s with
      recvd := s.recvd + 1, ticks := s.ticks + 1
      latencies := s.latencies ++ [s.clock.read s.ticks - t]
      nativeState := s.nativeState.erase t, outstanding := s.outstanding - 1 } := by
  rw [handlePacket_done hn hl ht ho, index_of_lt (by simp), ok_bind]
  simp only [List.get_eq_getElem, List.getElem_cons_zero]
  rw [mul_numMul (by decide)]
  rfl

/-- With any other first payload byte, the last step panics in `mul`, whatever the stamp and
the clock. -/
theorem native_completion_overflows (hn : s.native = true)
    (hl : s.nativeState.lookup t = some c.numOps) {init : UInt8} (hi : init ≠ 0) (tenant : ℕ)
    (pl : List UInt8) : handlePacket c s (.get t tenant (init :: pl)) = .error .mulOverflow := by
  have h64 : init.toNat < 2 ^ 64 := init.toNat_lt_size.trans (by decide)
  have h0 : init.toNat ≠ 0 := fun h => hi (UInt8.eq_of_val_eq (Fin.ext h))
  rw [handlePacket_done_eq hn hl, index_of_lt (by simp), ok_bind]
  simp only [List.get_eq_getElem, List.getElem_cons_zero]
  rw [mul_numMul h64, if_neg h0]
  rfl

set_option maxRecDepth 4000 in
/-- The first `execute` of the shipped client in native mode sends the get stamped 2; a
response to it carrying the byte 1 makes `mul` overflow. -/
theorem native_completion_overflows_sample :
    ∃ s, Reachable (Consts.shipped false) s ∧ s.native = true ∧
      s.nativeState.lookup 2 = some (Consts.shipped false).numOps ∧
      handlePacket (Consts.shipped false) s (.get 2 1 [1]) = .error .mulOverflow := by
  have hrun : (runActions (Consts.shipped false) [.execute ⟨0, ⟨.yielded, 0, []⟩⟩]
      (sample true false 1)).map (fun s => (s.native, s.nativeState.lookup 2)) =
        some (true, some 1) := rfl
  obtain ⟨s, hs, hv⟩ := Option.map_eq_some'.1 hrun
  simp only [Prod.mk.injEq] at hv
  exact ⟨s, (Reachable.new ..).runActions _ hs, hv.1, hv.2,
    native_completion_overflows hv.1 hv.2 (by decide) 1 []⟩

/-! ### Puts -/

end PushbackRecvSend

end Kayak
