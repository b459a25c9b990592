import Kayak.Run
import Mathlib.Algebra.Order.BigOperators.GroupWithZero.List
import Mathlib.Algebra.Order.Ring.Nat

/-!
# What each operation does

One lemma per operation and per branch of the source: the state an operation returns,
under the conditions in which it does not panic, or what can be said of it when it
returns. The invariants of the later modules cite these lemmas and never unfold the
operations.
-/

namespace Kayak

namespace PushbackRecvSend

variable {c : Consts} {s s' : PushbackRecvSend} {t : ℕ} {e : Panic}

@[simp] theorem rdtsc_eq (s : PushbackRecvSend) :
    s.rdtsc = (s.clock.read s.ticks, { s with ticks := s.ticks + 1 }) := rfl

@[simp] theorem transmit_eq (s : PushbackRecvSend) (q : Request) :
    s.transmit q = { s with sender := s.sender ++ [q], wire := s.wire ++ [q] } := rfl

theorem addRequest_of_not_mem {req : List UInt8} {tenant n id : ℕ} (h : id ∉ s.manager) :
    s.addRequest req tenant n id =
      { s with manager := s.manager.insert id (TaskManager.new req tenant n id) } := if_neg h

/-- What `new` fixes for a whole run: the mode, the clock, the start stamp, the response
target, the request budget and the master flag. No operation writes them. -/
def setup (s : PushbackRecvSend) : Bool × Tsc × ℕ × ℕ × ℕ × Bool :=
  (s.native, s.clock, s.start, s.responses, s.requests, s.master)

/-- What only `send` writes: the workload generator with its key buffer, the two invoke
payloads, and the count `sent`. -/
def buffers (s : PushbackRecvSend) : Pushback × List UInt8 × List UInt8 × ℕ :=
  (s.workload, s.payloadGet, s.payloadPut, s.sent)

/-! ### `mul` -/

/-- When no step of `mul`'s loop overflows, it returns the product, below `2^64`. -/
theorem foldlM_mulU64_eq_ok {l : List ℕ} {n m : ℕ} (hn : n < 2 ^ 64)
    (h : l.foldlM mulU64 n = .ok m) : m = n * l.prod ∧ m < 2 ^ 64 := by
  induction l generalizing n with
  | nil =>
    cases h
    exact ⟨by simp, hn⟩
  | cons a l ih =>
    rw [List.foldlM_cons] at h
    unfold mulU64 at h
    split at h
    · obtain ⟨h1, h2⟩ := ih ‹_› h
      exact ⟨by rw [h1, List.prod_cons, Nat.mul_assoc], h2⟩
    · cases h

/-- The only panic of `mul` is an overflow. -/
theorem foldlM_mulU64_eq_error {l : List ℕ} {n : ℕ} (h : l.foldlM mulU64 n = .error e) :
    e = .mulOverflow := by
  induction l generalizing n with
  | nil => cases h
  | cons a l ih =>
    rw [List.foldlM_cons] at h
    unfold mulU64 at h
    split at h
    · exact ih h
    · cases h; rfl

/-- `999!` exceeds `2^64`. -/
theorem two_pow_le_prod : 2 ^ 64 ≤ (List.range' 1 (numMul - 1)).prod := by
  have hsplit : List.range' 1 (numMul - 1) = List.range' 1 21 ++ List.range' 22 978 := by
    rw [List.range'_append]; rfl
  rw [hsplit, List.prod_append]
  have h1 : 2 ^ 64 ≤ (List.range' 1 21).prod := by simp [List.range']
  have h2 : 0 < (List.range' 22 978).prod :=
    List.prod_pos fun (a : ℕ) ha => by simp only [List.mem_range'] at ha; omega
  generalize (List.range' 1 21).prod = a at h1 ⊢
  generalize (List.range' 22 978).prod = b at h2 ⊢
  exact h1.trans (Nat.le_mul_of_pos_right a h2)

/-- `mul` is a fold over `1..limit`. -/
theorem mul_eq (n k : ℕ) : mul n k = (List.range' 1 (k - 1)).foldlM mulU64 n := rfl

/-- `mul(init, NUM_MUL)` returns only for `init = 0`: for any other value the product
`init * 999!` overflows `u64`. -/
theorem mul_numMul_eq_ok {n m : ℕ} (hn : n < 2 ^ 64) (h : mul n numMul = .ok m) :
    n = 0 ∧ m = 0 := by
  rw [mul_eq] at h
  obtain ⟨hm1, hm⟩ := foldlM_mulU64_eq_ok hn h
  rcases Nat.eq_zero_or_pos n with h0 | hpos
  · exact ⟨h0, by rw [hm1, h0, Nat.zero_mul]⟩
  · have := two_pow_le_prod.trans (Nat.le_mul_of_pos_left (List.range' 1 (numMul - 1)).prod hpos)
    omega

/-- From `0` every step of `mul`'s loop returns `0`. -/
theorem foldlM_mulU64_zero (l : List ℕ) : l.foldlM mulU64 0 = .ok 0 := by
  induction l with
  | nil => rfl
  | cons a l ih => rw [List.foldlM_cons, mulU64, if_pos (by simp), Nat.zero_mul, ok_bind, ih]

/-- `mul(init, NUM_MUL)` on a `u64`: `0` for `init = 0`, an overflow for any other value. -/
theorem mul_numMul {n : ℕ} (hn : n < 2 ^ 64) :
    mul n numMul = if n = 0 then .ok 0 else .error .mulOverflow := by
  split
  · subst n; exact foldlM_mulU64_zero _
  · cases h : mul n numMul with
    | ok m => exact absurd (mul_numMul_eq_ok hn h).1 ‹_›
    | error e => rw [mul_eq] at h; rw [foldlM_mulU64_eq_error h]

/-! ### `send` -/

/-- One native iteration: `abc` needs a key buffer of four bytes; the request goes on the
wire, its stamp gets a step counter of one if it has none, and `outstanding` grows. -/
theorem sendNative_ok {curr : ℕ} (h : s.sendNative curr = .ok s') :
    4 ≤ s.workload.keyBuf.length ∧
    s' = { s with
      workload := s.workload.next
      sender := s.sender ++ [nativeRequest curr s.workload.call]
      wire := s.wire ++ [nativeRequest curr s.workload.call]
      nativeState := orInsert s.nativeState curr 1
      outstanding := s.outstanding + 1 } := by
  by_cases h4 : 4 ≤ s.workload.keyBuf.length
  · simp only [sendNative, Pushback.abc_eq _ h4, transmit_eq] at h
    exact ⟨h4, (Except.ok.inj h).symm⟩
  · simp [sendNative, Pushback.abc_of_lt s.workload (by omega)] at h

/-- One run of an invoke closure: the task is registered under `curr` and the invoke,
carrying the payload written, goes on the wire. -/
theorem invokeOp_ok {payload key p : List UInt8} {lo tenant curr : ℕ}
    (h : s.invokeOp payload lo tenant key curr = .ok (p, s')) :
    s' = (s.addRequest p tenant 8 curr).transmit (.invoke tenant 8 p curr) := by
  unfold invokeOp at h
  cases hk : slice key 0 4 with
  | error e => simp [hk, bind, Except.bind] at h
  | ok k =>
    cases hp : copyFromSlice payload lo (lo + 4) k with
    | error e => simp [hk, hp, bind, Except.bind] at h
    | ok q =>
      simp only [hk, hp, bind, Except.bind, pure, Except.pure, Except.ok.injEq, Prod.mk.injEq] at h
      obtain ⟨rfl, rfl⟩ := h
      rfl

/-- The same, under the `map` that stores the payload back. -/
theorem invokeOp_map {u : PushbackRecvSend} {payload key : List UInt8} {lo tenant curr : ℕ}
    {f : List UInt8 × PushbackRecvSend → PushbackRecvSend}
    (h : f <$> u.invokeOp payload lo tenant key curr = .ok s') :
    ∃ p, s' = f (p, (u.addRequest p tenant 8 curr).transmit (.invoke tenant 8 p curr)) := by
  cases ho : u.invokeOp payload lo tenant key curr with
  | error e => simp [ho, Functor.map, Except.map] at h
  | ok r =>
    obtain ⟨p, u'⟩ := r
    simp only [ho, Functor.map, Except.map, Except.ok.injEq] at h
    exact ⟨p, by rw [← h, ← invokeOp_ok ho]⟩

/-- One invoke iteration: a task is registered under `curr`, an invoke stamped `curr` goes
on the wire and `outstanding` grows; the payload buffers change. -/
theorem sendInvoke_ok {curr : ℕ} (h : s.sendInvoke curr = .ok s') :
    ∃ (pg pp p : List UInt8) (tenant : ℕ),
      s' = { (s.addRequest p tenant 8 curr).transmit (.invoke tenant 8 p curr) with
        workload := s.workload.next, payloadGet := pg, payloadPut := pp
        outstanding := s.outstanding + 1 } := by
  by_cases h4 : 4 ≤ s.workload.keyBuf.length
  · simp only [sendInvoke, Pushback.abc_eq _ h4, bind, Except.bind] at h
    cases hc : s.workload.call with
    | get tenant key =>
      simp only [hc] at h
      obtain ⟨p, rfl⟩ := invokeOp_map h
      refine ⟨p, s.payloadPut, p, tenant, ?_⟩
      simp only [addRequest]
      split <;> rfl
    | put tenant key v =>
      simp only [hc] at h
      obtain ⟨p, rfl⟩ := invokeOp_map h
      refine ⟨s.payloadGet, p, p, tenant, ?_⟩
      simp only [addRequest]
      split <;> rfl
  · simp [sendInvoke, Pushback.abc_of_lt s.workload (by omega), bind, Except.bind] at h

/-- One iteration of the send loop reads the clock once and sends one request. -/
theorem sendOne_ok (h : s.sendOne = .ok s') :
    ∃ u, (if s.native then sendNative { s with ticks := s.ticks + 1 } (s.clock.read s.ticks)
      else sendInvoke { s with ticks := s.ticks + 1 } (s.clock.read s.ticks)) = .ok u ∧
      s' = { u with sent := u.sent + 1 } := by
  cases hn : s.native <;>
  · simp only [sendOne, rdtsc_eq, hn, Bool.false_eq_true, if_false, if_true, bind,
      Except.bind] at h ⊢
    split at h
    · cases h
    · exact ⟨_, ‹_›, (Except.ok.inj h).symm⟩

/-- One native iteration, as a whole: the clock is read once for the stamp. -/
theorem sendOne_native (hn : s.native = true) (h : s.sendOne = .ok s') :
    4 ≤ s.workload.keyBuf.length ∧ s' = { s with
      ticks := s.ticks + 1, workload := s.workload.next
      sender := s.sender ++ [nativeRequest (s.clock.read s.ticks) s.workload.call]
      wire := s.wire ++ [nativeRequest (s.clock.read s.ticks) s.workload.call]
      nativeState := orInsert s.nativeState (s.clock.read s.ticks) 1
      outstanding := s.outstanding + 1, sent := s.sent + 1 } := by
  obtain ⟨u, hu, rfl⟩ := sendOne_ok h
  rw [if_pos hn] at hu
  obtain ⟨h4, rfl⟩ := sendNative_ok hu
  exact ⟨h4, rfl⟩

/-- One invoke iteration, as a whole: `add_request` inserts the task under the stamp and
logs when that replaces an entry. -/
theorem sendOne_invoke (hn : s.native = false) (h : s.sendOne = .ok s') :
    ∃ (pg pp p : List UInt8) (tenant : ℕ), s' = { s with
      ticks := s.ticks + 1, workload := s.workload.next, payloadGet := pg, payloadPut := pp
      sender := s.sender ++ [.invoke tenant 8 p (s.clock.read s.ticks)]
      wire := s.wire ++ [.invoke tenant 8 p (s.clock.read s.ticks)]
      manager := s.manager.insert (s.clock.read s.ticks)
        (TaskManager.new p tenant 8 (s.clock.read s.ticks))
      log := s.log ++ if s.clock.read s.ticks ∈ s.manager then [.alreadyPresent] else []
      outstanding := s.outstanding + 1, sent := s.sent + 1 } := by
  obtain ⟨u, hu, rfl⟩ := sendOne_ok h
  rw [if_neg (by simp [hn])] at hu
  obtain ⟨pg, pp, p, tenant, rfl⟩ := sendInvoke_ok hu
  refine ⟨pg, pp, p, tenant, ?_⟩
  simp only [addRequest]
  split <;> simp_all


/-- A relation that every iteration of the loop establishes, on a window with room, and that
composes, holds between the two ends of a `send`. -/
theorem send_rel (R : PushbackRecvSend → PushbackRecvSend → Prop) (hrefl : ∀ a, R a a)
    (htrans : ∀ {a b d}, R a b → R b d → R a d)
    (hone : ∀ {a b}, a.outstanding < 32 → a.sendOne = .ok b → R a b)
    (h : s.send = .ok s') : R s s' := by
  have hloop : ∀ {fuel a b}, sendLoop fuel a = .ok b → R a b := by
    intro fuel
    induction fuel with
    | zero => intro a b h; cases h; exact hrefl a
    | succ fuel ih =>
      intro a b h
      rw [sendLoop] at h
      split at h
      · obtain ⟨u, hu, h⟩ := bind_eq_ok.1 h
        exact htrans (hone ‹_› hu) (ih h)
      · cases h; exact hrefl a
  rw [send] at h
  split at h
  · cases h; exact hrefl s
  · exact hloop h

/-- Sending writes neither the setup nor the port, counts no response, does not set
`finished` nor `stop`, and reads the clock once. -/
theorem sendOne_frame (h : s.sendOne = .ok s') :
    s'.setup = s.setup ∧ s'.receiver = s.receiver ∧ s'.recvd = s.recvd ∧
      s'.finished = s.finished ∧ s'.stop = s.stop ∧ s'.ticks = s.ticks + 1 := by
  cases hn : s.native
  · obtain ⟨_, _, _, _, rfl⟩ := sendOne_invoke hn h; exact ⟨rfl, rfl, rfl, rfl, rfl, rfl⟩
  · obtain ⟨-, rfl⟩ := sendOne_native hn h; exact ⟨rfl, rfl, rfl, rfl, rfl, rfl⟩

theorem send_frame (h : s.send = .ok s') : s'.setup = s.setup ∧ s'.receiver = s.receiver :=
  send_rel (fun a b => b.setup = a.setup ∧ b.receiver = a.receiver) (fun _ => ⟨rfl, rfl⟩)
    (fun h1 h2 => ⟨h2.1.trans h1.1, h2.2.trans h1.2⟩)
    (fun _ hu => ⟨(sendOne_frame hu).1, (sendOne_frame hu).2.1⟩) h

theorem send_tally (h : s.send = .ok s') : s'.recvd = s.recvd ∧ s'.finished = s.finished :=
  send_rel (fun a b => b.recvd = a.recvd ∧ b.finished = a.finished) (fun _ => ⟨rfl, rfl⟩)
    (fun h1 h2 => ⟨h2.1.trans h1.1, h2.2.trans h1.2⟩)
    (fun _ hu => ⟨(sendOne_frame hu).2.2.1, (sendOne_frame hu).2.2.2.1⟩) h

theorem invokeOp_eq_error {payload key : List UInt8} {lo tenant curr : ℕ}
    (h : s.invokeOp payload lo tenant key curr = .error e) : e = .sliceOutOfRange := by
  unfold invokeOp at h
  rcases bind_eq_error.1 h with h | ⟨k, -, h⟩
  · exact slice_eq_error h
  · rcases bind_eq_error.1 h with h | ⟨p, -, h⟩
    · exact copyFromSlice_eq_error h
    · cases h

theorem sendNative_eq_error {curr : ℕ} (h : s.sendNative curr = .error e) :
    e = .sliceOutOfRange := by
  rcases bind_eq_error.1 h with h | ⟨_, -, h⟩
  · exact Pushback.abc_eq_error h
  · cases h

theorem sendInvoke_eq_error {curr : ℕ} (h : s.sendInvoke curr = .error e) :
    e = .sliceOutOfRange := by
  rcases bind_eq_error.1 h with h | ⟨⟨call, w⟩, -, h⟩
  · exact Pushback.abc_eq_error h
  · cases call <;>
    · rcases bind_eq_error.1 h with h | ⟨_, -, h⟩
      · exact invokeOp_eq_error h
      · cases h

theorem sendOne_eq_error (h : s.sendOne = .error e) : e = .sliceOutOfRange := by
  simp only [sendOne, rdtsc_eq] at h
  split at h
  · rcases bind_eq_error.1 h with h | ⟨_, -, h⟩
    · exact sendNative_eq_error h
    · cases h
  · rcases bind_eq_error.1 h with h | ⟨_, -, h⟩
    · exact sendInvoke_eq_error h
    · cases h

/-! ### `recv` -/

/-! In invoke mode each form of response is handled by at most two checked subtractions,
the latency and `outstanding - 1`; these equations say so once, and every lemma on one form
starts from them. -/

theorem handlePacket_statusOk_eq (hn : s.native = false) (r : List UInt8) :
    handlePacket c s (.invoke t .statusOk r) =
      (subU64 (s.clock.read s.ticks) t >>= fun l => subU64 s.outstanding 1 >>= fun o =>
        pure { s with
          ticks := s.ticks + 1, recvd := s.recvd + 1, latencies := s.latencies ++ [l]
          outstanding := o, manager := s.manager.erase t }) := by
  unfold handlePacket; rw [if_pos hn]; rfl

theorem handlePacket_pushback_eq (hn : s.native = false) (r : List UInt8) :
    handlePacket c s (.invoke t .statusPushback r) =
      (subU64 (s.clock.read (s.ticks + 1)) t >>= fun l => subU64 s.outstanding 1 >>= fun o =>
        pure { s with
          ticks := s.ticks + 2, recvd := s.recvd + 1, latencies := s.latencies ++ [l]
          outstanding := o, manager := s.manager.erase t
          waiting := s.waiting ++
            ((s.manager.lookup t).map fun m => m.createGenerator.updateRwset r).toList
          log := s.log ++ (if t ∈ s.manager then [] else [Info.noManager t]) }) := by
  unfold handlePacket; rw [if_pos hn]
  cases hm : s.manager.lookup t with
  | none =>
    have : t ∉ s.manager := AList.lookup_eq_none.1 hm
    simp only [AList.extract_eq_lookup_erase, hm, rdtsc_eq, this, if_false, Option.map_none',
      Option.toList_none, List.append_nil]
  | some m =>
    have : t ∈ s.manager := AList.lookup_isSome.1 (by simp [hm])
    simp only [AList.extract_eq_lookup_erase, hm, rdtsc_eq, this, if_true, Option.map_some',
      Option.toList_some, List.append_nil]

theorem handlePacket_get_eq (hn : s.native = false) (tenant : ℕ) (pl : List UInt8) :
    handlePacket c s (.get t tenant pl) =
      (subU64 (s.clock.read s.ticks) t >>= fun l => pure { s with
        ticks := s.ticks + 1, latencies := s.latencies ++ [l]
        manager := s.manager.erase t, waiting := s.waiting ++ (s.manager.lookup t).toList }) := by
  unfold handlePacket; rw [if_pos hn]
  cases hm : s.manager.lookup t with
  | none =>
    have : t ∉ s.manager := AList.lookup_eq_none.1 hm
    simp only [rdtsc_eq, this, if_false, erase_of_not_mem this, Option.toList_none,
      List.append_nil]
  | some m =>
    have : t ∈ s.manager := AList.lookup_isSome.1 (by simp [hm])
    simp only [AList.extract_eq_lookup_erase, hm, rdtsc_eq, this, if_true, Option.toList_some]

theorem handlePacket_put_eq (hn : s.native = false) :
    handlePacket c s (.put t) =
      (subU64 (s.clock.read s.ticks) t >>= fun l => pure { s with
        ticks := s.ticks + 1, latencies := s.latencies ++ [l] }) := by
  unfold handlePacket; rw [if_pos hn]; rfl

theorem handlePacket_statusOk_ok (hn : s.native = false) {r : List UInt8}
    (h : handlePacket c s (.invoke t .statusOk r) = .ok s') :
    t ≤ s.clock.read s.ticks ∧ 1 ≤ s.outstanding ∧ s' = { s with
      ticks := s.ticks + 1, recvd := s.recvd + 1
      latencies := s.latencies ++ [s.clock.read s.ticks - t]
      outstanding := s.outstanding - 1, manager := s.manager.erase t } := by
  rw [handlePacket_statusOk_eq hn] at h
  obtain ⟨l, hl, h⟩ := bind_eq_ok.1 h
  obtain ⟨o, hd, h⟩ := bind_eq_ok.1 h
  obtain ⟨ht, rfl⟩ := subU64_eq_ok.1 hl
  obtain ⟨ho, rfl⟩ := subU64_eq_ok.1 hd
  exact ⟨ht, ho, (Except.ok.inj h).symm⟩

theorem handlePacket_pushback_ok (hn : s.native = false) {r : List UInt8}
    (h : handlePacket c s (.invoke t .statusPushback r) = .ok s') :
    t ≤ s.clock.read (s.ticks + 1) ∧ 1 ≤ s.outstanding ∧ s' = { s with
      ticks := s.ticks + 2, recvd := s.recvd + 1
      latencies := s.latencies ++ [s.clock.read (s.ticks + 1) - t]
      outstanding := s.outstanding - 1, manager := s.manager.erase t
      waiting := s.waiting ++
        ((s.manager.lookup t).map fun m => m.createGenerator.updateRwset r).toList
      log := s.log ++ (if t ∈ s.manager then [] else [Info.noManager t]) } := by
  rw [handlePacket_pushback_eq hn] at h
  obtain ⟨l, hl, h⟩ := bind_eq_ok.1 h
  obtain ⟨o, hd, h⟩ := bind_eq_ok.1 h
  obtain ⟨ht, rfl⟩ := subU64_eq_ok.1 hl
  obtain ⟨ho, rfl⟩ := subU64_eq_ok.1 hd
  exact ⟨ht, ho, (Except.ok.inj h).symm⟩

theorem handlePacket_get_ok (hn : s.native = false) {tenant : ℕ} {pl : List UInt8}
    (h : handlePacket c s (.get t tenant pl) = .ok s') :
    t ≤ s.clock.read s.ticks ∧ s' = { s with
      ticks := s.ticks + 1, latencies := s.latencies ++ [s.clock.read s.ticks - t]
      manager := s.manager.erase t, waiting := s.waiting ++ (s.manager.lookup t).toList } := by
  rw [handlePacket_get_eq hn] at h
  obtain ⟨l, hl, h⟩ := bind_eq_ok.1 h
  obtain ⟨ht, rfl⟩ := subU64_eq_ok.1 hl
  exact ⟨ht, (Except.ok.inj h).symm⟩

theorem handlePacket_put_ok (hn : s.native = false) (h : handlePacket c s (.put t) = .ok s') :
    t ≤ s.clock.read s.ticks ∧ s' = { s with
      ticks := s.ticks + 1, latencies := s.latencies ++ [s.clock.read s.ticks - t] } := by
  rw [handlePacket_put_eq hn] at h
  obtain ⟨l, hl, h⟩ := bind_eq_ok.1 h
  obtain ⟨ht, rfl⟩ := subU64_eq_ok.1 hl
  exact ⟨ht, (Except.ok.inj h).symm⟩

theorem handlePacket_statusOk (hn : s.native = false) (ht : t ≤ s.clock.read s.ticks)
    (ho : 1 ≤ s.outstanding) (r : List UInt8) :
    handlePacket c s (.invoke t .statusOk r) = .ok { s with
      ticks := s.ticks + 1, recvd := s.recvd + 1
      latencies := s.latencies ++ [s.clock.read s.ticks - t]
      outstanding := s.outstanding - 1, manager := s.manager.erase t } := by
  rw [handlePacket_statusOk_eq hn, subU64_of_le ht, ok_bind, subU64_of_le ho, ok_bind]; rfl

theorem handlePacket_pushback (hn : s.native = false) (ht : t ≤ s.clock.read (s.ticks + 1))
    (ho : 1 ≤ s.outstanding) (r : List UInt8) :
    handlePacket c s (.invoke t .statusPushback r) = .ok { s with
      ticks := s.ticks + 2, recvd := s.recvd + 1
      latencies := s.latencies ++ [s.clock.read (s.ticks + 1) - t]
      outstanding := s.outstanding - 1, manager := s.manager.erase t
      waiting := s.waiting ++
        ((s.manager.lookup t).map fun m => m.createGenerator.updateRwset r).toList
      log := s.log ++ (if t ∈ s.manager then [] else [Info.noManager t]) } := by
  rw [handlePacket_pushback_eq hn, subU64_of_le ht, ok_bind, subU64_of_le ho, ok_bind]; rfl

theorem handlePacket_invokeOther (hn : s.native = false) (k : ℕ) (r : List UInt8) :
    handlePacket c s (.invoke t (.other k) r) = .ok { s with ticks := s.ticks + 1 } := by
  unfold handlePacket; rw [if_pos hn]; rfl

theorem handlePacket_get (hn : s.native = false) (ht : t ≤ s.clock.read s.ticks)
    (tenant : ℕ) (pl : List UInt8) :
    handlePacket c s (.get t tenant pl) = .ok { s with
      ticks := s.ticks + 1, latencies := s.latencies ++ [s.clock.read s.ticks - t]
      manager := s.manager.erase t, waiting := s.waiting ++ (s.manager.lookup t).toList } := by
  rw [handlePacket_get_eq hn, subU64_of_le ht, ok_bind]; rfl

theorem handlePacket_put (hn : s.native = false) (ht : t ≤ s.clock.read s.ticks) :
    handlePacket c s (.put t) = .ok { s with
      ticks := s.ticks + 1, latencies := s.latencies ++ [s.clock.read s.ticks - t] } := by
  rw [handlePacket_put_eq hn, subU64_of_le ht, ok_bind]; rfl

theorem handlePacket_other (hn : s.native = false) :
    handlePacket c s .other = .ok { s with ticks := s.ticks + 1 } := by
  unfold handlePacket; rw [if_pos hn]; rfl

/-- In native mode a get whose stamp has no step counter panics at the `unwrap`. -/
theorem handlePacket_unwrap (hn : s.native = true) (hl : s.nativeState.lookup t = none)
    (tenant : ℕ) (pl : List UInt8) :
    handlePacket c s (.get t tenant pl) = .error .unwrapNone := by
  unfold handlePacket; rw [if_neg (by simp [hn])]; simp only [hl]; rfl

/-- In native mode any response but a get is dropped. -/
theorem handlePacket_native_notGet (hn : s.native = true) {p : Packet}
    (hp : ∀ t tenant pl, p ≠ .get t tenant pl) : handlePacket c s p = .ok s := by
  unfold handlePacket; rw [if_neg (by simp [hn])]
  cases p with
  | get t tenant pl => exact absurd rfl (hp t tenant pl)
  | _ => rfl

/-! In native mode a get response is one step of an operation; these equations say once what
the step that continues it and the step that retires it compute. -/

theorem handlePacket_step_eq (hn : s.native = true) {n : ℕ}
    (hl : s.nativeState.lookup t = some n) (hne : n ≠ c.numOps) (tenant : ℕ) (pl : List UInt8) :
    handlePacket c s (.get t tenant pl) =
      (slice pl 0 30 >>= fun val => addU8 n 1 >>= fun n' => pure { s with
        sender := s.sender ++ [.get tenant 1 val t], wire := s.wire ++ [.get tenant 1 val t]
        nativeState := s.nativeState.insert t n' }) := by
  rw [handlePacket, if_neg (by simp [hn])]
  simp only [hl, unwrap_some, ok_bind, if_neg hne, transmit_eq]

theorem handlePacket_done_eq (hn : s.native = true) (hl : s.nativeState.lookup t = some c.numOps)
    (tenant : ℕ) (pl : List UInt8) :
    handlePacket c s (.get t tenant pl) =
      (index pl 0 >>= fun init => mul init.toNat numMul >>= fun m =>
        (subU64 (s.clock.read s.ticks) t >>= fun d => subU64 d m) >>= fun l =>
          subU64 s.outstanding 1 >>= fun o => pure { s with
            recvd := s.recvd + 1, ticks := s.ticks + 1, latencies := s.latencies ++ [l]
            nativeState := s.nativeState.erase t, outstanding := o }) := by
  rw [handlePacket, if_neg (by simp [hn])]
  simp only [hl, unwrap_some, ok_bind, if_pos, rdtsc_eq]

/-- A get that is not the last step of its operation: the next get goes out with the same
stamp and the counter grows. -/
theorem handlePacket_step (hn : s.native = true) {n : ℕ} (hl : s.nativeState.lookup t = some n)
    (hne : n ≠ c.numOps) (tenant : ℕ) {pl : List UInt8} (hpl : 30 ≤ pl.length)
    (h8 : n + 1 < 2 ^ 8) :
    handlePacket c s (.get t tenant pl) = .ok { s with
      sender := s.sender ++ [.get tenant 1 (pl.take 30) t]
      wire := s.wire ++ [.get tenant 1 (pl.take 30) t]
      nativeState := s.nativeState.insert t (n + 1) } := by
  rw [handlePacket_step_eq hn hl hne, slice_of_le (Nat.zero_le 30) hpl, ok_bind, addU8_of_lt h8]
  simp only [List.drop_zero, Nat.sub_zero]
  rfl

theorem handlePacket_step_ok (hn : s.native = true) {n tenant : ℕ} {pl : List UInt8}
    (hl : s.nativeState.lookup t = some n) (hne : n ≠ c.numOps)
    (h : handlePacket c s (.get t tenant pl) = .ok s') :
    n + 1 < 2 ^ 8 ∧ ∃ val, s' = { s with
      sender := s.sender ++ [.get tenant 1 val t], wire := s.wire ++ [.get tenant 1 val t]
      nativeState := s.nativeState.insert t (n + 1) } := by
  rw [handlePacket_step_eq hn hl hne] at h
  obtain ⟨val, -, h⟩ := bind_eq_ok.1 h
  obtain ⟨n', hn', h⟩ := bind_eq_ok.1 h
  unfold addU8 at hn'
  split at hn' <;> cases hn'
  cases h
  exact ⟨‹_›, val, rfl⟩

theorem handlePacket_done_ok (hn : s.native = true) {tenant : ℕ} {pl : List UInt8}
    (hl : s.nativeState.lookup t = some c.numOps)
    (h : handlePacket c s (.get t tenant pl) = .ok s') :
    1 ≤ s.outstanding ∧ ∃ l, s' = { s with
      recvd := s.recvd + 1, ticks := s.ticks + 1, latencies := s.latencies ++ [l]
      nativeState := s.nativeState.erase t, outstanding := s.outstanding - 1 } := by
  rw [handlePacket_done_eq hn hl] at h
  obtain ⟨init, -, h⟩ := bind_eq_ok.1 h
  obtain ⟨m, -, h⟩ := bind_eq_ok.1 h
  obtain ⟨l, -, h⟩ := bind_eq_ok.1 h
  obtain ⟨o, ho, h⟩ := bind_eq_ok.1 h
  obtain ⟨ho1, rfl⟩ := subU64_eq_ok.1 ho
  cases h
  exact ⟨ho1, l, rfl⟩


/-- Handling a response writes neither the setup, nor the port, nor the buffers, never lowers
the count of responses, leaves `finished` and `stop` alone, and never turns the clock back. -/
theorem handlePacket_frame {p : Packet} (h : handlePacket c s p = .ok s') :
    s'.setup = s.setup ∧ s'.receiver = s.receiver ∧ s'.buffers = s.buffers ∧
      s.recvd ≤ s'.recvd ∧ s'.finished = s.finished ∧ s'.stop = s.stop ∧
      s.ticks ≤ s'.ticks := by
  cases hn : s.native
  · cases p with
    | invoke t st r =>
      cases st with
      | statusOk =>
        obtain ⟨-, -, rfl⟩ := handlePacket_statusOk_ok hn h
        exact ⟨rfl, rfl, rfl, Nat.le_succ _, rfl, rfl, Nat.le_add_right _ _⟩
      | statusPushback =>
        obtain ⟨-, -, rfl⟩ := handlePacket_pushback_ok hn h
        exact ⟨rfl, rfl, rfl, Nat.le_succ _, rfl, rfl, Nat.le_add_right _ _⟩
      | other k =>
        rw [handlePacket_invokeOther hn] at h; cases h
        exact ⟨rfl, rfl, rfl, le_rfl, rfl, rfl, Nat.le_add_right _ _⟩
    | get t tenant pl =>
      obtain ⟨-, rfl⟩ := handlePacket_get_ok hn h
      exact ⟨rfl, rfl, rfl, le_rfl, rfl, rfl, Nat.le_add_right _ _⟩
    | put t =>
      obtain ⟨-, rfl⟩ := handlePacket_put_ok hn h
      exact ⟨rfl, rfl, rfl, le_rfl, rfl, rfl, Nat.le_add_right _ _⟩
    | other =>
      rw [handlePacket_other hn] at h; cases h
      exact ⟨rfl, rfl, rfl, le_rfl, rfl, rfl, Nat.le_add_right _ _⟩
  · cases p with
    | get t tenant pl =>
      cases hl : s.nativeState.lookup t with
      | none => rw [handlePacket_unwrap hn hl] at h; cases h
      | some n =>
        by_cases hne : n = c.numOps
        · obtain ⟨-, l, rfl⟩ := handlePacket_done_ok hn (hne ▸ hl) h
          exact ⟨rfl, rfl, rfl, Nat.le_succ _, rfl, rfl, Nat.le_add_right _ _⟩
        · obtain ⟨-, val, rfl⟩ := handlePacket_step_ok hn hl hne h
          exact ⟨rfl, rfl, rfl, le_rfl, rfl, rfl, le_rfl⟩
    | _ =>
      rw [handlePacket_native_notGet hn (by simp)] at h; cases h
      exact ⟨rfl, rfl, rfl, le_rfl, rfl, rfl, le_rfl⟩

theorem recvPackets_frame {b : List Packet} (h : recvPackets c b s = .ok s') :
    s'.setup = s.setup ∧ s'.receiver = s.receiver ∧ s'.buffers = s.buffers := by
  induction b generalizing s' with
  | nil => cases h; exact ⟨rfl, rfl, rfl⟩
  | cons p ps ih =>
    obtain ⟨u, hu, h⟩ := bind_eq_ok.1 h
    obtain ⟨h1, h2, h3, -⟩ := handlePacket_frame h
    obtain ⟨h4, h5, h6⟩ := ih hu
    exact ⟨h1.trans h4, h2.trans h5, h3.trans h6⟩

theorem recv_frame {n : ℕ} (h : recv c n s = .ok s') :
    s'.setup = s.setup ∧ s'.buffers = s.buffers := by
  rw [recv] at h
  split at h
  · cases h; exact ⟨rfl, rfl⟩
  · obtain ⟨u, hu, h⟩ := bind_eq_ok.1 h
    split at h <;> cases h <;> exact ⟨(recvPackets_frame hu).1, (recvPackets_frame hu).2.2⟩

theorem recvPackets_tally {b : List Packet} (h : recvPackets c b s = .ok s') :
    s.recvd ≤ s'.recvd ∧ s'.finished = s.finished := by
  induction b generalizing s' with
  | nil => cases h; exact ⟨le_rfl, rfl⟩
  | cons p ps ih =>
    obtain ⟨u, hu, h⟩ := bind_eq_ok.1 h
    obtain ⟨-, -, -, h1, h2, -⟩ := handlePacket_frame h
    obtain ⟨h3, h4⟩ := ih hu
    exact ⟨h3.trans h1, h2.trans h4⟩

/-- `recv` never lowers the count of responses, and sets `finished` only once the count has
reached the target. -/
theorem recv_tally {n : ℕ} (h : recv c n s = .ok s') :
    s.recvd ≤ s'.recvd ∧ (s'.finished = true → s.finished = true ∨ s'.responses ≤ s'.recvd) := by
  rw [recv] at h
  split at h
  · cases h; exact ⟨le_rfl, fun _ => .inr ‹_›⟩
  · obtain ⟨u, hu, h⟩ := bind_eq_ok.1 h
    obtain ⟨hr, hf⟩ := recvPackets_tally hu
    split at h <;> cases h <;> exact ⟨hr, fun h' => .inl (hf.symm.trans h')⟩

/-- The last step of a native operation, as long as `mul` returns: it returns only on
`init = 0`, so the sample is the elapsed time. -/
theorem handlePacket_done (hn : s.native = true) (hl : s.nativeState.lookup t = some c.numOps)
    (ht : t ≤ s.clock.read s.ticks) (ho : 1 ≤ s.outstanding) (tenant : ℕ) (pl : List UInt8) :
    handlePacket c s (.get t tenant pl) =
      (index pl 0 >>= fun init => mul init.toNat numMul) >>= fun m => pure { s with
        recvd := s.recvd + 1, ticks := s.ticks + 1
        latencies := s.latencies ++ [s.clock.read s.ticks - t - m]
        nativeState := s.nativeState.erase t, outstanding := s.outstanding - 1 } := by
  rw [handlePacket_done_eq hn hl]
  cases index pl 0 with
  | error e => rfl
  | ok init =>
    rw [ok_bind, ok_bind]
    cases hm : mul init.toNat numMul with
    | error e => rfl
    | ok m =>
      obtain ⟨-, rfl⟩ := mul_numMul_eq_ok (init.toNat_lt_size.trans (by decide)) hm
      rw [ok_bind, ok_bind, subU64_of_le ht, ok_bind, subU64_of_le (Nat.zero_le _), ok_bind,
        subU64_of_le ho]
      rfl

/-- A step of a native operation that is not the last panics only at the slice of the
payload or at the `u8` counter. -/
theorem handlePacket_step_error (hn : s.native = true) {n tenant : ℕ} {pl : List UInt8}
    (hl : s.nativeState.lookup t = some n) (hne : n ≠ c.numOps)
    (h : handlePacket c s (.get t tenant pl) = .error e) :
    e = .sliceOutOfRange ∨ e = .addOverflow ∧ 2 ^ 8 ≤ n + 1 := by
  rw [handlePacket_step_eq hn hl hne] at h
  rcases bind_eq_error.1 h with h | ⟨val, -, h⟩
  · exact .inl (slice_eq_error h)
  · rcases bind_eq_error.1 h with h | ⟨_, -, h⟩
    · exact .inr (addU8_eq_error h)
    · cases h

/-! ### `execute_task` -/

variable {r : TaskRun} {m : TaskManager} {rest : List TaskManager}

theorem executeTask_nil (h : s.waiting = []) : executeTask c r s = s := by
  simp [executeTask, h]

theorem executeTask_yielded (h : s.waiting = m :: rest) (hr : r.state = .yielded) :
    executeTask c r s = { s with waiting := rest ++ [m] } := by
  simp [executeTask, h, hr, TaskManager.executeTask]

theorem executeTask_waiting (h : s.waiting = m :: rest) (hr : r.state = .waiting) :
    executeTask c r s = { s with
      waiting := rest, sender := s.sender ++ [.get m.tenant 1 r.key m.id]
      wire := s.wire ++ [.get m.tenant 1 r.key m.id], manager := s.manager.insert m.id m } := by
  simp [executeTask, h, hr, TaskManager.executeTask, transmit, TaskManager.getId]

theorem executeTask_completed (h : s.waiting = m :: rest) (hr : r.state = .completed) :
    ∃ (cc : CycleCounter) (n : ℕ) (l : List Info), Info.alreadyPresent ∉ l ∧
      executeTask c r s = { s with
        waiting := rest, cycleCounter := cc, pushbackCompleted := n, log := s.log ++ l } := by
  simp only [executeTask, h, TaskManager.executeTask, hr]
  by_cases hx : c.execution
  · by_cases h1 : s.pushbackCompleted + 1 = 100000
    · exact ⟨s.cycleCounter.totalCycles r.time 1, 0,
        [.completionTime (s.cycleCounter.totalCycles r.time 1).getAverage], by simp,
        by simp [hx, h1]⟩
    · exact ⟨s.cycleCounter.totalCycles r.time 1, s.pushbackCompleted + 1, [], by simp,
        by simp [hx, h1]⟩
  · exact ⟨s.cycleCounter, s.pushbackCompleted, [], by simp, by simp [hx]⟩

/-- A task step writes neither the setup, nor the port, nor the buffers, only appends to the
sender, neither counts a response nor sets `finished` or `stop`, and does not read the
clock. -/
theorem executeTask_frame :
    (executeTask c r s).setup = s.setup ∧ (executeTask c r s).receiver = s.receiver ∧
      s.sender <+: (executeTask c r s).sender ∧ (executeTask c r s).buffers = s.buffers ∧
      (executeTask c r s).recvd = s.recvd ∧ (executeTask c r s).finished = s.finished ∧
      (executeTask c r s).stop = s.stop ∧ (executeTask c r s).ticks = s.ticks := by
  cases hw : s.waiting with
  | nil => rw [executeTask_nil hw]; exact ⟨rfl, rfl, List.prefix_refl _, rfl, rfl, rfl, rfl, rfl⟩
  | cons m rest =>
    cases hr : r.state with
    | yielded => rw [executeTask_yielded hw hr]; exact ⟨rfl, rfl, List.prefix_refl _, rfl, rfl, rfl, rfl, rfl⟩
    | waiting =>
      rw [executeTask_waiting hw hr]; exact ⟨rfl, rfl, List.prefix_append _ _, rfl, rfl, rfl, rfl, rfl⟩
    | completed =>
      obtain ⟨_, _, _, _, he⟩ := @executeTask_completed c s r m rest hw hr
      rw [he]; exact ⟨rfl, rfl, List.prefix_refl _, rfl, rfl, rfl, rfl, rfl⟩

/-- No move of a run writes the setup. -/
theorem Step.setup (h : Step c s s') : s'.setup = s.setup := by
  cases h with
  | serve q p hq hp => rfl
  | execute env he =>
    obtain ⟨u, hu, he⟩ := bind_eq_ok.1 he
    obtain ⟨v, hv, he⟩ := bind_eq_ok.1 he
    cases he
    exact executeTask_frame.1.trans ((recv_frame hv).1.trans (send_frame hu).1)

theorem setup_of_steps (h : Relation.ReflTransGen (Step c) s s') : s'.setup = s.setup := by
  induction h with
  | refl => rfl
  | tail _ hst ih => exact (Step.setup hst).trans ih

theorem responses_of_steps (h : Relation.ReflTransGen (Step c) s s') :
    s'.responses = s.responses :=
  congrArg (fun x => x.2.2.2.1) (setup_of_steps h)

theorem native_of_steps (h : Relation.ReflTransGen (Step c) s s') : s'.native = s.native :=
  congrArg Prod.fst (setup_of_steps h)

theorem requests_of_steps (h : Relation.ReflTransGen (Step c) s s') :
    s'.requests = s.requests :=
  congrArg (fun x => x.2.2.2.2.1) (setup_of_steps h)

/-- Of an `execute`, only its `send` writes the buffers. -/
theorem execute_buffers {env : Env} (h : execute c env s = .ok s') :
    ∃ u, s.send = .ok u ∧ s'.buffers = u.buffers := by
  obtain ⟨u, hu, h⟩ := bind_eq_ok.1 h
  obtain ⟨v, hv, h⟩ := bind_eq_ok.1 h
  cases h
  exact ⟨u, hu, executeTask_frame.2.2.2.1.trans (recv_frame hv).2⟩

/-- No move of a run lowers the count of responses, and a move sets `finished` only once the
count has reached the target. -/
theorem Step.tally (h : Step c s s') :
    s.recvd ≤ s'.recvd ∧ (s'.finished = true → s.finished = true ∨ s'.responses ≤ s'.recvd) := by
  cases h with
  | serve q p hq hp => exact ⟨le_rfl, .inl⟩
  | execute env he =>
    obtain ⟨u, hu, he⟩ := bind_eq_ok.1 he
    obtain ⟨v, hv, he⟩ := bind_eq_ok.1 he
    cases he
    obtain ⟨hr, hf⟩ := send_tally hu
    obtain ⟨hr', hf'⟩ := recv_tally hv
    obtain ⟨hset, -, -, -, hr'', hf'', -⟩ := @executeTask_frame c v env.task
    rw [hr'', hf'', show (executeTask c env.task v).responses = v.responses from
      congrArg (fun x => x.2.2.2.1) hset]
    exact ⟨hr ▸ hr', fun h => (hf' h).imp_left (hf ▸ ·)⟩

end PushbackRecvSend

end Kayak
