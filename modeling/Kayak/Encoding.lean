import Kayak.Spec

/-!
# Request encoding

`send` does not build a request from scratch. `Pushback::abc` writes the key index,
little-endian, into the first four bytes of `key_buf`, a buffer `new` zero-filled once and
every later draw reuses; the invoke closures copy those four bytes into bytes `16..20` of
`payload_get` or `18..22` of `payload_put`, two payloads `new` laid out once. The comment in
`send` says why this is enough: only the first four bytes of a key matter.

This module compares that zero-copy code with a fresh encoder (`freshKey`,
`freshGetPayload`, `freshPutPayload`, `freshRequest`), written from the layout of the
spec: `"pushback"`, the table id as a `u64`, for a put the key length as a `u16`, the key as
`LE32(k)` and zeros, for a put the zero value.

**`send_encodes_fresh`**: in every run from `new` with `key_len ≥ 4` and `n_keys < 2^32`,
each call of `send` hands the sender, for its `i`-th operation, exactly the fresh encoding of
that operation's draw, stamped with the `i`-th clock reading of the call; in invoke mode
`add_request` files the same payload under the same stamp; and the first four bytes of a
fresh key decode back to the key index. The invariant behind it is `Buffers`: the three
buffers always hold a fresh encoding of some key index, so no byte of an earlier draw
survives outside the four bytes the next draw overwrites.
-/

namespace Kayak.PushbackRecvSend

open Relation

variable {c : Consts} {s s' u : PushbackRecvSend} {keyLen valueLen : ℕ}

/-! ### The fresh encoder -/

/-- The bytes of the extension name `"pushback"`. -/
def extensionName : List UInt8 := "pushback".toList.map (fun c => c.toNat.toUInt8)

@[simp] theorem length_extensionName : extensionName.length = 8 := rfl

/-- A key built for key index `k`: `LE32(k)`, then zeros up to `keyLen` bytes. -/
def freshKey (keyLen k : ℕ) : List UInt8 := leBytes 4 k ++ zeros (keyLen - 4)

/-- An invoke get payload built for key index `k`: `"pushback" ++ LE64(1) ++ key`. -/
def freshGetPayload (keyLen k : ℕ) : List UInt8 :=
  extensionName ++ leBytes 8 1 ++ freshKey keyLen k

/-- An invoke put payload built for key index `k`:
`"pushback" ++ LE64(1) ++ LE16(keyLen) ++ key ++ zeros(valueLen)`. -/
def freshPutPayload (keyLen valueLen k : ℕ) : List UInt8 :=
  extensionName ++ leBytes 8 1 ++ leBytes 2 keyLen ++ freshKey keyLen k ++ zeros valueLen

/-- The request a fresh encoder builds for one operation: its mode and kind, tenant, key
index and stamp. -/
def freshRequest (keyLen valueLen : ℕ) (native isGet : Bool) (tenant k stamp : ℕ) : Request :=
  if native then
    if isGet then .get tenant 1 (freshKey keyLen k) stamp
    else .put tenant 1 (freshKey keyLen k) (zeros valueLen) stamp
  else
    .invoke tenant 8
      (if isGet then freshGetPayload keyLen k else freshPutPayload keyLen valueLen k) stamp

/-- The fresh encoding of the `i`-th operation of a `send` started at `s`: the workload's
draw `drawn + i`, stamped with the clock reading `ticks + i`. -/
def freshOp (keyLen valueLen : ℕ) (s : PushbackRecvSend) (i : ℕ) : Request :=
  let w := { s.workload with drawn := s.workload.drawn + i }
  freshRequest keyLen valueLen s.native w.isGet (asU32 (w.tenantRng.sample w.drawn))
    (w.keyRng.sample w.drawn) (s.clock.read (s.ticks + i))

/-- A fresh key decodes, little-endian, back to its key index. -/
theorem fromLE_take_freshKey {k : ℕ} (h : k < 2 ^ 32) :
    fromLE ((freshKey keyLen k).take 4) = k := by
  rw [freshKey, List.take_left' (length_leBytes 4 k), fromLE_leBytes]
  exact Nat.mod_eq_of_lt h

theorem length_freshKey (h : 4 ≤ keyLen) (k : ℕ) : (freshKey keyLen k).length = keyLen := by
  simp [freshKey]; omega

theorem take_freshKey (k : ℕ) : (freshKey keyLen k).take 4 = leBytes 4 k :=
  List.take_left' (length_leBytes 4 k)

theorem drop_freshKey (k : ℕ) : (freshKey keyLen k).drop 4 = zeros (keyLen - 4) :=
  List.drop_left' (length_leBytes 4 k)

/-- Overwriting the four bytes that follow a prefix of length `lo`. -/
theorem write_four {A R K : List UInt8} {lo : ℕ} (hA : A.length = lo) :
    (A ++ R).take lo ++ K ++ (A ++ R).drop (lo + 4) = A ++ (K ++ R.drop 4) := by
  subst hA
  simp [List.drop_append_eq_append_drop, List.drop_eq_nil_of_le]

/-- Writing a key's first four bytes at offset 16 of a get payload gives the payload of
that key. -/
theorem write_freshGetPayload (k₀ k : ℕ) :
    (freshGetPayload keyLen k₀).take 16 ++ (freshKey keyLen k).take 4 ++
      (freshGetPayload keyLen k₀).drop (16 + 4) = freshGetPayload keyLen k := by
  rw [freshGetPayload, write_four (show (extensionName ++ leBytes 8 1).length = 16 from rfl),
    take_freshKey, drop_freshKey]
  rfl

/-- Writing a key's first four bytes at offset 18 of a put payload gives the payload of
that key. -/
theorem write_freshPutPayload (k₀ k : ℕ) :
    (freshPutPayload keyLen valueLen k₀).take 18 ++ (freshKey keyLen k).take 4 ++
      (freshPutPayload keyLen valueLen k₀).drop (18 + 4) = freshPutPayload keyLen valueLen k := by
  rw [freshPutPayload, List.append_assoc _ (freshKey keyLen k₀),
    write_four (show (extensionName ++ leBytes 8 1 ++ leBytes 2 keyLen).length = 18 by simp),
    List.drop_append_of_le_length (by simp [freshKey]), take_freshKey, drop_freshKey]
  simp [freshKey, freshPutPayload]

/-! ### Sending on long enough buffers -/

/-- `add_request` as one update: the insert, and the log line when it replaces an entry. -/
theorem addRequest_eq (req : List UInt8) (tenant n id : ℕ) :
    s.addRequest req tenant n id = { s with
      manager := s.manager.insert id (TaskManager.new req tenant n id)
      log := s.log ++ if id ∈ s.manager then [.alreadyPresent] else [] } := by
  unfold addRequest; split <;> simp_all

/-- An invoke closure on a key and a payload long enough for its copy. -/
theorem invokeOp_eq {payload key : List UInt8} {lo tenant curr : ℕ} (hk : 4 ≤ key.length)
    (hp : lo + 4 ≤ payload.length) :
    let p := payload.take lo ++ key.take 4 ++ payload.drop (lo + 4)
    s.invokeOp payload lo tenant key curr =
      .ok (p, (s.addRequest p tenant 8 curr).transmit (.invoke tenant 8 p curr)) := by
  have hc : copyFromSlice payload lo (lo + 4) (key.take 4) =
      .ok (payload.take lo ++ key.take 4 ++ payload.drop (lo + 4)) :=
    copyFromSlice_of_le (Nat.le_add_right lo 4) hp (by simp; omega)
  simp only [invokeOp, slice_of_le (Nat.zero_le 4) hk, List.drop_zero, Nat.sub_zero, ok_bind, hc]
  rfl

theorem Pushback.call_of_isGet {w : Pushback} (h : w.isGet = true) :
    w.call = .get (asU32 (w.tenantRng.sample w.drawn)) w.key := by simp [Pushback.call, h]

theorem Pushback.call_of_not_isGet {w : Pushback} (h : w.isGet = false) :
    w.call = .put (asU32 (w.tenantRng.sample w.drawn)) w.key w.valueBuf := by
  simp [Pushback.call, h]

/-- The invoke branch of the loop, when the key buffer and both payloads are long enough. -/
theorem sendInvoke_eq {curr : ℕ} (h4 : 4 ≤ s.workload.keyBuf.length)
    (hg : 16 + 4 ≤ s.payloadGet.length) (hp : 18 + 4 ≤ s.payloadPut.length) :
    let tenant := asU32 (s.workload.tenantRng.sample s.workload.drawn)
    let p := if s.workload.isGet
      then s.payloadGet.take 16 ++ s.workload.key.take 4 ++ s.payloadGet.drop (16 + 4)
      else s.payloadPut.take 18 ++ s.workload.key.take 4 ++ s.payloadPut.drop (18 + 4)
    s.sendInvoke curr = .ok { s with
      workload := s.workload.next
      payloadGet := if s.workload.isGet then p else s.payloadGet
      payloadPut := if s.workload.isGet then s.payloadPut else p
      manager := s.manager.insert curr (TaskManager.new p tenant 8 curr)
      log := s.log ++ if curr ∈ s.manager then [.alreadyPresent] else []
      sender := s.sender ++ [.invoke tenant 8 p curr]
      wire := s.wire ++ [.invoke tenant 8 p curr]
      outstanding := s.outstanding + 1 } := by
  have hk : 4 ≤ s.workload.key.length := by simp [Pushback.key]
  cases hi : s.workload.isGet
  · simp only [sendInvoke, Pushback.abc_eq _ h4, ok_bind, Pushback.call_of_not_isGet hi,
      invokeOp_eq hk hp, addRequest_eq, hi, Bool.false_eq_true, ↓reduceIte]
    rfl
  · simp only [sendInvoke, Pushback.abc_eq _ h4, ok_bind, Pushback.call_of_isGet hi,
      invokeOp_eq hk hg, addRequest_eq, hi, ↓reduceIte]
    rfl

/-- One iteration of the loop draws once and reads the clock once. -/
theorem sendOne_advance (h : s.sendOne = .ok s') :
    s'.workload = s.workload.next ∧ s'.ticks = s.ticks + 1 := by
  cases hn : s.native
  · obtain ⟨_, _, _, _, rfl⟩ := sendOne_invoke hn h; exact ⟨rfl, rfl⟩
  · obtain ⟨-, rfl⟩ := sendOne_native hn h; exact ⟨rfl, rfl⟩

/-! ### The buffers hold fresh encodings -/

/-- What `send`'s buffers hold between draws: the key buffer a fresh key, the value buffer
zeros, each invoke payload the fresh payload of some key index; and every key index fits in
a `u32`. -/
structure Buffers (keyLen valueLen : ℕ) (s : PushbackRecvSend) : Prop where
  keyRng : s.workload.keyRng.n < 2 ^ 32
  keyBuf : ∃ k, s.workload.keyBuf = freshKey keyLen k
  valueBuf : s.workload.valueBuf = zeros valueLen
  payloadGet : ∃ k, s.payloadGet = freshGetPayload keyLen k
  payloadPut : ∃ k, s.payloadPut = freshPutPayload keyLen valueLen k

theorem freshKey_zero (hk : 4 ≤ keyLen) : freshKey keyLen 0 = zeros keyLen := by
  rw [freshKey, show leBytes 4 0 = zeros 4 from rfl, zeros, zeros, ← List.replicate_add]
  congr 1; omega

theorem Buffers.new {resps reqs : ℕ} {master : Bool} {config : ClientConfig} {clock : Tsc}
    {rng : ℕ → UInt32} {keyRng tenantRng : Zipf} (hk : 4 ≤ config.keyLen)
    (hn : keyRng.n < 2 ^ 32) :
    Buffers config.keyLen config.valueLen
      (new resps master config reqs clock rng keyRng tenantRng) where
  keyRng := hn
  keyBuf := ⟨0, (freshKey_zero hk).symm⟩
  valueBuf := rfl
  payloadGet := ⟨0, by rw [freshGetPayload, freshKey_zero hk]; rfl⟩
  payloadPut := ⟨0, by
    rw [freshPutPayload, freshKey_zero hk, List.append_assoc, zeros, zeros, ← List.replicate_add]
    rfl⟩

/-- The buffers are all `Buffers` reads. -/
theorem Buffers.of_buffers (hb : Buffers keyLen valueLen s) (h : s'.buffers = s.buffers) :
    Buffers keyLen valueLen s' := by
  simp only [buffers, Prod.mk.injEq] at h
  obtain ⟨hw, hg, hp, -⟩ := h
  exact ⟨hw ▸ hb.keyRng, hw ▸ hb.keyBuf, hw ▸ hb.valueBuf, hg ▸ hb.payloadGet, hp ▸ hb.payloadPut⟩

/-- With a fresh key buffer, the key `abc` hands to its closures is the fresh key of the
draw. -/
theorem Buffers.key (hb : Buffers keyLen valueLen s) :
    s.workload.key = freshKey keyLen (s.workload.keyRng.sample s.workload.drawn) := by
  obtain ⟨k, hk⟩ := hb.keyBuf
  rw [Pushback.key, hk, drop_freshKey,
    asU32_of_lt ((s.workload.keyRng.sample_le _).trans_lt hb.keyRng)]
  rfl

/-- Fresh buffers are long enough for every copy of `abc` and `send`. -/
theorem Buffers.long (hk : 4 ≤ keyLen) (hb : Buffers keyLen valueLen s) :
    4 ≤ s.workload.keyBuf.length ∧ 16 + 4 ≤ s.payloadGet.length ∧ 18 + 4 ≤ s.payloadPut.length := by
  obtain ⟨k, hk'⟩ := hb.keyBuf
  obtain ⟨kg, hg⟩ := hb.payloadGet
  obtain ⟨kp, hp⟩ := hb.payloadPut
  simp only [hk', hg, hp, freshGetPayload, freshPutPayload, List.length_append,
    length_freshKey hk, length_extensionName, length_leBytes, length_zeros]
  omega

theorem freshOp_zero (s : PushbackRecvSend) :
    freshOp keyLen valueLen s 0 = freshRequest keyLen valueLen s.native s.workload.isGet
      (asU32 (s.workload.tenantRng.sample s.workload.drawn))
      (s.workload.keyRng.sample s.workload.drawn) (s.clock.read s.ticks) := rfl

/-- The operations after the first are those of a `send` started one draw and one clock
reading later. -/
theorem freshOp_succ (hw : u.workload = s.workload.next) (ht : u.ticks = s.ticks + 1)
    (hs : u.setup = s.setup) (i : ℕ) :
    freshOp keyLen valueLen u i = freshOp keyLen valueLen s (i + 1) := by
  simp only [setup, Prod.mk.injEq] at hs
  have hd : s.workload.drawn + 1 + i = s.workload.drawn + (i + 1) := by omega
  have hr : s.ticks + 1 + i = s.ticks + (i + 1) := by omega
  simp only [freshOp, hw, ht, hs.1, hs.2.1, Pushback.next, Pushback.isGet, hd, hr]

/-- A fresh request's stamp is the one it was built with. -/
theorem stamp_of_freshRequest {native isGet : Bool} {tenant k stamp t n st : ℕ}
    {p : List UInt8}
    (h : freshRequest keyLen valueLen native isGet tenant k stamp = .invoke t n p st) :
    st = stamp := by
  unfold freshRequest at h
  split at h
  · split at h <;> cases h
  · cases h; rfl

/-! ### Sending -/

/-- One iteration of the loop on fresh buffers: the buffers stay fresh, the sender gets the
fresh encoding of the draw, and in invoke mode `add_request` files its payload under its
stamp; no other entry of `manager` changes. -/
theorem Buffers.sendOne (hk : 4 ≤ keyLen) (hb : Buffers keyLen valueLen s)
    (h : s.sendOne = .ok s') :
    Buffers keyLen valueLen s' ∧ s'.sender = s.sender ++ [freshOp keyLen valueLen s 0] ∧
      (∀ x, x ≠ s.clock.read s.ticks → s'.manager.lookup x = s.manager.lookup x) ∧
      ∀ t p st, freshOp keyLen valueLen s 0 = .invoke t 8 p st →
        s'.manager.lookup st = some (TaskManager.new p t 8 st) := by
  have hkey := hb.key
  obtain ⟨h4, hg4, hp4⟩ := hb.long hk
  obtain ⟨kg, hg⟩ := hb.payloadGet
  obtain ⟨kp, hp⟩ := hb.payloadPut
  cases hn : s.native
  · obtain ⟨u, hu, rfl⟩ := sendOne_ok h
    rw [if_neg (by simp [hn]), @sendInvoke_eq { s with ticks := s.ticks + 1 } _ h4 hg4 hp4] at hu
    cases hu
    refine ⟨⟨hb.keyRng, ⟨_, hkey⟩, hb.valueBuf, ?_, ?_⟩, ?_, fun x hx => AList.lookup_insert_ne hx,
      ?_⟩ <;>
    cases hi : s.workload.isGet <;>
    simp only [hi, hkey, hg, hp, write_freshGetPayload, write_freshPutPayload] <;>
    simp [hi, freshOp_zero, freshRequest, hn]
  · obtain ⟨-, rfl⟩ := sendOne_native hn h
    refine ⟨⟨hb.keyRng, ⟨_, hkey⟩, hb.valueBuf, ⟨kg, hg⟩, ⟨kp, hp⟩⟩, ?_, fun _ _ => rfl, ?_⟩ <;>
    cases hi : s.workload.isGet <;>
    simp [hi, hkey, hb.valueBuf, Pushback.call_of_isGet, Pushback.call_of_not_isGet,
      nativeRequest, freshOp_zero, freshRequest, hn]

/-- A run of `send`'s loop from `s` to `s'` that issued `n` operations, each the fresh
encoding of its draw. -/
structure SentFresh (keyLen valueLen : ℕ) (s s' : PushbackRecvSend) (n : ℕ) : Prop where
  /-- `n` draws of the workload, -/
  drawn : s'.workload.drawn = s.workload.drawn + n
  /-- `n` readings of the clock, -/
  ticks : s'.ticks = s.ticks + n
  /-- and the sender got the fresh encodings of the `n` operations, in order. -/
  sender : s'.sender = s.sender ++ (List.range n).map (freshOp keyLen valueLen s)
  /-- The tasks filed before the first stamp are untouched, -/
  older : ∀ x < s.clock.read s.ticks, s'.manager.lookup x = s.manager.lookup x
  /-- and `add_request` filed each invoke's own payload under its stamp. -/
  filed : ∀ i < n, ∀ t p st, freshOp keyLen valueLen s i = .invoke t 8 p st →
    s'.manager.lookup st = some (TaskManager.new p t 8 st)

theorem SentFresh.refl (s : PushbackRecvSend) : SentFresh keyLen valueLen s s 0 :=
  ⟨rfl, rfl, by simp, fun _ _ => rfl, fun i hi => absurd hi (Nat.not_lt_zero i)⟩

/-- One more iteration in front of a run of the loop. -/
theorem SentFresh.cons (hk : 4 ≤ keyLen) (hb : Buffers keyLen valueLen s)
    (hu : s.sendOne = .ok u) {n : ℕ} (h : SentFresh keyLen valueLen u s' n) :
    SentFresh keyLen valueLen s s' (n + 1) := by
  obtain ⟨-, hsend, hother, hnew⟩ := hb.sendOne hk hu
  obtain ⟨hw, ht⟩ := sendOne_advance hu
  have hsu := (sendOne_frame hu).1
  have hlt : s.clock.read s.ticks < u.clock.read u.ticks := by
    simp only [setup, Prod.mk.injEq] at hsu
    rw [hsu.2.1, ht]
    exact s.clock.read_lt_succ _
  refine ⟨by rw [h.drawn, hw]; simp only [Pushback.next]; omega, by rw [h.ticks, ht]; omega, ?_,
    fun x hx => by rw [h.older x (hx.trans hlt), hother x hx.ne], ?_⟩
  · rw [h.sender, hsend, List.range_succ_eq_map]
    simp [freshOp_succ hw ht hsu]
  · rintro (_ | i) hi t p st hq
    · rw [h.older st (stamp_of_freshRequest hq ▸ hlt), hnew t p st hq]
    · exact h.filed i (by omega) t p st (by rw [freshOp_succ hw ht hsu]; exact hq)

theorem Buffers.sendLoop (hk : 4 ≤ keyLen) {fuel : ℕ} (hb : Buffers keyLen valueLen s)
    (h : sendLoop fuel s = .ok s') :
    Buffers keyLen valueLen s' ∧ ∃ n, SentFresh keyLen valueLen s s' n := by
  induction fuel generalizing s with
  | zero => cases h; exact ⟨hb, 0, .refl _⟩
  | succ fuel ih =>
    rw [sendLoop] at h
    split at h
    · obtain ⟨u, hu, h⟩ := bind_eq_ok.1 h
      obtain ⟨hb', n, hn⟩ := ih (hb.sendOne hk hu).1 h
      exact ⟨hb', n + 1, hn.cons hk hb hu⟩
    · cases h; exact ⟨hb, 0, .refl _⟩

theorem Buffers.send (hk : 4 ≤ keyLen) (hb : Buffers keyLen valueLen s) (h : s.send = .ok s') :
    Buffers keyLen valueLen s' ∧ ∃ n, SentFresh keyLen valueLen s s' n := by
  rw [PushbackRecvSend.send] at h
  split at h
  · cases h; exact ⟨hb, 0, .refl _⟩
  · exact hb.sendLoop hk h

/-! ### Runs -/

theorem Buffers.step (hk : 4 ≤ keyLen) (hb : Buffers keyLen valueLen s) (h : Step c s s') :
    Buffers keyLen valueLen s' := by
  cases h with
  | serve q p _ _ => exact hb.of_buffers rfl
  | execute env he =>
    obtain ⟨u, hu, hbu⟩ := execute_buffers he
    exact (hb.send hk hu).1.of_buffers hbu

theorem Buffers.run (hk : 4 ≤ keyLen) (hb : Buffers keyLen valueLen s)
    (h : ReflTransGen (Step c) s s') : Buffers keyLen valueLen s' := by
  induction h with
  | refl => exact hb
  | tail _ hst ih => exact ih.step hk hst

/-- In every run from `new` with `key_len ≥ 4` and `n_keys < 2^32`, a call of `send` issues
the fresh encodings of its operations, `add_request` files each invoke's own payload, and a
fresh key decodes back to its key index. -/
theorem send_encodes_fresh {resps reqs : ℕ} {master : Bool} {config : ClientConfig}
    {clock : Tsc} {rng : ℕ → UInt32} {keyRng tenantRng : Zipf} (hk : 4 ≤ config.keyLen)
    (hn : keyRng.n < 2 ^ 32)
    (hs : ReflTransGen (Step c) (new resps master config reqs clock rng keyRng tenantRng) s)
    (h : s.send = .ok s') :
    (∃ n, SentFresh config.keyLen config.valueLen s s' n) ∧
      ∀ j, fromLE ((freshKey config.keyLen (s.workload.keyRng.sample j)).take 4) =
        s.workload.keyRng.sample j := by
  have hb := (Buffers.new hk hn).run hk hs
  exact ⟨(hb.send hk h).2, fun j =>
    fromLE_take_freshKey ((s.workload.keyRng.sample_le j).trans_lt hb.keyRng)⟩

/-- The `send` after `okRun` from `keyedShot`, whose keys cycle through 8: it issues one
invoke, whose key is written over the different key of the invoke before it. -/
theorem send_encodes_fresh_sample : ∃ s', keyed.send = .ok s' ∧
    (∃ n, SentFresh 4 4 keyed s' n) ∧
      ∀ j, fromLE ((freshKey 4 (keyed.workload.keyRng.sample j)).take 4) =
        keyed.workload.keyRng.sample j := by
  have hok : keyed.send.isOk = true := by decide
  cases h : keyed.send with
  | error e => rw [h] at hok; cases hok
  | ok s' => exact ⟨s', rfl, send_encodes_fresh (by decide) (by decide) keyed_steps h⟩

end Kayak.PushbackRecvSend
