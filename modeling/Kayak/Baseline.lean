import Kayak.Machine

/-!
# The baseline client's request frames

`db/src/bin/client/main.rs` is the open-loop client the pushback client is measured against:
a `RequestGenerator` that NetBricks runs again and again, each time building one request
frame and sending it. This module models how a frame is built.

`create_request` takes a packet buffer from NetBricks and pushes the MAC, IP and UDP headers
`new` prepared, whose length fields hold the placeholders `20` and `8`. `create_get_request`
and `create_invoke_request` check their arguments, push the RPC header, append the key or
the payload, and call `fixup_header_length_fields`, which sets the UDP length to
`(8 + payload) as u16` and the IP total length to `20u16 + udp_len`. A push that finds no
room in the buffer returns an `Err`, which the builders `expect`. The buffer is an input:
`new_packet()` returns a DPDK mbuf, whose length is a `u16`, so `alloc` is the room it offers
as a `UInt16`, or `none` when the allocation fails.

**`lengthsExact_fixup`**: the fixed-up fields are exact (`LengthsExact`) exactly when the
IP datagram is shorter than `2^16` bytes. The builders' guards do not ensure this:
`create_get_request` admits keys of up to `65535` bytes, `create_invoke_request` bounds the
two length arguments and not the payload. The buffer does: a frame it holds is shorter than
`2^16` bytes. **`request_lengths_exact`**: for every buffer and every argument, a frame the
builders return has exact length fields, the `u16` addition never panics, and each builder
returns exactly when the buffer holds the frame; otherwise it panics at a guard or at one of
its `expect`s. So the frame `generate_request` builds is exact whenever it is built
(`generateRequest_spec`).

The RPC headers follow the wire format's layout: the common header
`{opcode: u8, tenant: u32, stamp: u64}`, then `{table_id: u64, key_len: u16}` for a get and
`{name_len: u32, args_len: u32}` for an invoke.
-/

namespace Kayak.RequestGenerator

/-- Why the request generator stops. -/
inductive BuildPanic where
  /-- `panic!("Key too long ({} bytes).", key.len())`. -/
  | keyTooLong (len : ℕ)
  /-- `panic!("Name too long ({} bytes).", name_len)`. -/
  | nameTooLong (len : ℕ)
  /-- `panic!("Args too long ({} bytes).", args_len)`. -/
  | argsTooLong (len : ℕ)
  /-- `r.expect(msg)` on an `Err`: no packet buffer, or no room in it. -/
  | expect (msg : String)
  /-- `attempt to add with overflow`. -/
  | addOverflow
  deriving DecidableEq, Repr

/-! ### `u16` fields -/

/-- `n as u16`. -/
def asU16 (n : ℕ) : Fin (2 ^ 16) := ⟨n % 2 ^ 16, Nat.mod_lt _ (by decide)⟩

/-- `a + b` on `u16`. -/
def addU16 (a b : Fin (2 ^ 16)) : Except BuildPanic (Fin (2 ^ 16)) :=
  if h : a.val + b.val < 2 ^ 16 then .ok ⟨a.val + b.val, h⟩ else .error .addOverflow

@[simp] theorem val_asU16 (n : ℕ) : (asU16 n).val = n % 2 ^ 16 := rfl

/-! ### Frames -/

/-- `size_of::<MacHeader>()`. -/
def macHeaderSize : ℕ := 14

/-- `size_of::<IpHeader>()`: IPv4 without options. -/
def ipHeaderSize : ℕ := 20

/-- `size_of::<UdpHeader>()`. -/
def udpHeaderSize : ℕ := 8

/-- The RPC header a builder pushes after the UDP header. -/
inductive RpcHeader where
  /-- `GetRequest::new(tenant, table_id, key_len)`. -/
  | get (tenant tableId : ℕ) (keyLength : Fin (2 ^ 16))
  /-- `InvokeRequest::new(tenant, name_len, args_len)`. -/
  | invoke (tenant nameLength argsLength : ℕ)
  deriving DecidableEq, Repr

/-- `size_of` the RPC header. -/
def RpcHeader.size : RpcHeader → ℕ
  | .get .. => 1 + 4 + 8 + 8 + 2
  | .invoke .. => 1 + 4 + 8 + 4 + 4

/-- A request frame under construction: the room left in the packet buffer, the IP and UDP
length fields, and what follows the UDP header. -/
structure Frame where
  /-- The bytes the packet buffer can still take. -/
  room : ℕ
  /-- The IP header's total-length field. -/
  ipLength : Fin (2 ^ 16)
  /-- The UDP header's length field. -/
  udpLength : Fin (2 ^ 16)
  /-- The RPC header, once pushed. -/
  rpc : Option RpcHeader
  /-- The bytes appended after the RPC header. -/
  tail : List UInt8
  deriving DecidableEq, Repr

/-- `get_payload().len()` of the frame's UDP view: the bytes after the UDP header. -/
def Frame.payloadLength (f : Frame) : ℕ := (f.rpc.map RpcHeader.size).getD 0 + f.tail.length

/-- The length fields say what the frame holds: the UDP length counts the UDP header and what
follows it, the IP total length the IP header and the UDP datagram. -/
def LengthsExact (f : Frame) : Prop :=
  f.udpLength.val = udpHeaderSize + f.payloadLength ∧
    f.ipLength.val = ipHeaderSize + udpHeaderSize + f.payloadLength

instance : DecidablePred LengthsExact := fun _ => inferInstanceAs (Decidable (_ ∧ _))

/-! ### The builders -/

/-- `push_header` or `add_to_payload_tail` of `n` bytes, then `expect(msg)`: NetBricks
returns an `Err` when the buffer has less room. -/
def reserve (f : Frame) (n : ℕ) (msg : String) : Except BuildPanic Frame :=
  if n ≤ f.room then .ok { f with room := f.room - n } else .error (.expect msg)

/-- `create_request`: a packet buffer, then the MAC, IP and UDP headers `new` built. -/
def createRequest : Option UInt16 → Except BuildPanic Frame
  | none => .error (.expect "Failed to allocate packet for request!")
  | some room => do
    let f ← reserve ⟨room.toNat, ⟨20, by decide⟩, ⟨8, by decide⟩, none, []⟩
      macHeaderSize "Failed to push MAC header into request!"
    let f ← reserve f ipHeaderSize "Failed to push IP header into request!"
    reserve f udpHeaderSize "Failed to push UDP header into request!"

/-- `push_header(&header).expect("Failed to push RPC header into request!")`. -/
def pushHeader (f : Frame) (h : RpcHeader) : Except BuildPanic Frame := do
  let f ← reserve f h.size "Failed to push RPC header into request!"
  pure { f with rpc := some h }

/-- `add_to_payload_tail(data.len(), &data).expect(msg)`. -/
def addToPayloadTail (f : Frame) (data : List UInt8) (msg : String) : Except BuildPanic Frame := do
  let f ← reserve f data.length msg
  pure { f with tail := f.tail ++ data }

/-- `fixup_header_length_fields`, on the frame's UDP view and then its IP view. -/
def fixupHeaderLengthFields (f : Frame) : Except BuildPanic Frame := do
  let udpLen := asU16 (udpHeaderSize + f.payloadLength)
  let ipLen ← addU16 (asU16 ipHeaderSize) udpLen
  pure { f with udpLength := udpLen, ipLength := ipLen }

/-- What `create_get_request` and `create_invoke_request` do once their guards pass:
`create_request`, the RPC header, the bytes after it, `fixup_header_length_fields`. -/
def buildRequest (alloc : Option UInt16) (h : RpcHeader) (data : List UInt8) (msg : String) :
    Except BuildPanic Frame := do
  let f ← createRequest alloc
  let f ← pushHeader f h
  let f ← addToPayloadTail f data msg
  fixupHeaderLengthFields f

/-- `create_get_request`. -/
def createGetRequest (alloc : Option UInt16) (tenant tableId : ℕ) (key : List UInt8) :
    Except BuildPanic Frame :=
  if key.length > 65535 then .error (.keyTooLong key.length)
  else buildRequest alloc (.get tenant tableId (asU16 key.length)) key
    "Failed to write key into get() request!"

/-- `create_invoke_request`. -/
def createInvokeRequest (alloc : Option UInt16) (tenant nameLen argsLen : ℕ)
    (payload : List UInt8) : Except BuildPanic Frame :=
  if nameLen > 2 ^ 32 - 1 then .error (.nameTooLong nameLen)
  else if argsLen > 2 ^ 32 - 1 then .error (.argsTooLong argsLen)
  else buildRequest alloc (.invoke tenant (asU32 nameLen) (asU32 argsLen)) payload
    "Failed to write args into invoke() request!"

/-- The extension name `"get"` that `generate_request` invokes. -/
def getName : List UInt8 := "get".toList.map fun c => c.toNat.toUInt8

/-- `generate_request`'s frame for tenant 1: an invoke of `get` on table 1 with a 30-byte
zero key, or a get of that key. -/
def generateRequest (useInvoke : Bool) (alloc : Option UInt16) : Except BuildPanic Frame :=
  if useInvoke then
    let payload := getName ++ [1, 0, 0, 0, 0, 0, 0, 0] ++ zeros 30
    createInvokeRequest alloc 1 getName.length (payload.length - getName.length) payload
  else createGetRequest alloc 1 1 (zeros 30)


/-! ### Pushes -/

variable {f f' : Frame} {h : RpcHeader} {data : List UInt8} {msg : String}
  {alloc : Option UInt16} {room : UInt16} {n : ℕ}

theorem reserve_of_le (hn : n ≤ f.room) : reserve f n msg = .ok { f with room := f.room - n } :=
  if_pos hn

theorem reserve_of_lt (hn : f.room < n) : reserve f n msg = .error (.expect msg) :=
  if_neg (Nat.not_le.2 hn)

/-! ### `fixup_header_length_fields` -/

/-- A fixed-up frame holds the same bytes; its UDP length is their count cast to `u16`, its IP
length `20` more. -/
theorem fixupHeaderLengthFields_ok (hf : fixupHeaderLengthFields f = .ok f') :
    f'.payloadLength = f.payloadLength ∧ f'.udpLength.val = (8 + f.payloadLength) % 2 ^ 16 ∧
      f'.ipLength.val = 20 + (8 + f.payloadLength) % 2 ^ 16 := by
  unfold fixupHeaderLengthFields addU16 at hf
  dsimp only at hf
  split at hf <;> cases hf
  exact ⟨rfl, rfl, rfl⟩

/-- It returns while the IP length stays in `u16`. -/
theorem fixupHeaderLengthFields_exists (hp : 20 + (8 + f.payloadLength) % 2 ^ 16 < 2 ^ 16) :
    ∃ f', fixupHeaderLengthFields f = .ok f' := by
  unfold fixupHeaderLengthFields addU16
  dsimp only
  rw [dif_pos (show (asU16 ipHeaderSize).val + (asU16 (udpHeaderSize + f.payloadLength)).val <
    2 ^ 16 from hp)]
  exact ⟨_, rfl⟩

/-- The fixed-up fields are exact exactly when the IP datagram is shorter than `2^16` bytes. -/
theorem lengthsExact_fixup (hf : fixupHeaderLengthFields f = .ok f') :
    LengthsExact f' ↔ 28 + f.payloadLength < 2 ^ 16 := by
  obtain ⟨hp, hu, hi⟩ := fixupHeaderLengthFields_ok hf
  have := f'.ipLength.isLt
  simp only [LengthsExact, hp, hu, hi, udpHeaderSize, ipHeaderSize] at this ⊢
  omega

theorem exists_fixup_lengthsExact :
    (∃ f', fixupHeaderLengthFields f = .ok f' ∧ LengthsExact f') ↔
      28 + f.payloadLength < 2 ^ 16 := by
  refine ⟨fun ⟨_, hf, he⟩ => (lengthsExact_fixup hf).1 he, fun hp => ?_⟩
  obtain ⟨f', hf⟩ : ∃ f', fixupHeaderLengthFields f = .ok f' :=
    fixupHeaderLengthFields_exists (by omega)
  exact ⟨f', hf, (lengthsExact_fixup hf).2 hp⟩

/-! ### The common builder -/

/-- The frame `create_request` hands on: the three headers taken from the buffer, the
placeholders in the length fields. -/
theorem createRequest_of_le (hr : 42 ≤ room.toNat) :
    createRequest (some room) =
      .ok ⟨room.toNat - 42, ⟨20, by decide⟩, ⟨8, by decide⟩, none, []⟩ := by
  simp only [createRequest, reserve, macHeaderSize, ipHeaderSize, udpHeaderSize,
    if_pos (show 14 ≤ room.toNat by omega), if_pos (show 20 ≤ room.toNat - 14 by omega),
    if_pos (show 8 ≤ room.toNat - 14 - 20 by omega), ok_bind]
  congr 2

theorem createRequest_of_lt (hr : room.toNat < 42) :
    ∃ m, createRequest (some room) = .error (.expect m) := by
  simp only [createRequest, reserve, macHeaderSize, ipHeaderSize, udpHeaderSize]
  split
  · rw [ok_bind]; split
    · rw [ok_bind, if_neg (by dsimp only at *; omega)]; exact ⟨_, rfl⟩
    · exact ⟨_, rfl⟩
  · exact ⟨_, rfl⟩

theorem pushHeader_of_le (hn : h.size ≤ f.room) :
    pushHeader f h = .ok { f with room := f.room - h.size, rpc := some h } := by
  rw [pushHeader, reserve_of_le hn]; rfl

theorem pushHeader_of_lt (hn : f.room < h.size) :
    pushHeader f h = .error (.expect "Failed to push RPC header into request!") := by
  rw [pushHeader, reserve_of_lt hn]; rfl

theorem addToPayloadTail_of_le (hn : data.length ≤ f.room) :
    addToPayloadTail f data msg =
      .ok { f with room := f.room - data.length, tail := f.tail ++ data } := by
  rw [addToPayloadTail, reserve_of_le hn]; rfl

theorem addToPayloadTail_of_lt (hn : f.room < data.length) :
    addToPayloadTail f data msg = .error (.expect msg) := by
  rw [addToPayloadTail, reserve_of_lt hn]; rfl

/-- With room for the headers and the data, the builder fixes up the frame holding them. -/
theorem buildRequest_of_le (hr : 42 + h.size + data.length ≤ room.toNat) :
    buildRequest (some room) h data msg = fixupHeaderLengthFields
      ⟨room.toNat - (42 + h.size + data.length), ⟨20, by decide⟩, ⟨8, by decide⟩, some h,
        data⟩ := by
  rw [buildRequest, createRequest_of_le (by omega), ok_bind,
    pushHeader_of_le (show h.size ≤ room.toNat - 42 by omega), ok_bind,
    addToPayloadTail_of_le (show data.length ≤ room.toNat - 42 - h.size by omega), ok_bind]
  congr 2
  dsimp only
  omega

/-- Without room for them, it panics in an `expect`. -/
theorem buildRequest_of_lt (hr : room.toNat < 42 + h.size + data.length) :
    ∃ m, buildRequest (some room) h data msg = .error (.expect m) := by
  rw [buildRequest]
  by_cases h42 : 42 ≤ room.toNat
  · rw [createRequest_of_le h42, ok_bind]
    by_cases hh : h.size ≤ room.toNat - 42
    · rw [pushHeader_of_le hh, ok_bind,
        addToPayloadTail_of_lt (show room.toNat - 42 - h.size < data.length by omega)]
      exact ⟨msg, rfl⟩
    · rw [pushHeader_of_lt (show room.toNat - 42 < h.size by omega)]
      exact ⟨_, rfl⟩
  · obtain ⟨m, hm⟩ := createRequest_of_lt (Nat.lt_of_not_le h42)
    exact ⟨m, by rw [hm]; rfl⟩

/-- A frame the buffer holds is shorter than `2^16` bytes, so the builder returns it with exact
lengths. -/
theorem buildRequest_of_fits (hr : 42 + h.size + data.length ≤ room.toNat) :
    ∃ f, buildRequest (some room) h data msg = .ok f ∧ LengthsExact f := by
  have : room.toNat < 2 ^ 16 := room.toNat_lt_size
  rw [buildRequest_of_le hr, exists_fixup_lengthsExact]
  simp only [Frame.payloadLength, Option.map_some', Option.getD_some]
  omega

/-- **The common builder**: every frame it returns has exact lengths, every panic is an
`expect`, and it returns exactly when the buffer holds the frame. -/
theorem buildRequest_spec :
    (∀ f, buildRequest alloc h data msg = .ok f → LengthsExact f) ∧
      (∀ e, buildRequest alloc h data msg = .error e → ∃ m, e = .expect m) ∧
      ((∃ f, buildRequest alloc h data msg = .ok f) ↔
        ∃ room, alloc = some room ∧ 42 + h.size + data.length ≤ room.toNat) := by
  rcases alloc with _ | room
  · exact ⟨nofun, fun _ he => ⟨_, (Except.error.inj he).symm⟩,
      iff_of_false nofun nofun⟩
  · by_cases hr : 42 + h.size + data.length ≤ room.toNat
    · obtain ⟨f, hf, he⟩ : ∃ f, buildRequest (some room) h data msg = .ok f ∧ LengthsExact f :=
        buildRequest_of_fits hr
      rw [hf]
      exact ⟨fun _ h => Except.ok.inj h ▸ he, nofun,
        iff_of_true ⟨f, rfl⟩ ⟨room, rfl, hr⟩⟩
    · obtain ⟨m, hm⟩ : ∃ m, buildRequest (some room) h data msg = .error (.expect m) :=
        buildRequest_of_lt (Nat.lt_of_not_le hr)
      rw [hm]
      exact ⟨nofun, fun _ he => ⟨m, (Except.error.inj he).symm⟩,
        iff_of_false nofun fun ⟨_, h, h'⟩ => hr (Option.some.inj h ▸ h')⟩

/-! ### The two builders -/

/-- The get builder: a key past its guard is refused, and no buffer could hold it. -/
theorem createGetRequest_spec (alloc : Option UInt16) (tenant tableId : ℕ) (key : List UInt8) :
    (∀ f, createGetRequest alloc tenant tableId key = .ok f → LengthsExact f) ∧
      createGetRequest alloc tenant tableId key ≠ .error .addOverflow ∧
      ((∃ f, createGetRequest alloc tenant tableId key = .ok f) ↔
        ∃ room, alloc = some room ∧ 65 + key.length ≤ room.toNat) := by
  unfold createGetRequest
  split
  · refine ⟨nofun, nofun,
      iff_of_false nofun fun ⟨room, _, hr⟩ => ?_⟩
    have : room.toNat < 2 ^ 16 := room.toNat_lt_size
    omega
  · obtain ⟨hok, herr, hiff⟩ := @buildRequest_spec (.get tenant tableId (asU16 key.length)) key
      "Failed to write key into get() request!" alloc
    exact ⟨hok, fun he => (herr _ he).elim nofun, hiff⟩

/-- The invoke builder: its guards bound the two length arguments. -/
theorem createInvokeRequest_spec (alloc : Option UInt16) (tenant nameLen argsLen : ℕ)
    (payload : List UInt8) :
    (∀ f, createInvokeRequest alloc tenant nameLen argsLen payload = .ok f → LengthsExact f) ∧
      createInvokeRequest alloc tenant nameLen argsLen payload ≠ .error .addOverflow ∧
      ((∃ f, createInvokeRequest alloc tenant nameLen argsLen payload = .ok f) ↔
        nameLen < 2 ^ 32 ∧ argsLen < 2 ^ 32 ∧
          ∃ room, alloc = some room ∧ 63 + payload.length ≤ room.toNat) := by
  unfold createInvokeRequest
  split
  · exact ⟨nofun, nofun,
      iff_of_false nofun fun ⟨_, _⟩ => by omega⟩
  · split
    · exact ⟨nofun, nofun,
        iff_of_false nofun fun ⟨_, _, _⟩ => by omega⟩
    · obtain ⟨hok, herr, hiff⟩ := @buildRequest_spec
        (.invoke tenant (asU32 nameLen) (asU32 argsLen)) payload
        "Failed to write args into invoke() request!" alloc
      exact ⟨hok, fun he => (herr _ he).elim nofun,
        hiff.trans ⟨fun h => ⟨by omega, by omega, h⟩, fun h => h.2.2⟩⟩

/-- **Frame lengths**: for every buffer and every argument, a frame either builder returns has
exact length fields, neither builder panics in the `u16` addition, and each returns exactly
when the buffer holds the frame (the invoke builder once its guards pass). -/
theorem request_lengths_exact (alloc : Option UInt16) (tenant tableId nameLen argsLen : ℕ)
    (key payload : List UInt8) :
    ((∀ f, createGetRequest alloc tenant tableId key = .ok f → LengthsExact f) ∧
      createGetRequest alloc tenant tableId key ≠ .error .addOverflow ∧
      ((∃ f, createGetRequest alloc tenant tableId key = .ok f) ↔
        ∃ room, alloc = some room ∧ 65 + key.length ≤ room.toNat)) ∧
    ((∀ f, createInvokeRequest alloc tenant nameLen argsLen payload = .ok f →
        LengthsExact f) ∧
      createInvokeRequest alloc tenant nameLen argsLen payload ≠ .error .addOverflow ∧
      ((∃ f, createInvokeRequest alloc tenant nameLen argsLen payload = .ok f) ↔
        nameLen < 2 ^ 32 ∧ argsLen < 2 ^ 32 ∧
          ∃ room, alloc = some room ∧ 63 + payload.length ≤ room.toNat)) :=
  ⟨createGetRequest_spec .., createInvokeRequest_spec ..⟩

/-! ### `generate_request` -/

@[simp] theorem length_getName : getName.length = 3 := rfl

/-- The frame `generate_request` builds has exact lengths, and it is built exactly when the
buffer holds it: `95` bytes for the get, `104` for the invoke. -/
theorem generateRequest_spec (useInvoke : Bool) (alloc : Option UInt16) :
    (∀ f, generateRequest useInvoke alloc = .ok f → LengthsExact f) ∧
      ((∃ f, generateRequest useInvoke alloc = .ok f) ↔
        ∃ room, alloc = some room ∧ (if useInvoke then 104 else 95) ≤ room.toNat) := by
  cases useInvoke with
  | false =>
    obtain ⟨hok, -, hiff⟩ := createGetRequest_spec alloc 1 1 (zeros 30)
    exact ⟨hok, hiff.trans (by simp)⟩
  | true =>
    obtain ⟨hok, -, hiff⟩ := createInvokeRequest_spec alloc 1 getName.length
      ((getName ++ [1, 0, 0, 0, 0, 0, 0, 0] ++ zeros 30).length - getName.length)
      (getName ++ [1, 0, 0, 0, 0, 0, 0, 0] ++ zeros 30)
    exact ⟨hok, hiff.trans (by simp)⟩

end Kayak.RequestGenerator
