import Mathlib.Data.List.AList
import Mathlib.Data.List.Sort
import Mathlib.Algebra.Group.Nat.Basic

/-!
# What the client's Rust code runs on

The pushback client (`splinter/src/bin/client/pushback.rs`) computes on `u64` counters and
cycle stamps, `u8` step counters, byte vectors and two `HashMap`s. This module fixes how the
model reads each of them.

* Integers are natural numbers. Every operation of the source that can leave its type is
  checked, as in a build with overflow checks: `a - b` on `u64` is `subU64 a b`, which
  panics when `b > a`; `*count += 1` on a `u8` is `addU8`; `mul *= i` is `mulU64`. A panic
  ends the run, so properties such as "no underflow" or "never overflows" are statements
  that these functions do not fail.
* `v[i]`, `&v[lo..hi]`, `dst.copy_from_slice(src)` and `Option::unwrap` panic as the
  standard library says they do.
* A `HashMap<u64, V>` is an association list with unique keys (`Table V`); `insert`
  replaces, `remove` is `AList.extract`.
* Bytes are `UInt8`; the little-endian layout of an integer (`to_le` then `transmute`) is
  `leBytes`.

The counters that are only ever incremented (`sent`, `recvd`, `pushback_completed`) are
not checked: they count requests, far below `2^64`.
-/

namespace Kayak

/-- Why a Rust program stops: the panics the client can raise. -/
inductive Panic where
  /-- `attempt to subtract with overflow`. -/
  | subOverflow
  /-- `attempt to add with overflow`. -/
  | addOverflow
  /-- `attempt to multiply with overflow`. -/
  | mulOverflow
  /-- `called Option::unwrap() on a None value`. -/
  | unwrapNone
  /-- `index out of bounds`. -/
  | indexOutOfBounds
  /-- A range `lo..hi` outside the slice, or `copy_from_slice` between slices of
  different lengths. -/
  | sliceOutOfRange
  deriving DecidableEq, Repr

@[simp] theorem ok_bind {ε α β : Type} (a : α) (f : α → Except ε β) :
    (Except.ok a : Except ε α) >>= f = f a := rfl

theorem error_bind {ε α β : Type} (e : ε) (f : α → Except ε β) :
    (Except.error e : Except ε α) >>= f = .error e := rfl

/-- A computation that can panic returns through a bind only if both halves return. -/
theorem bind_eq_ok {ε α β : Type} {x : Except ε α} {f : α → Except ε β} {b : β} :
    x >>= f = .ok b ↔ ∃ a, x = .ok a ∧ f a = .ok b := by
  cases x <;> simp [bind, Except.bind]

/-- A bind panics if its first half does, or if its second half does on the first's result. -/
theorem bind_eq_error {ε α β : Type} {x : Except ε α} {f : α → Except ε β} {e : ε} :
    x >>= f = .error e ↔ x = .error e ∨ ∃ a, x = .ok a ∧ f a = .error e := by
  cases x <;> simp [bind, Except.bind]

/-! ### Checked arithmetic -/

/-- `a - b` on `u64`. -/
def subU64 (a b : ℕ) : Except Panic ℕ :=
  if b ≤ a then .ok (a - b) else .error .subOverflow

/-- `a + b` on `u64`. -/
def addU64 (a b : ℕ) : Except Panic ℕ :=
  if a + b < 2 ^ 64 then .ok (a + b) else .error .addOverflow

/-- `a * b` on `u64`. -/
def mulU64 (a b : ℕ) : Except Panic ℕ :=
  if a * b < 2 ^ 64 then .ok (a * b) else .error .mulOverflow

/-- `a + b` on `u8`. -/
def addU8 (a b : ℕ) : Except Panic ℕ :=
  if a + b < 2 ^ 8 then .ok (a + b) else .error .addOverflow

/-- `n as u32`. -/
def asU32 (n : ℕ) : ℕ := n % 2 ^ 32

@[simp] theorem subU64_of_le {a b : ℕ} (h : b ≤ a) : subU64 a b = .ok (a - b) := if_pos h

@[simp] theorem subU64_of_lt {a b : ℕ} (h : a < b) : subU64 a b = .error .subOverflow :=
  if_neg (Nat.not_le.2 h)

theorem subU64_eq_ok {a b c : ℕ} : subU64 a b = .ok c ↔ b ≤ a ∧ c = a - b := by
  unfold subU64; split <;> simp [*, eq_comm]

@[simp] theorem addU8_of_lt {a b : ℕ} (h : a + b < 2 ^ 8) : addU8 a b = .ok (a + b) := if_pos h

theorem addU8_eq_error {a b : ℕ} {e : Panic} (h : addU8 a b = .error e) :
    e = .addOverflow ∧ 2 ^ 8 ≤ a + b := by
  unfold addU8 at h; split at h <;> cases h; exact ⟨rfl, by omega⟩

@[simp] theorem asU32_of_lt {n : ℕ} (h : n < 2 ^ 32) : asU32 n = n := Nat.mod_eq_of_lt h

/-! ### Panicking accessors -/

/-- `o.unwrap()`. -/
def unwrap {α : Type} : Option α → Except Panic α
  | some a => .ok a
  | none => .error .unwrapNone

/-- `v[i]`. -/
def index {α : Type} (v : List α) (i : ℕ) : Except Panic α :=
  match v[i]? with
  | some a => .ok a
  | none => .error .indexOutOfBounds

/-- `&v[lo..hi]`. -/
def slice {α : Type} (v : List α) (lo hi : ℕ) : Except Panic (List α) :=
  if lo ≤ hi ∧ hi ≤ v.length then .ok ((v.drop lo).take (hi - lo)) else .error .sliceOutOfRange

/-- `v[lo..hi].copy_from_slice(src)`: the range must lie in `v` and be as long as `src`. -/
def copyFromSlice {α : Type} (v : List α) (lo hi : ℕ) (src : List α) : Except Panic (List α) :=
  if lo ≤ hi ∧ hi ≤ v.length ∧ src.length = hi - lo then .ok (v.take lo ++ src ++ v.drop hi)
  else .error .sliceOutOfRange

@[simp] theorem unwrap_some {α : Type} (a : α) : unwrap (some a) = .ok a := rfl

@[simp] theorem unwrap_none {α : Type} : unwrap (none : Option α) = .error .unwrapNone := rfl

theorem index_of_lt {α : Type} {v : List α} {i : ℕ} (h : i < v.length) :
    index v i = .ok (v.get ⟨i, h⟩) := by
  simp [index, List.getElem?_eq_getElem h]

theorem index_of_le {α : Type} {v : List α} {i : ℕ} (h : v.length ≤ i) :
    index v i = .error .indexOutOfBounds := by
  simp [index, List.getElem?_eq_none h]

theorem slice_of_le {α : Type} {v : List α} {lo hi : ℕ} (h : lo ≤ hi) (h' : hi ≤ v.length) :
    slice v lo hi = .ok ((v.drop lo).take (hi - lo)) := if_pos ⟨h, h'⟩

theorem copyFromSlice_of_le {α : Type} {v src : List α} {lo hi : ℕ} (h : lo ≤ hi)
    (h' : hi ≤ v.length) (hs : src.length = hi - lo) :
    copyFromSlice v lo hi src = .ok (v.take lo ++ src ++ v.drop hi) := if_pos ⟨h, h', hs⟩

theorem index_eq_error {α : Type} {v : List α} {i : ℕ} {e : Panic} (h : index v i = .error e) :
    e = .indexOutOfBounds := by
  unfold index at h; split at h <;> cases h; rfl

theorem slice_eq_error {α : Type} {v : List α} {lo hi : ℕ} {e : Panic}
    (h : slice v lo hi = .error e) : e = .sliceOutOfRange := by
  unfold slice at h; split at h <;> cases h; rfl

theorem copyFromSlice_eq_error {α : Type} {v src : List α} {lo hi : ℕ} {e : Panic}
    (h : copyFromSlice v lo hi src = .error e) : e = .sliceOutOfRange := by
  unfold copyFromSlice at h; split at h <;> cases h; rfl

theorem length_copyFromSlice {α : Type} {v src w : List α} {lo hi : ℕ}
    (h : copyFromSlice v lo hi src = .ok w) : w.length = v.length := by
  unfold copyFromSlice at h
  split at h
  · cases h
    simp only [List.length_append, List.length_take, List.length_drop]
    omega
  · cases h

/-! ### Bytes -/

/-- The `w` little-endian bytes of `n`: `transmute::<_, [u8; w]>(n.to_le())`. -/
def leBytes (w n : ℕ) : List UInt8 := (List.range w).map fun i => UInt8.ofNat (n / 256 ^ i)

/-- `w` zero bytes, as `resize` appends them. -/
def zeros (w : ℕ) : List UInt8 := List.replicate w 0

/-- The integer whose little-endian bytes these are: `convert_key` of the source's tests. -/
def fromLE : List UInt8 → ℕ
  | [] => 0
  | b :: bs => b.toNat + 256 * fromLE bs

@[simp] theorem length_leBytes (w n : ℕ) : (leBytes w n).length = w := by simp [leBytes]

@[simp] theorem length_zeros (w : ℕ) : (zeros w).length = w := List.length_replicate _ _

theorem leBytes_succ (w n : ℕ) :
    leBytes (w + 1) n = UInt8.ofNat n :: leBytes w (n / 256) := by
  simp only [leBytes, List.range_succ_eq_map, List.map_cons, Nat.pow_zero, Nat.div_one,
    List.map_map]
  congr 1
  refine List.map_congr_left fun i _ => ?_
  simp [Nat.pow_succ', Nat.div_div_eq_div_mul]

/-- Decoding the little-endian bytes of `n` gives `n` back, up to the width. -/
theorem fromLE_leBytes (w n : ℕ) : fromLE (leBytes w n) = n % 256 ^ w := by
  induction w generalizing n with
  | zero => simp [leBytes, fromLE, Nat.mod_one]
  | succ w ih =>
    rw [leBytes_succ, fromLE, ih, Nat.pow_succ', Nat.mod_mul]
    rfl

/-! ### Maps -/

/-- A `HashMap<u64, V>`: keys are unique, the order of entries is irrelevant. -/
abbrev Table (V : Type) := AList fun _ : ℕ => V

/-- `map.entry(k).or_insert(v)`: insert only when `k` is absent. -/
def orInsert {V : Type} (m : Table V) (k : ℕ) (v : V) : Table V :=
  if k ∈ m then m else m.insert k v

theorem erase_of_not_mem {V : Type} {m : Table V} {k : ℕ} (h : k ∉ m) : m.erase k = m :=
  AList.ext (List.kerase_of_not_mem_keys h)

@[simp] theorem orInsert_of_not_mem {V : Type} {m : Table V} {k : ℕ} {v : V} (h : k ∉ m) :
    orInsert m k v = m.insert k v := if_neg h

theorem lookup_of_lookup_erase {V : Type} {m : Table V} {a k : ℕ} {v : V}
    (h : (m.erase k).lookup a = some v) : m.lookup a = some v := by
  by_cases ha : a = k
  · subst ha; rw [AList.lookup_erase] at h; cases h
  · rwa [AList.lookup_erase_ne ha] at h

end Kayak
