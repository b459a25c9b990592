import Kayak.Machine

/-!
# The PUSHBACK workload generator

`Pushback` (`pushback.rs:73-158`) draws one operation per call of `abc`: a coin
`rng.gen::<u32>()` decides between the `get` and the `put` closure, then a tenant and a key
index are drawn from two Zipfian distributions. The key is written, little-endian, into the
first four bytes of the buffer `key_buf`, which `new` allocated once, zero-filled, and which
every later call reuses in place; the value is the zero buffer `value_buf`.

The random source is seeded once, so a run of the workload is fixed by the sequence of its
draws: the model takes that sequence as data (`rng`, and the samples of the two `Zipf`
samplers), and `drawn` counts how far `abc` has read it. Only the range of a Zipfian
sample, `1..=n`, is used; its distribution is not modelled.
-/

namespace Kayak

/-- A sampler of `ZipfDistribution::new(n, skew)`: its `i`-th sample, at most `n`. -/
structure Zipf where
  /-- The number of elements of the distribution. -/
  n : ℕ
  /-- The `i`-th sample drawn. -/
  sample : ℕ → ℕ
  sample_le : ∀ i, sample i ≤ n

/-- What `abc` hands to its closures: `get(tenant, key)` or `put(tenant, key, value)`. -/
inductive Call where
  | get (tenant : ℕ) (key : List UInt8)
  | put (tenant : ℕ) (key value : List UInt8)

/-- The state of the workload generator (`struct Pushback`). -/
structure Pushback where
  /-- `put_pct`: percent of operations that are puts. -/
  putPct : ℕ
  /-- The `i`-th value of `rng.gen::<u32>()`. -/
  rng : ℕ → UInt32
  keyRng : Zipf
  tenantRng : Zipf
  /-- How many draws `abc` has made. -/
  drawn : ℕ
  keyBuf : List UInt8
  valueBuf : List UInt8

namespace Pushback

/-- `Pushback::new`: both buffers zero-filled, to `key_len` and `value_len` bytes. -/
def new (keyLen valueLen putPct : ℕ) (rng : ℕ → UInt32) (keyRng tenantRng : Zipf) : Pushback :=
  { putPct, rng, keyRng, tenantRng, drawn := 0, keyBuf := zeros keyLen, valueBuf := zeros valueLen }

/-- `is_get = (self.rng.gen::<u32>() % 100) >= self.put_pct as u32` for the current draw. -/
def isGet (w : Pushback) : Bool := decide (asU32 w.putPct ≤ (w.rng w.drawn % 100).toNat)

/-- `Pushback::abc`: draw, write the key index into `key_buf[0..4]`, call a closure. -/
def abc (w : Pushback) : Except Panic (Call × Pushback) := do
  let t := asU32 (w.tenantRng.sample w.drawn)
  let k := asU32 (w.keyRng.sample w.drawn)
  let keyBuf ← copyFromSlice w.keyBuf 0 4 (leBytes 4 k)
  let w' := { w with drawn := w.drawn + 1, keyBuf }
  pure (if w.isGet then .get t keyBuf else .put t keyBuf w.valueBuf, w')

/-- The key buffer once `abc` has written the current key index into it. -/
def key (w : Pushback) : List UInt8 := leBytes 4 (asU32 (w.keyRng.sample w.drawn)) ++ w.keyBuf.drop 4

/-- The call `abc` makes when the key buffer holds at least four bytes. -/
def call (w : Pushback) : Call :=
  if w.isGet then .get (asU32 (w.tenantRng.sample w.drawn)) w.key
  else .put (asU32 (w.tenantRng.sample w.drawn)) w.key w.valueBuf

/-- With `put_pct = 0` every call is a get. -/
theorem call_of_putPct {w : Pushback} (h : w.putPct = 0) :
    w.call = .get (asU32 (w.tenantRng.sample w.drawn)) w.key := by
  simp [call, isGet, h, asU32]

/-- The generator after `abc`: one draw further, the key written. -/
def next (w : Pushback) : Pushback := { w with drawn := w.drawn + 1, keyBuf := w.key }

/-- What `abc` does when the key buffer holds at least four bytes. -/
theorem abc_eq (w : Pushback) (h : 4 ≤ w.keyBuf.length) : w.abc = .ok (w.call, w.next) := by
  simp only [abc, copyFromSlice_of_le (Nat.zero_le 4) h (length_leBytes 4 _), List.take_zero,
    List.nil_append, call, next, key]
  split <;> rfl

/-- On a key buffer shorter than four bytes `abc` panics. -/
theorem abc_of_lt (w : Pushback) (h : w.keyBuf.length < 4) :
    w.abc = .error .sliceOutOfRange := by
  have : ¬ (0 ≤ 4 ∧ 4 ≤ w.keyBuf.length ∧ (leBytes 4 (asU32 (w.keyRng.sample w.drawn))).length
    = 4 - 0) := by omega
  simp only [abc, copyFromSlice, this, if_false]
  rfl

/-- `abc` can only panic on a short key buffer. -/
theorem abc_eq_error {w : Pushback} {e : Panic} (h : w.abc = .error e) :
    e = .sliceOutOfRange := by
  by_cases h4 : 4 ≤ w.keyBuf.length
  · rw [abc_eq w h4] at h; cases h
  · rw [abc_of_lt w (by omega)] at h; cases h; rfl

end Pushback

end Kayak
