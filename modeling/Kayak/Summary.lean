import Kayak.Spec

/-!
# The summary statistics of `drop`

On the master core `drop` sorts the latency samples and prints the sample at
`len * 99 / 100` as the tail, and a median: for an odd count `n` the sample at `n / 2`, for
an even count the mean of the samples at `n / 2` and `n / 2 + 1`. The median of an even
count is the mean of the two middle samples, at `n / 2 - 1` and `n / 2`: the code reads one
place too far up.

**`dropStats_odd`**: for an odd count the tail and the median are the samples at
`n * 99 / 100` and `n / 2`, whatever the samples. **`dropStats_even`**: for an even count of
at least four the median is the mean of the samples at `n / 2` and `n / 2 + 1`, when their sum
fits in a `u64`. **`dropStats_two`**: with two samples the median reads past the end and
`drop` panics. **`median_off_by_one`** instantiates the last two at two and four samples.
-/

namespace Kayak.PushbackRecvSend

variable {s : PushbackRecvSend}

/-- The latency samples as `drop` sorts them. -/
def sortedLatencies (s : PushbackRecvSend) : List ℕ := s.latencies.insertionSort (· ≤ ·)

@[simp] theorem length_sortedLatencies (s : PushbackRecvSend) :
    s.sortedLatencies.length = s.latencies.length :=
  List.length_insertionSort _ _

theorem index_getD {v : List ℕ} {i : ℕ} (h : i < v.length) : index v i = .ok (v.getD i 0) := by
  simp [index, List.getElem?_eq_getElem h]

/-- On the master core, once `stop - start` is computed, `drop` reads the sorted samples. -/
theorem dropStats_master (hm : s.master = true) (hst : s.start ≤ s.stop) :
    s.dropStats = (do
      let t ← index s.sortedLatencies (s.latencies.length * 99 / 100)
      let m ← if s.latencies.length % 2 = 0 then do
          let a ← index s.sortedLatencies (s.latencies.length / 2)
          let b ← index s.sortedLatencies (s.latencies.length / 2 + 1)
          pure ((← addU64 a b) / 2)
        else index s.sortedLatencies (s.latencies.length / 2)
      pure (some (m, t))) := by
  simp only [dropStats, subU64_of_le hst, ok_bind, hm, if_true, ← length_sortedLatencies]
  rfl

/-- **Odd count**: the tail is the sample at `n * 99 / 100` and the median the one at
`n / 2`. -/
theorem dropStats_odd (hm : s.master = true) (hst : s.start ≤ s.stop)
    (hodd : s.latencies.length % 2 = 1) :
    s.dropStats = .ok (some (s.sortedLatencies.getD (s.latencies.length / 2) 0,
      s.sortedLatencies.getD (s.latencies.length * 99 / 100) 0)) := by
  have hn : 0 < s.latencies.length := by omega
  rw [dropStats_master hm hst, index_getD (by simp; omega), ok_bind, if_neg (by omega),
    index_getD (by simp; omega), ok_bind]
  rfl

/-- **Even count of at least four**: the median is the mean of the samples at `n / 2` and
`n / 2 + 1`, when their sum fits in a `u64`. -/
theorem dropStats_even (hm : s.master = true) (hst : s.start ≤ s.stop)
    (heven : s.latencies.length % 2 = 0) (h4 : 4 ≤ s.latencies.length)
    (hov : s.sortedLatencies.getD (s.latencies.length / 2) 0 +
      s.sortedLatencies.getD (s.latencies.length / 2 + 1) 0 < 2 ^ 64) :
    s.dropStats = .ok (some ((s.sortedLatencies.getD (s.latencies.length / 2) 0 +
      s.sortedLatencies.getD (s.latencies.length / 2 + 1) 0) / 2,
      s.sortedLatencies.getD (s.latencies.length * 99 / 100) 0)) := by
  rw [dropStats_master hm hst, index_getD (by simp; omega), ok_bind, if_pos heven,
    index_getD (by simp; omega), ok_bind, index_getD (by simp; omega), ok_bind]
  simp only [addU64, if_pos hov, ok_bind]
  rfl

/-- **Two samples**: the median reads index 2 and `drop` panics. -/
theorem dropStats_two (hm : s.master = true) (hst : s.start ≤ s.stop)
    (h2 : s.latencies.length = 2) : s.dropStats = .error .indexOutOfBounds := by
  rw [dropStats_master hm hst, index_getD (by simp; omega), ok_bind, h2, if_pos rfl,
    index_getD (by simp [h2]), ok_bind, index_of_le (by simp [h2])]
  rfl

/-- The master client of a concrete run with samples `[1, 2]` and with samples `[1, 2, 3, 4]`:
the first panics, the second reports the median 3 where the two middle samples are 2 and 3. -/
theorem median_off_by_one :
    { sample true true 1 with latencies := [1, 2], stop := 1 }.dropStats =
        .error .indexOutOfBounds ∧
      { sample true true 1 with latencies := [1, 2, 3, 4], stop := 1 }.dropStats =
        .ok (some (3, 4)) :=
  ⟨dropStats_two rfl le_rfl rfl,
    (dropStats_even rfl le_rfl (by rfl) (by decide) (by decide)).trans rfl⟩

end Kayak.PushbackRecvSend
