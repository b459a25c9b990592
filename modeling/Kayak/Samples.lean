import Kayak.Target
import Kayak.Stray

/-!
# What the latency samples measure

`recv` records a latency sample for each response it handles in invoke mode and for the last
get of each native operation. The sample is the clock's reading less the stamp the response
echoes; in native mode it is also less the product of `mul`, which is `0` whenever `mul`
returns. `drop` prints the median and the 99th percentile of the sorted samples.

## What is proved

**`latency_samples`**: in every state of every run, in both modes, every stamp in flight and
every queued task's id is a clock reading taken after `start` and before the current one.
Every sample is positive and shorter than the time from `start` to the client's last clock
reading. Once the target is counted, it is also shorter than `stop - start`.

**`drop_within_run`**: on a core that has counted its target, the median and the tail that
`drop` computes are positive and shorter than `stop - start`.

**`measurement_frozen`**: once the target is counted, no later move changes `recvd`,
`stop - start` or what `drop` computes. `recv` returns at its first test from then on.

**`latencies_length`**: in native mode `latencies.len()` is `recvd`. In invoke mode it exceeds
`recvd` by the number of the tasks' gets that have been answered and handled: `recv` records a
sample for the get response of a pushed-back task, which it does not count in `recvd`. So the
median and tail `drop` prints mix the round trips of those gets with those of the invokes.
**`latencies_length_ne_recvd`**: `pushbackRun` reaches a state with two samples and one
response counted.

Behind both is `Timed`: every stamp in flight, and the id of every task in the run queue, is a
clock reading taken after `start` and before the clock's current reading. A task carries the
stamp of the invoke that created it. The get it sends when it waits carries that stamp again.
-/

namespace Kayak.PushbackRecvSend

open Relation

variable {c : Consts} {s s' : PushbackRecvSend} {rx : List Packet} {t : ℕ}

/-- The clock readings of a state, `rx` being the responses not yet handled. Every stamp in
flight and every queued task's id was read after `start`. Every sample is positive and
shorter than the time from `start` to the last reading. -/
structure Timed (s : PushbackRecvSend) (rx : List Packet) : Prop where
  start : s.start = s.clock.read 0
  ticks : 1 ≤ s.ticks
  inflight : ∀ t ∈ stamps s.wire rx, s.start < t
  queued : ∀ m ∈ s.waiting, s.start < m.id
  samples : ∀ l ∈ s.latencies, 0 < l ∧ l < s.clock.read (s.ticks - 1) - s.start

theorem timed_new (resps : ℕ) (master : Bool) (config : ClientConfig) (reqs : ℕ) (clock : Tsc)
    (rng : ℕ → UInt32) (keyRng tenantRng : Zipf) :
    Timed (new resps master config reqs clock rng keyRng tenantRng) [] where
  start := rfl
  ticks := le_rfl
  inflight := by simp [stamps, flight, new]
  queued := by simp [new]
  samples := by simp [new]

theorem Timed.start_lt (h : Timed s rx) : s.start < s.clock.read s.ticks := by
  rw [h.start]; exact s.clock.strictMono h.ticks

theorem Timed.perm {rx' : List Packet} (h : Timed s rx) (hp : rx.Perm rx') : Timed s rx' :=
  { h with inflight := by rw [stamps, ← flight_perm hp]; exact h.inflight }

/-! ### Samples and stamps -/

/-- Later readings only widen the bound on the samples. -/
theorem samples_mono {ls : List ℕ} {k : Tsc} {a b st : ℕ}
    (h : ∀ l ∈ ls, 0 < l ∧ l < k.read (a - 1) - st) (hab : a ≤ b) :
    ∀ l ∈ ls, 0 < l ∧ l < k.read (b - 1) - st := fun l hl =>
  ⟨(h l hl).1, (h l hl).2.trans_le
    (Nat.sub_le_sub_right (k.strictMono.monotone (Nat.sub_le_sub_right hab 1)) st)⟩

/-- A new sample: the reading `k.read j` less a stamp read after `start` and before `j`. -/
theorem samples_snoc {ls : List ℕ} {k : Tsc} {a j st : ℕ}
    (h : ∀ l ∈ ls, 0 < l ∧ l < k.read (a - 1) - st) (ha : a ≤ j + 1) (hst : st < t)
    (ht : t < k.read j) :
    ∀ l ∈ ls ++ [k.read j - t], 0 < l ∧ l < k.read (j + 1 - 1) - st := by
  have h' := samples_mono h ha
  rw [Nat.add_sub_cancel] at h' ⊢
  simp only [List.mem_append, List.mem_singleton]
  rintro l (hl | rfl)
  · exact h' l hl
  · omega

/-- A request put on the wire with a stamp read after `start`. -/
theorem start_lt_snoc {st : ℕ} {wire : List Request} {q : Request}
    (h : ∀ t ∈ stamps wire rx, st < t) (hq : st < q.stamp) :
    ∀ t ∈ stamps (wire ++ [q]) rx, st < t := by
  simp only [stamps_wire_snoc, Multiset.mem_cons]
  rintro t (rfl | ht)
  · exact hq
  · exact h t ht

/-- Tasks moved to the run queue under a stamp read after `start`. -/
theorem Timed.queue (h : Timed s rx) (hst : s.start < t) {w : List TaskManager}
    (hw : ∀ m ∈ w, m.id = t) : ∀ m ∈ s.waiting ++ w, s.start < m.id := by
  intro m hm
  rcases List.mem_append.1 hm with hm | hm
  · exact h.queued m hm
  · rw [hw m hm]; exact hst

/-! ### Send and serve -/

theorem Timed.serve {q : Request} {p : Packet} (h : Timed s rx) (hq : q ∈ s.wire)
    (hp : answers q p) : Timed (s.serve q p) (rx ++ [p]) := by
  have hf : flight (s.wire.erase q) (rx ++ [p]) = flight s.wire rx := by
    rw [flight_rx_snoc _ _ (tag_of_answers hp), flight_erase hq rx]; rfl
  exact { h with inflight := fun t ht => h.inflight t (by rw [stamps, ← hf]; exact ht) }

/-- The request of `send` is stamped with the clock's current reading. -/
theorem Timed.sendOne (h : Timed s rx) (hs : s.sendOne = .ok s') : Timed s' rx := by
  have hb := samples_mono h.samples (Nat.le_succ s.ticks)
  cases hn : s.native
  · obtain ⟨pg, pp, p, tenant, rfl⟩ := sendOne_invoke hn hs
    exact ⟨h.start, Nat.le_succ_of_le h.ticks, start_lt_snoc h.inflight h.start_lt, h.queued,
      hb⟩
  · obtain ⟨-, rfl⟩ := sendOne_native hn hs
    exact ⟨h.start, Nat.le_succ_of_le h.ticks,
      start_lt_snoc h.inflight (by cases s.workload.call <;> exact h.start_lt), h.queued, hb⟩

theorem Timed.send (h : Timed s rx) (hs : s.send = .ok s') : Timed s' rx :=
  send_rel (fun a b => Timed a rx → Timed b rx) (fun _ => id) (fun hab hbd => hbd ∘ hab)
    (fun _ hu h => h.sendOne hu) hs h

/-! ### Receive -/

/-- The last get of a native operation records the time since the operation's stamp: `mul`
returns only with the product `0`. -/
theorem handlePacket_done_sample (hn : s.native = true)
    (hl : s.nativeState.lookup t = some c.numOps) (ht : t ≤ s.clock.read s.ticks)
    {tenant : ℕ} {pl : List UInt8} (h : handlePacket c s (.get t tenant pl) = .ok s') :
    s' = { s with
      recvd := s.recvd + 1, ticks := s.ticks + 1
      latencies := s.latencies ++ [s.clock.read s.ticks - t]
      nativeState := s.nativeState.erase t, outstanding := s.outstanding - 1 } := by
  have ho := (handlePacket_done_ok hn hl h).1
  rw [handlePacket_done hn hl ht ho] at h
  obtain ⟨m, hm, h⟩ := bind_eq_ok.1 h
  obtain ⟨init, -, hm⟩ := bind_eq_ok.1 hm
  obtain ⟨-, rfl⟩ := mul_numMul_eq_ok (init.toNat_lt_size.trans (by decide)) hm
  exact (Except.ok.inj h).symm

/-- Handling a response keeps `Timed`. Its stamp leaves what is in flight, and a task it
queues carries that stamp. Its sample is the clock's reading less that stamp, a reading
taken after the stamp was. -/
theorem Timed.handlePacket {p : Packet} (h : Timed s (p :: rx)) (hI : Inv c s (p :: rx))
    (hs : handlePacket c s p = .ok s') : Timed s' rx := by
  have hr := hI.reply p (List.mem_cons_self _ _)
  have hin : ∀ {k t}, p.tag = some (k, t) →
      s.start < t ∧ t < s.clock.read s.ticks ∧ ∀ t' ∈ stamps s.wire rx, s.start < t' :=
    fun hp => ⟨h.inflight _ (mem_stamps_cons s.wire hp rx),
      hI.fresh _ (mem_stamps_cons s.wire hp rx),
      fun t' ht => h.inflight t' (mem_stamps_cons_of_mem hp ht)⟩
  cases hn : s.native
  · cases p with
    | invoke t st r =>
      obtain ⟨hst, hlt, hrest⟩ := hin rfl
      cases st with
      | statusOk =>
        obtain ⟨-, -, rfl⟩ := handlePacket_statusOk_ok hn hs
        exact ⟨h.start, Nat.le_succ_of_le h.ticks, hrest, h.queued,
          samples_snoc h.samples (Nat.le_succ _) hst hlt⟩
      | statusPushback =>
        obtain ⟨-, -, rfl⟩ := handlePacket_pushback_ok hn hs
        refine ⟨h.start, by simp only; omega, hrest, h.queue hst fun m hm => ?_,
          samples_snoc h.samples (by omega) hst (hlt.trans (s.clock.read_lt_succ _))⟩
        obtain ⟨m', hm', rfl⟩ := Option.mem_map.1 (Option.mem_toList.1 hm)
        exact hI.managerId t m' hm'
      | other k => simp [Packet.Reply] at hr
    | get t tenant pl =>
      obtain ⟨hst, hlt, hrest⟩ := hin rfl
      obtain ⟨-, rfl⟩ := handlePacket_get_ok hn hs
      exact ⟨h.start, Nat.le_succ_of_le h.ticks, hrest,
        h.queue hst fun m hm => hI.managerId t m (Option.mem_toList.1 hm),
        samples_snoc h.samples (Nat.le_succ _) hst hlt⟩
    | put t =>
      obtain ⟨hst, hlt, hrest⟩ := hin rfl
      obtain ⟨-, rfl⟩ := handlePacket_put_ok hn hs
      exact ⟨h.start, Nat.le_succ_of_le h.ticks, hrest, h.queued,
        samples_snoc h.samples (Nat.le_succ _) hst hlt⟩
    | other => cases hr
  · cases p with
    | get t tenant pl =>
      obtain ⟨hst, hlt, hrest⟩ := hin rfl
      obtain ⟨n, hl⟩ := Option.isSome_iff_exists.1 (AList.lookup_isSome.2
        ((hI.nativeIff hn t).2 (mem_stamps_cons s.wire
          (show Packet.tag (.get t tenant pl) = some (.get, t) from rfl) rx)))
      by_cases hne : n = c.numOps
      · subst hne
        obtain rfl := handlePacket_done_sample hn hl hlt.le hs
        exact ⟨h.start, Nat.le_succ_of_le h.ticks, hrest, h.queued,
          samples_snoc h.samples (Nat.le_succ _) hst hlt⟩
      · obtain ⟨-, val, rfl⟩ := handlePacket_step_ok hn hl hne hs
        exact ⟨h.start, h.ticks, start_lt_snoc hrest hst, h.queued, h.samples⟩
    | invoke t st r => cases hI.get_of_native hn rfl
    | put t => cases hI.get_of_native hn rfl
    | other => cases hr

theorem Timed.recvPackets {b : List Packet} (h : Timed s (b ++ rx)) (hI : Inv c s (b ++ rx))
    (hs : recvPackets c b s = .ok s') : Timed s' rx := by
  induction b generalizing s' rx with
  | nil => cases hs; exact h
  | cons p ps ih =>
    obtain ⟨u, hu, hs⟩ := bind_eq_ok.1 hs
    have hI' := hI.perm List.perm_middle.symm
    exact (ih (h.perm List.perm_middle.symm) hI' hu).handlePacket (hI'.recvPackets hu) hs

/-! ### Local tasks -/

/-- A task that waits sends a get stamped with its id. -/
theorem Timed.executeTask {r : TaskRun} (h : Timed s rx) : Timed (executeTask c r s) rx := by
  cases hw : s.waiting with
  | nil => rw [executeTask_nil hw]; exact h
  | cons m rest =>
    have hq : ∀ w ∈ m :: rest, s.start < w.id := hw ▸ h.queued
    cases hr : r.state with
    | yielded =>
      rw [executeTask_yielded hw hr]
      exact { h with queued := fun w hw' => hq w (by simpa [or_comm] using hw') }
    | waiting =>
      rw [executeTask_waiting hw hr]
      exact { h with
        inflight := start_lt_snoc h.inflight (hq m (List.mem_cons_self _ _))
        queued := fun w hw' => hq w (List.mem_cons_of_mem _ hw') }
    | completed =>
      obtain ⟨_, _, _, _, he⟩ := @executeTask_completed c s r m rest hw hr
      rw [he]
      exact { h with queued := fun w hw' => hq w (List.mem_cons_of_mem _ hw') }

theorem sendOne_latencies (h : s.sendOne = .ok s') : s'.latencies = s.latencies := by
  cases hn : s.native
  · obtain ⟨_, _, _, _, rfl⟩ := sendOne_invoke hn h; rfl
  · obtain ⟨-, rfl⟩ := sendOne_native hn h; rfl

theorem send_latencies (h : s.send = .ok s') : s'.latencies = s.latencies :=
  send_rel (fun a b => b.latencies = a.latencies) (fun _ => rfl) (fun h1 h2 => h2.trans h1)
    (fun _ hu => sendOne_latencies hu) h

theorem executeTask_latencies {r : TaskRun} : (executeTask c r s).latencies = s.latencies := by
  cases hw : s.waiting with
  | nil => rw [executeTask_nil hw]
  | cons m rest =>
    cases hr : r.state with
    | yielded => rw [executeTask_yielded hw hr]
    | waiting => rw [executeTask_waiting hw hr]
    | completed =>
      obtain ⟨_, _, _, _, he⟩ := @executeTask_completed c s r m rest hw hr
      rw [he]

/-! ### Over a run -/

/-- `Timed` at the port, and once the target is counted, every sample shorter than
`stop - start`: `recv` reads `stop` after its last sample and records none after. -/
structure Measured (s : PushbackRecvSend) : Prop where
  timed : Timed s s.receiver
  stopped : s.responses ≤ s.recvd → ∀ l ∈ s.latencies, l < s.stop - s.start

/-- A move that keeps the samples, `stop`, the count and the setup keeps `Measured`. -/
theorem Measured.of_frame (h : Measured s) (ht : Timed s' s'.receiver)
    (hl : s'.latencies = s.latencies) (hst : s'.stop = s.stop) (hr : s'.recvd = s.recvd)
    (hset : s'.setup = s.setup) : Measured s' := by
  simp only [setup, Prod.mk.injEq] at hset
  refine ⟨ht, fun hge => ?_⟩
  rw [hl, hst, hset.2.2.1]
  exact h.stopped (by rw [← hr, ← hset.2.2.2.1]; exact hge)

/-- `recv` handles its batch only while the core is short of its target, and reads `stop`
once the batch brings the count to it. -/
theorem Measured.recv {n : ℕ} (h : Measured s) (hI : Inv c s s.receiver)
    (hs : recv c n s = .ok s') : Measured s' := by
  rw [PushbackRecvSend.recv] at hs
  split at hs
  · cases hs; exact ⟨{ h.timed with }, h.stopped⟩
  · obtain ⟨u, hu, hs⟩ := bind_eq_ok.1 hs
    have hu' : Timed u u.receiver := by
      rw [(recvPackets_frame hu).2.1]
      exact Timed.recvPackets (by rw [List.take_append_drop]; exact { h.timed with })
        (by rw [List.take_append_drop]; exact { hI with }) hu
    split at hs <;> cases hs
    · refine ⟨{ hu' with
          ticks := Nat.le_succ_of_le hu'.ticks
          samples := samples_mono hu'.samples (Nat.le_succ _) }, fun _ l hl => ?_⟩
      exact (hu'.samples l hl).2.trans_le
        (Nat.sub_le_sub_right (u.clock.strictMono.monotone (Nat.sub_le _ _)) _)
    · exact ⟨hu', fun hge => absurd hge ‹_›⟩

theorem Measured.execute {env : Env} (h : Measured s) (hI : Inv c s s.receiver)
    (h1 : 1 ≤ c.numOps) (hs : execute c env s = .ok s') : Measured s' := by
  obtain ⟨u, hu, hs⟩ := bind_eq_ok.1 hs
  obtain ⟨v, hv, hs⟩ := bind_eq_ok.1 hs
  cases hs
  have hIu : Inv c u u.receiver := (send_frame hu).2 ▸ hI.send h1 hu
  have hmv := (h.of_frame ((send_frame hu).2 ▸ h.timed.send hu) (send_latencies hu)
    (send_clock hu).1 (send_tally hu).1 (send_frame hu).1).recv hIu hv
  refine hmv.of_frame ?_ executeTask_latencies executeTask_frame.2.2.2.2.2.2.1
    executeTask_frame.2.2.2.2.1 executeTask_frame.1
  rw [executeTask_frame.2.1]
  exact hmv.timed.executeTask

theorem Measured.step (h : Measured s) (hI : Inv c s s.receiver) (h1 : 1 ≤ c.numOps)
    (hs : Step c s s') : Measured s' := by
  cases hs with
  | execute env he => exact h.execute hI h1 he
  | serve q p hq hp => exact ⟨h.timed.serve hq hp, h.stopped⟩

theorem Measured.reachable (h1 : 1 ≤ c.numOps) (hs : Reachable c s) : Measured s := by
  induction hs with
  | new => exact ⟨timed_new .., by simp [new]⟩
  | step hr hst ih => exact ih.step (Inv.reachable h1 hr) h1 hst

/-- `okStopped` is reached, has counted its target, and `drop` computes the median and the tail
`32` there: the one sample is `34 - 2`, read at tick `33` for the stamp read at tick `1`. -/
theorem okStopped_facts : Reachable (Consts.shipped false) okStopped ∧
    okStopped.responses ≤ okStopped.recvd ∧ okStopped.dropStats = .ok (some (32, 32)) :=
  ⟨(Reachable.new ..).refl_trans okStopped_steps, by decide, rfl⟩

/-- **What the samples measure**: in every state of every run, in both modes, every stamp in
flight and every queued task's id was read from the clock after `start` and before its current
reading; every latency sample is positive and shorter than the time from `start` to the last
clock reading. Once the target is counted, it is shorter than `stop - start`. -/
theorem latency_samples (h1 : 1 ≤ c.numOps) (hs : Reachable c s) :
    (∀ t ∈ stamps s.wire s.receiver, s.start < t ∧ t < s.clock.read s.ticks) ∧
      (∀ m ∈ s.waiting, s.start < m.id ∧ m.id < s.clock.read s.ticks) ∧
      ∀ l ∈ s.latencies, 0 < l ∧ l < s.clock.read (s.ticks - 1) - s.start ∧
        (s.responses ≤ s.recvd → l < s.stop - s.start) := by
  have h := Measured.reachable h1 hs
  have hI := Inv.reachable h1 hs
  exact ⟨fun t ht => ⟨h.timed.inflight t ht, hI.fresh t ht⟩,
    fun m hm => ⟨h.timed.queued m hm, hI.freshWaiting m hm⟩,
    fun l hl => ⟨(h.timed.samples l hl).1, (h.timed.samples l hl).2, fun ht => h.stopped ht l hl⟩⟩

/-- The clock facts after `pushbackRun`: 30 invokes on the wire and an `Ok` at the port, the
pushed-back task queued, two samples. -/
theorem latency_samples_sample : 1 ≤ (Consts.shipped true).numOps ∧
    Reachable (Consts.shipped true) tasked ∧
    ((∀ t ∈ stamps tasked.wire tasked.receiver,
        tasked.start < t ∧ t < tasked.clock.read tasked.ticks) ∧
      (∀ m ∈ tasked.waiting, tasked.start < m.id ∧ m.id < tasked.clock.read tasked.ticks) ∧
      ∀ l ∈ tasked.latencies, 0 < l ∧ l < tasked.clock.read (tasked.ticks - 1) - tasked.start ∧
        (tasked.responses ≤ tasked.recvd → l < tasked.stop - tasked.start)) :=
  have hr := (Reachable.new ..).refl_trans tasked_steps
  ⟨le_rfl, hr, latency_samples le_rfl hr⟩

/-! ### What `drop` prints -/

theorem mem_of_index {α : Type} {v : List α} {i : ℕ} {a : α} (h : index v i = .ok a) :
    a ∈ v := by
  unfold index at h
  split at h
  · cases h; exact List.getElem?_mem ‹_›
  · cases h

/-- From samples that all lie in `1..D`, `drop` computes a median and a tail in `1..D`: each
is a sample, or the mean of two. -/
theorem dropStats_within {D med tail : ℕ} (hb : ∀ l ∈ s.latencies, 0 < l ∧ l < D)
    (hd : s.dropStats = .ok (some (med, tail))) :
    (0 < med ∧ med < D) ∧ 0 < tail ∧ tail < D := by
  have hm : ∀ {i a}, index (s.latencies.insertionSort (· ≤ ·)) i = .ok a →
      0 < a ∧ a < D :=
    fun h => hb _ ((List.perm_insertionSort _ _).subset (mem_of_index h))
  unfold dropStats at hd
  cases hx : subU64 s.stop s.start with
  | error e => rw [hx] at hd; cases hd
  | ok x =>
    rw [hx, ok_bind] at hd
    split at hd
    · obtain ⟨t', ht, hd⟩ := bind_eq_ok.1 hd
      split at hd
      · obtain ⟨a, ha, hd⟩ := bind_eq_ok.1 hd
        obtain ⟨b, hb', hd⟩ := bind_eq_ok.1 hd
        obtain ⟨x, hx, hd⟩ := bind_eq_ok.1 hd
        cases hd
        unfold addU64 at hx
        split at hx <;> cases hx
        have := hm ha
        have := hm hb'
        exact ⟨by omega, hm ht⟩
      · obtain ⟨y, hy, hd⟩ := bind_eq_ok.1 hd
        cases hd
        exact ⟨hm hy, hm ht⟩
    · cases hd

/-- **What `drop` prints**: on a core that has counted its target, in both modes, the median
and the tail that `drop` computes are positive and shorter than `stop - start`. -/
theorem drop_within_run (h1 : 1 ≤ c.numOps) (hs : Reachable c s) (ht : s.responses ≤ s.recvd)
    {med tail : ℕ} (hd : s.dropStats = .ok (some (med, tail))) :
    (0 < med ∧ med < s.stop - s.start) ∧ 0 < tail ∧ tail < s.stop - s.start :=
  have h := Measured.reachable h1 hs
  dropStats_within (fun l hl => ⟨(h.timed.samples l hl).1, h.stopped ht l hl⟩) hd

theorem drop_within_run_sample : 1 ≤ (Consts.shipped false).numOps ∧
    Reachable (Consts.shipped false) okStopped ∧ okStopped.responses ≤ okStopped.recvd ∧
    okStopped.dropStats = .ok (some (32, 32)) ∧
    ((0 < 32 ∧ 32 < okStopped.stop - okStopped.start) ∧
      0 < 32 ∧ 32 < okStopped.stop - okStopped.start) :=
  ⟨le_rfl, okStopped_facts.1, okStopped_facts.2.1, okStopped_facts.2.2,
    drop_within_run le_rfl okStopped_facts.1 okStopped_facts.2.1 okStopped_facts.2.2⟩

/-! ### The measurement is frozen at the target -/

/-- Once the target is counted, a move changes neither the count, nor `stop`, nor the samples:
`recv` returns at its first test, and `send` and the task step write none of them. -/
theorem Step.frozen (h : Step c s s') (ht : s.responses ≤ s.recvd) :
    s'.recvd = s.recvd ∧ s'.stop = s.stop ∧ s'.latencies = s.latencies := by
  cases h with
  | serve q p _ _ => exact ⟨rfl, rfl, rfl⟩
  | execute env he =>
    obtain ⟨u, hu, he⟩ := bind_eq_ok.1 he
    obtain ⟨v, hv, he⟩ := bind_eq_ok.1 he
    cases he
    have hres : u.responses = s.responses := congrArg (fun x => x.2.2.2.1) (send_frame hu).1
    rw [PushbackRecvSend.recv, if_pos (by rw [hres, (send_tally hu).1]; exact ht)] at hv
    cases hv
    exact ⟨executeTask_frame.2.2.2.2.1.trans (send_tally hu).1,
      executeTask_frame.2.2.2.2.2.2.1.trans (send_clock hu).1,
      executeTask_latencies.trans (show u.latencies = s.latencies from send_latencies hu)⟩

/-- **The measurement is frozen at the target**: once a core has counted its response target,
no later move of any run changes the count `recvd`, the time `stop - start`, or the median and
tail `drop` computes. Whenever `main` stops the client, `drop` prints what the core measured
when it reached its target. -/
theorem measurement_frozen (hs : ReflTransGen (Step c) s s') (ht : s.responses ≤ s.recvd) :
    s'.recvd = s.recvd ∧ s'.stop - s'.start = s.stop - s.start ∧ s'.dropStats = s.dropStats := by
  have key : s'.recvd = s.recvd ∧ s'.stop = s.stop ∧ s'.latencies = s.latencies ∧
      s'.setup = s.setup := by
    induction hs with
    | refl => exact ⟨rfl, rfl, rfl, rfl⟩
    | tail _ hst ih =>
      obtain ⟨hr, hst', hl, hset⟩ := ih
      have hres : PushbackRecvSend.responses _ = s.responses := congrArg (fun x => x.2.2.2.1) hset
      obtain ⟨hr', hst'', hl'⟩ := hst.frozen (by rw [hres, hr]; exact ht)
      exact ⟨hr'.trans hr, hst''.trans hst', hl'.trans hl, hst.setup.trans hset⟩
  obtain ⟨hr, hst, hl, hset⟩ := key
  simp only [setup, Prod.mk.injEq] at hset
  obtain ⟨-, -, hstart, -, -, hm⟩ := hset
  refine ⟨hr, by rw [hst, hstart], ?_⟩
  simp only [dropStats, hst, hstart, hm, hl]

/-- Past the target of `okStopped`: the server answers the invoke stamped `3`, and one more
`execute` runs. -/
theorem measurement_frozen_sample : ReflTransGen (Step (Consts.shipped false)) okStopped okFrozen ∧
    okStopped.responses ≤ okStopped.recvd ∧
    (okFrozen.recvd = okStopped.recvd ∧
      okFrozen.stop - okFrozen.start = okStopped.stop - okStopped.start ∧
      okFrozen.dropStats = okStopped.dropStats) :=
  ⟨okFrozen_steps, okStopped_facts.2.1, measurement_frozen okFrozen_steps okStopped_facts.2.1⟩

/-! ### How many samples there are -/

/-- The number of latency samples, `rx` being the responses not yet handled. In native mode it
is the count `recvd`. In invoke mode each get of a task adds one more: the get is counted in
`sender` when it is sent, and leaves what is in flight when its response is handled. -/
structure SampleCount (s : PushbackRecvSend) (rx : List Packet) : Prop where
  native : s.native = true → s.latencies.length = s.recvd
  invoke : s.native = false → s.latencies.length + (flight s.wire rx).countP (·.1 = .get) =
    s.recvd + s.sender.countP (·.kind = .get)

theorem SampleCount.of_invoke (hn : s.native = false)
    (h : s.latencies.length + (flight s.wire rx).countP (·.1 = .get) =
      s.recvd + s.sender.countP (·.kind = .get)) : SampleCount s rx :=
  ⟨fun h' => Bool.noConfusion (hn.symm.trans h'), fun _ => h⟩

theorem SampleCount.of_native (hn : s.native = true) (h : s.latencies.length = s.recvd) :
    SampleCount s rx :=
  ⟨fun _ => h, fun h' => Bool.noConfusion (hn.symm.trans h')⟩

theorem countP_get_cons (wire : List Request) {p : Packet} {k : Kind} (hp : p.tag = some (k, t))
    (rx : List Packet) : (flight wire (p :: rx)).countP (·.1 = .get) =
      (flight wire rx).countP (·.1 = .get) + if k = .get then 1 else 0 := by
  rw [flight_cons wire hp, Multiset.countP_cons]

theorem countP_get_snoc (wire : List Request) (q : Request) (rx : List Packet) :
    (flight (wire ++ [q]) rx).countP (·.1 = .get) =
      (flight wire rx).countP (·.1 = .get) + if q.kind = .get then 1 else 0 := by
  rw [flight_wire_snoc, Multiset.countP_cons]; rfl

theorem sampleCount_new (resps : ℕ) (master : Bool) (config : ClientConfig) (reqs : ℕ)
    (clock : Tsc) (rng : ℕ → UInt32) (keyRng tenantRng : Zipf) :
    SampleCount (new resps master config reqs clock rng keyRng tenantRng) [] :=
  ⟨fun _ => rfl, fun _ => rfl⟩

theorem SampleCount.perm {rx' : List Packet} (h : SampleCount s rx) (hp : rx.Perm rx') :
    SampleCount s rx' :=
  ⟨h.native, by rw [← flight_perm hp]; exact h.invoke⟩

theorem SampleCount.serve {q : Request} {p : Packet} (h : SampleCount s rx) (hq : q ∈ s.wire)
    (hp : answers q p) : SampleCount (s.serve q p) (rx ++ [p]) := by
  have hf : flight (s.wire.erase q) (rx ++ [p]) = flight s.wire rx := by
    rw [flight_rx_snoc _ _ (tag_of_answers hp), flight_erase hq rx]; rfl
  refine ⟨h.native, fun hn => ?_⟩
  show _ + (flight (s.wire.erase q) (rx ++ [p])).countP _ = _
  rw [hf]
  exact h.invoke hn

/-- `send` records no sample, and sends no get in invoke mode. -/
theorem SampleCount.sendOne (h : SampleCount s rx) (hs : s.sendOne = .ok s') :
    SampleCount s' rx := by
  cases hn : s.native
  · obtain ⟨pg, pp, p, tenant, rfl⟩ := sendOne_invoke hn hs
    refine .of_invoke hn ?_
    rw [countP_get_snoc, List.countP_append]
    simpa using h.invoke hn
  · obtain ⟨-, rfl⟩ := sendOne_native hn hs
    exact .of_native hn (h.native hn)

theorem SampleCount.send (h : SampleCount s rx) (hs : s.send = .ok s') : SampleCount s' rx :=
  send_rel (fun a b => SampleCount a rx → SampleCount b rx) (fun _ => id)
    (fun hab hbd => hbd ∘ hab) (fun _ hu h => h.sendOne hu) hs h

/-- Handling a response records a sample exactly when it counts one, or when it answers a
task's get in invoke mode. -/
theorem SampleCount.handlePacket {p : Packet} (h : SampleCount s (p :: rx))
    (hI : Inv c s (p :: rx)) (hs : handlePacket c s p = .ok s') : SampleCount s' rx := by
  have hr := hI.reply p (List.mem_cons_self _ _)
  cases hn : s.native
  · have hc := h.invoke hn
    cases p with
    | invoke t st r =>
      rw [countP_get_cons s.wire (show Packet.tag (.invoke t st r) = some (.invoke, t) from rfl)
        rx] at hc
      cases st with
      | statusOk =>
        obtain ⟨-, -, rfl⟩ := handlePacket_statusOk_ok hn hs
        refine .of_invoke hn ?_
        simp only [List.length_append, List.length_singleton]
        simp only [reduceCtorEq, ↓reduceIte, add_zero] at hc; omega
      | statusPushback =>
        obtain ⟨-, -, rfl⟩ := handlePacket_pushback_ok hn hs
        refine .of_invoke hn ?_
        simp only [List.length_append, List.length_singleton]
        simp only [reduceCtorEq, ↓reduceIte, add_zero] at hc; omega
      | other k => simp [Packet.Reply] at hr
    | get t tenant pl =>
      rw [countP_get_cons s.wire (show Packet.tag (.get t tenant pl) = some (.get, t) from rfl)
        rx] at hc
      obtain ⟨-, rfl⟩ := handlePacket_get_ok hn hs
      refine .of_invoke hn ?_
      simp only [List.length_append, List.length_singleton]
      simp only [↓reduceIte] at hc; omega
    | put t => exact (hI.put_free hn).elim
    | other => cases hr
  · have hc := h.native hn
    cases p with
    | get t tenant pl =>
      obtain ⟨n, hl⟩ := Option.isSome_iff_exists.1 (AList.lookup_isSome.2
        ((hI.nativeIff hn t).2 (mem_stamps_cons s.wire
          (show Packet.tag (.get t tenant pl) = some (.get, t) from rfl) rx)))
      by_cases hne : n = c.numOps
      · obtain ⟨-, l, rfl⟩ := handlePacket_done_ok hn (hne ▸ hl) hs
        exact .of_native hn (by simp [hc])
      · obtain ⟨-, val, rfl⟩ := handlePacket_step_ok hn hl hne hs
        exact .of_native hn hc
    | invoke t st r => cases hI.get_of_native hn rfl
    | put t => cases hI.get_of_native hn rfl
    | other => cases hr

theorem SampleCount.recvPackets {b : List Packet} (h : SampleCount s (b ++ rx))
    (hI : Inv c s (b ++ rx)) (hs : recvPackets c b s = .ok s') : SampleCount s' rx := by
  induction b generalizing s' rx with
  | nil => cases hs; exact h
  | cons p ps ih =>
    obtain ⟨u, hu, hs⟩ := bind_eq_ok.1 hs
    have hI' := hI.perm List.perm_middle.symm
    exact (ih (h.perm List.perm_middle.symm) hI' hu).handlePacket (hI'.recvPackets hu) hs

theorem SampleCount.recv {n : ℕ} (h : SampleCount s s.receiver) (hI : Inv c s s.receiver)
    (hs : recv c n s = .ok s') : SampleCount s' s'.receiver := by
  rw [PushbackRecvSend.recv] at hs
  split at hs
  · cases hs; exact ⟨h.native, h.invoke⟩
  · obtain ⟨u, hu, hs⟩ := bind_eq_ok.1 hs
    have hu' : SampleCount u u.receiver := by
      rw [(recvPackets_frame hu).2.1]
      exact SampleCount.recvPackets (by rw [List.take_append_drop]; exact ⟨h.native, h.invoke⟩)
        (by rw [List.take_append_drop]; exact { hI with }) hu
    split at hs <;> cases hs
    · exact ⟨hu'.native, hu'.invoke⟩
    · exact hu'

/-- A task that waits sends one get, which is in flight. -/
theorem SampleCount.executeTask {r : TaskRun} (h : SampleCount s rx) :
    SampleCount (executeTask c r s) rx := by
  cases hw : s.waiting with
  | nil => rw [executeTask_nil hw]; exact h
  | cons m rest =>
    cases hr : r.state with
    | yielded => rw [executeTask_yielded hw hr]; exact ⟨h.native, h.invoke⟩
    | waiting =>
      rw [executeTask_waiting hw hr]
      refine ⟨h.native, fun hn => ?_⟩
      have := h.invoke hn
      rw [countP_get_snoc, List.countP_append]
      simp only [Request.kind.eq_1, ↓reduceIte, decide_True, List.countP_cons_of_pos,
        List.countP_nil, zero_add]
      omega
    | completed =>
      obtain ⟨_, _, _, _, he⟩ := @executeTask_completed c s r m rest hw hr
      rw [he]; exact ⟨h.native, h.invoke⟩

theorem SampleCount.step (h : SampleCount s s.receiver) (hI : Inv c s s.receiver)
    (h1 : 1 ≤ c.numOps) (hs : Step c s s') : SampleCount s' s'.receiver := by
  cases hs with
  | serve q p hq hp => exact h.serve hq hp
  | execute env he =>
    obtain ⟨u, hu, he⟩ := bind_eq_ok.1 he
    obtain ⟨v, hv, he⟩ := bind_eq_ok.1 he
    cases he
    have hIu : Inv c u u.receiver := (send_frame hu).2 ▸ hI.send h1 hu
    rw [executeTask_frame.2.1]
    exact (((send_frame hu).2 ▸ h.send hu).recv hIu hv).executeTask

/-- **How many samples there are**: in every state of every run, in native mode
`latencies.len()` is the count `recvd`. In invoke mode it exceeds `recvd` by the number of gets
the tasks have sent whose responses have been handled: those sent, less those in flight. -/
theorem latencies_length (h1 : 1 ≤ c.numOps) (hs : Reachable c s) :
    (s.native = true → s.latencies.length = s.recvd) ∧
      (s.native = false →
        s.latencies.length + (flight s.wire s.receiver).countP (·.1 = .get) =
          s.recvd + s.sender.countP (·.kind = .get)) := by
  have h : SampleCount s s.receiver := by
    induction hs with
    | new => exact sampleCount_new ..
    | step hr hst ih => exact ih.step (Inv.reachable h1 hr) h1 hst
  exact ⟨h.native, h.invoke⟩

theorem latencies_length_sample : 1 ≤ (Consts.shipped false).numOps ∧
    Reachable (Consts.shipped false) okStopped ∧
    ((okStopped.native = true → okStopped.latencies.length = okStopped.recvd) ∧
      (okStopped.native = false →
        okStopped.latencies.length + (flight okStopped.wire okStopped.receiver).countP (·.1 = .get) =
          okStopped.recvd + okStopped.sender.countP (·.kind = .get))) :=
  ⟨le_rfl, okStopped_facts.1, latencies_length le_rfl okStopped_facts.1⟩

/-- `latencies.len() = recvd` fails in a reachable state of invoke mode. -/
theorem latencies_length_ne_recvd :
    ¬ ∀ s, Reachable (Consts.shipped false) s → s.latencies.length = s.recvd := by
  intro h
  have hrun : (runActions (Consts.shipped false) pushbackRun (sample false true 1)).map
      (fun s => (s.latencies.length, s.recvd)) = some (2, 1) := by decide
  obtain ⟨s, hs, hv⟩ := Option.map_eq_some'.1 hrun
  have := h s ((Reachable.new ..).runActions _ hs)
  simp only [Prod.mk.injEq] at hv
  omega

end Kayak.PushbackRecvSend
