import Kayak.Progress

/-!
# Shutdown across cores

`main` sets up eight cores (`setup_send_recv` on cores `0..8`, core 0 the master), each
with its own client, then waits `while !FINISHED`, sleeping two seconds at a time. A core's
`execute` sets the one global flag `FINISHED` as soon as that core's own `recv` has found its
response target reached. `main` then stops the client, and each core's `drop` computes
`stop - start` for its throughput.

The system is `Cluster`: the eight clients, the flag, and whether `main` has stopped the
client. Its moves (`Cluster.Step`) are any core's `execute`, the server answering any core's
request, and `main` leaving its loop once the flag is set, in any order.

**`early_stop`**: the flag does not wait for the other cores. For every configuration in
invoke mode with keys of at least four bytes and a budget of at least `34 * 1000 * 1000`
requests, some interleaving has core 0 reach its target while core 1 has not run at all;
`main` then stops the client with core 1 at `recvd = 0` and `stop = 0`, and core 1's `drop`
underflows on `stop - start` unless its clock read 0 at start-up.
**`stop_before_all_done`** is that run for the shipped client with clocks reading
`1, 2, 3, ...`.

What the flag does guarantee is `Safe`, which holds in every state of every run
(**`safe_run`**): a core sets `finished` only once it has counted its target, `FINISHED` is
set only by such a core, and `main` stops the client only after `FINISHED`, so only once some
core has counted its whole response target. And **`flag_iff`**: in every state of every run
`FINISHED` is set exactly when some core has set its own `finished`, since no move of a core
clears it.
-/

namespace Kayak

open Relation

/-- The client of `main`: the eight cores' clients, the global `FINISHED`, and whether
`main` has left its wait loop and stopped the client. -/
structure Cluster where
  cores : Fin 8 → PushbackRecvSend
  finished : Bool
  stopped : Bool

namespace Cluster

/-- `main`: eight clients built by `setup_send_recv`, core 0 the master; each core has its
own clock and random source. -/
def start (config : ClientConfig) (clock : Fin 8 → Tsc) (rng : Fin 8 → ℕ → UInt32)
    (keyRng tenantRng : Fin 8 → Zipf) : Cluster where
  cores i := PushbackRecvSend.setupSendRecv (i == 0) config (clock i) (rng i) (keyRng i)
    (tenantRng i)
  finished := false
  stopped := false

variable (c : Consts)

/-- One move of the system. -/
inductive Step : Cluster → Cluster → Prop where
  /-- Core `i`'s scheduler calls `execute`; a core that is finished sets `FINISHED`. -/
  | execute {k : Cluster} {s' : PushbackRecvSend} (i : Fin 8) (env : PushbackRecvSend.Env) :
      k.stopped = false → PushbackRecvSend.execute c env (k.cores i) = .ok s' →
      Step k { k with cores := Function.update k.cores i s', finished := k.finished || s'.finished }
  /-- The server answers a request on core `i`'s wire. -/
  | serve {k : Cluster} (i : Fin 8) (q : Request) (p : Packet) :
      k.stopped = false → q ∈ (k.cores i).wire → answers q p = true →
      Step k { k with cores := Function.update k.cores i ((k.cores i).serve q p) }
  /-- `main` finds `FINISHED` set, leaves its wait loop and stops the client. -/
  | stop {k : Cluster} : k.finished = true → Step k { k with stopped := true }

variable {c}

/-- A run of one core is a run of the system in which the other cores wait. -/
theorem lift {k : Cluster} {i : Fin 8} {s : PushbackRecvSend} (hk : k.stopped = false)
    (h : ReflTransGen (PushbackRecvSend.Step c) (k.cores i) s) :
    ∃ b, ReflTransGen (Step c) k
      { k with cores := Function.update k.cores i s, finished := b } := by
  induction h with
  | refl => exact ⟨k.finished, by simpa using ReflTransGen.refl⟩
  | @tail u s' _ hst ih =>
    obtain ⟨b, hb⟩ := ih
    have hk' : ({ k with cores := Function.update k.cores i u, finished := b } : Cluster).stopped =
      false := hk
    cases hst with
    | execute env he =>
      have := Step.execute i env hk' (by simpa using he)
      exact ⟨_, hb.tail (by simpa using this)⟩
    | serve q p hq hp =>
      have : Step c _ _ := Step.serve i q p hk' (by simpa using hq) hp
      exact ⟨b, hb.tail (by simpa using this)⟩

/-! ### What the flag guarantees -/

section Safety

variable {s s' : PushbackRecvSend}

/-- A core that has counted its target stays there: no move lowers `recvd` or changes the
target. -/
theorem target_step (h : PushbackRecvSend.Step c s s') (ht : s.responses ≤ s.recvd) :
    s'.responses ≤ s'.recvd := by
  have hr : s'.responses = s.responses :=
    congrArg (fun x => x.2.2.2.1) (PushbackRecvSend.Step.setup h)
  exact hr ▸ ht.trans h.tally.1

/-- A core sets `finished` only once it has counted its target. -/
theorem finished_step (h : PushbackRecvSend.Step c s s')
    (hf : s.finished = true → s.responses ≤ s.recvd) :
    s'.finished = true → s'.responses ≤ s'.recvd :=
  fun h' => (h.tally.2 h').elim (fun h'' => target_step h (hf h'')) id

/-- No move of a core clears its `finished`. -/
theorem finished_mono (h : PushbackRecvSend.Step c s s') (hf : s.finished = true) :
    s'.finished = true := by
  cases h with
  | serve q p _ _ => exact hf
  | execute env he =>
    obtain ⟨u, hu, he⟩ := bind_eq_ok.1 he
    obtain ⟨v, hv, he⟩ := bind_eq_ok.1 he
    cases he
    rw [PushbackRecvSend.executeTask_frame.2.2.2.2.2.1]
    rw [PushbackRecvSend.recv] at hv
    split at hv
    · cases hv; rfl
    · obtain ⟨w, hw, hv⟩ := bind_eq_ok.1 hv
      have hfw : w.finished = true :=
        ((PushbackRecvSend.recvPackets_tally hw).2.trans (PushbackRecvSend.send_tally hu).2).trans
          hf
      split at hv <;> cases hv <;> exact hfw

end Safety

/-- What holds of every state of the system: each core's `finished`, and `FINISHED`, are set
only once a core has counted its target, and `main` stops the client only after `FINISHED`. -/
structure Safe (k : Cluster) : Prop where
  core : ∀ i, (k.cores i).finished = true → (k.cores i).responses ≤ (k.cores i).recvd
  flag : k.finished = true → ∃ i, (k.cores i).responses ≤ (k.cores i).recvd
  stop : k.stopped = true → k.finished = true

theorem safe_start (config : ClientConfig) (clock : Fin 8 → Tsc) (rng : Fin 8 → ℕ → UInt32)
    (keyRng tenantRng : Fin 8 → Zipf) : (start config clock rng keyRng tenantRng).Safe where
  core _ h := absurd h Bool.false_ne_true
  flag h := absurd h Bool.false_ne_true
  stop h := absurd h Bool.false_ne_true

/-- A move of core `i` keeps `Safe`, when the new flag is set only if the old flag or the
core's own `finished` is. -/
theorem Safe.update {k : Cluster} {i : Fin 8} {s : PushbackRecvSend} {b : Bool} (hk : k.Safe)
    (hst : PushbackRecvSend.Step c (k.cores i) s) (hs : k.stopped = false)
    (hb : b = true → k.finished = true ∨ s.finished = true) :
    Safe { k with cores := Function.update k.cores i s, finished := b } where
  core j := by
    by_cases hj : j = i
    · subst hj; simpa using finished_step hst (hk.core j)
    · simpa [hj] using hk.core j
  flag h := by
    rcases hb h with hf | hf
    · obtain ⟨j, hj⟩ := hk.flag hf
      refine ⟨j, ?_⟩
      by_cases hji : j = i
      · subst hji; simpa using target_step hst hj
      · simpa [hji] using hj
    · exact ⟨i, by simpa using finished_step hst (hk.core i) hf⟩
  stop h := absurd (hs.symm.trans h) Bool.false_ne_true

theorem Safe.step {k k' : Cluster} (hk : k.Safe) (h : Step c k k') : k'.Safe := by
  cases h with
  | execute i env hs he => exact hk.update (.execute env he) hs (by simp)
  | serve i q p hs hq hp =>
    exact hk.update (show PushbackRecvSend.Step c _ _ from .serve q p hq hp) hs .inl
  | stop hf => exact ⟨hk.core, hk.flag, fun _ => hf⟩

/-- `Safe` holds in every state of every run of the system. -/
theorem safe_run {config : ClientConfig} {clock : Fin 8 → Tsc} {rng : Fin 8 → ℕ → UInt32}
    {keyRng tenantRng : Fin 8 → Zipf} {k : Cluster}
    (h : ReflTransGen (Step c) (start config clock rng keyRng tenantRng) k) : k.Safe := by
  induction h with
  | refl => exact safe_start ..
  | tail _ hst ih => exact ih.step hst

/-- Core 1 as `main` sets it up. -/
theorem start_cores_one (config : ClientConfig) (clock : Fin 8 → Tsc)
    (rng : Fin 8 → ℕ → UInt32) (keyRng tenantRng : Fin 8 → Zipf) :
    (start config clock rng keyRng tenantRng).cores 1 = PushbackRecvSend.new (34 * 1000 * 1000)
      false config config.numReqs (clock 1) (rng 1) (keyRng 1) (tenantRng 1) := rfl

/-- **Early stop**: in invoke mode, with keys of at least four bytes and a budget of at least
`34 * 1000 * 1000` requests, some interleaving stops the client once core 0 is done while
core 1 has not counted a response nor recorded its stop, so that core 1's `drop` underflows
on `stop - start` unless its clock read 0 at start-up. -/
theorem early_stop (h1 : 1 ≤ c.numOps) {config : ClientConfig} {clock : Fin 8 → Tsc}
    {rng : Fin 8 → ℕ → UInt32} {keyRng tenantRng : Fin 8 → Zipf} (hk : 4 ≤ config.keyLen)
    (hi : config.useInvoke = true) (hreq : 34 * 1000 * 1000 ≤ config.numReqs) :
    ∃ k, ReflTransGen (Step c) (start config clock rng keyRng tenantRng) k ∧ k.stopped = true ∧
      (k.cores 1).recvd = 0 ∧ (k.cores 1).recvd < (k.cores 1).responses ∧
      (k.cores 1).stop = 0 ∧ (k.cores 1).start = (clock 1).read 0 ∧
      (0 < (clock 1).read 0 → (k.cores 1).dropStats = .error .subOverflow) := by
  obtain ⟨u, s, hu, hs, hfin⟩ := @PushbackRecvSend.reaches_finished c true config config.numReqs
    (clock 0) (rng 0) (keyRng 0) (tenantRng 0) h1 hk hi 1062500 (by omega)
  set k₀ := start config clock rng keyRng tenantRng
  have hu' : ReflTransGen (PushbackRecvSend.Step c) (k₀.cores 0) u :=
    PushbackRecvSend.StepBy.steps hu
  obtain ⟨b, hb⟩ := lift (show k₀.stopped = false from rfl) hu'
  set k₁ : Cluster := { k₀ with cores := Function.update k₀.cores 0 u, finished := b }
  have h₁ : Step c k₁
      { k₁ with cores := Function.update k₁.cores 0 s, finished := k₁.finished || s.finished } :=
    Step.execute 0 ⟨0, PushbackRecvSend.idleTask⟩ rfl (by simpa [k₁] using hs)
  set k₂ : Cluster :=
    { k₁ with cores := Function.update k₁.cores 0 s, finished := k₁.finished || s.finished }
  have h₂ : Step c k₂ { k₂ with stopped := true } := Step.stop (by simp [k₂, hfin])
  have hcore : ({ k₂ with stopped := true } : Cluster).cores 1 = k₀.cores 1 := by
    simp [k₂, k₁, Function.update_noteq (show (1 : Fin 8) ≠ 0 by decide)]
  refine ⟨_, (hb.tail h₁).tail h₂, rfl, ?_⟩
  rw [hcore, start_cores_one]
  refine ⟨rfl, by simp [PushbackRecvSend.new], rfl, rfl, fun h => ?_⟩
  simp [PushbackRecvSend.dropStats, PushbackRecvSend.new, subU64_of_lt h]

/-- The shipped client in invoke mode, with four-byte keys and values, a budget of
`34 * 1000 * 1000` requests and clocks reading `1, 2, 3, ...`: `main` stops it while core 1
has counted no response, and core 1's `drop` underflows on `stop - start`. -/
theorem stop_before_all_done :
    ∃ k, ReflTransGen (Step (Consts.shipped false))
      (start ⟨4, 4, 0, true, 34 * 1000 * 1000⟩ (fun _ => Tsc.succ) (fun _ _ => 0)
        (fun _ => Zipf.const 1 1 le_rfl) (fun _ => Zipf.const 1 1 le_rfl)) k ∧
      k.stopped = true ∧ (k.cores 1).recvd < (k.cores 1).responses ∧
      (k.cores 1).stop < (k.cores 1).start ∧ (k.cores 1).dropStats = .error .subOverflow := by
  obtain ⟨k, hk, hs, -, hr, h0, hst, hd⟩ := @early_stop (Consts.shipped false) le_rfl
    ⟨4, 4, 0, true, 34 * 1000 * 1000⟩ (fun _ => Tsc.succ) (fun _ _ => 0)
    (fun _ => Zipf.const 1 1 le_rfl) (fun _ => Zipf.const 1 1 le_rfl) le_rfl rfl le_rfl
  exact ⟨k, hk, hs, hr, by rw [h0, hst]; exact Nat.succ_pos 0, hd (Nat.succ_pos 0)⟩

/-- **`FINISHED` is the cores' `finished`**: in every state of every run of the system, the
flag is set exactly when some core has set its own `finished`. -/
theorem flag_iff {config : ClientConfig} {clock : Fin 8 → Tsc} {rng : Fin 8 → ℕ → UInt32}
    {keyRng tenantRng : Fin 8 → Zipf} {k : Cluster}
    (h : ReflTransGen (Step c) (start config clock rng keyRng tenantRng) k) :
    k.finished = true ↔ ∃ i, (k.cores i).finished = true := by
  induction h with
  | refl => simp [start, PushbackRecvSend.setupSendRecv, PushbackRecvSend.new]
  | @tail b _ _ hst ih =>
    cases hst with
    | @execute s' i env _ he =>
      have hmono := finished_mono (PushbackRecvSend.Step.execute env he)
      rw [Bool.or_eq_true, ih, Function.exists_update_iff b.cores fun _ x => x.finished = true]
      constructor
      · rintro (⟨j, hj⟩ | hf)
        · by_cases hji : j = i
          · exact .inl (hmono (hji ▸ hj))
          · exact .inr ⟨j, hji, hj⟩
        · exact .inl hf
      · rintro (hf | ⟨j, -, hj⟩)
        · exact .inr hf
        · exact .inl ⟨j, hj⟩
    | serve i q p _ _ _ =>
      rw [ih, Function.exists_update_iff b.cores fun _ x => x.finished = true]
      exact ⟨fun ⟨j, hj⟩ => if hji : j = i then .inl (hji ▸ hj) else .inr ⟨j, hji, hj⟩,
        fun h => h.elim (⟨i, ·⟩) fun ⟨j, _, hj⟩ => ⟨j, hj⟩⟩
    | stop => exact ih

/-- `FINISHED` after the early stop: `main` has stopped the client, core 0 has set its
`finished`. -/
theorem flag_iff_sample : ∃ k, ReflTransGen (Step (Consts.shipped false))
      (start ⟨4, 4, 0, true, 34 * 1000 * 1000⟩ (fun _ => Tsc.succ) (fun _ _ => 0)
        (fun _ => Zipf.const 1 1 le_rfl) (fun _ => Zipf.const 1 1 le_rfl)) k ∧
      k.stopped = true ∧ k.finished = true ∧
      (k.finished = true ↔ ∃ i, (k.cores i).finished = true) := by
  obtain ⟨k, hk, hs, -⟩ := @early_stop (Consts.shipped false) le_rfl
    ⟨4, 4, 0, true, 34 * 1000 * 1000⟩ (fun _ => Tsc.succ) (fun _ _ => 0)
    (fun _ => Zipf.const 1 1 le_rfl) (fun _ => Zipf.const 1 1 le_rfl) le_rfl rfl le_rfl
  exact ⟨k, hk, hs, (safe_run hk).stop hs, flag_iff hk⟩

end Cluster

end Kayak
