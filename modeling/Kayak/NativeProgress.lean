import Kayak.Target
import Kayak.NativeSteps

/-!
# Progress in native mode, and the client's stop

In native mode (`use_invoke = false`) an operation is a chain of `NUM_OPS` gets under one
stamp: `send` opens it with a get and a counter of one in `native_state`; each get response
whose counter is below `NUM_OPS` sends the next get and counts it, and the response whose
counter is `NUM_OPS` retires the operation. That response makes `mul` multiply the first
byte of its payload by `1 * 2 * .. * 999` on a `u64`, which overflows unless the byte is zero
(`native_completion_overflows`), and a response that continues an operation must carry the
30 bytes `recv` slices from it. So the server under which a native core can make progress
answers every get with a value of at least 30 bytes whose first byte is zero.

## What is proved

* `Inv.recvPackets_advance` and `Inv.recvPackets_retire`: a polled batch of such values, one
  for each operation in flight, all at the same step, advances every operation by one get,
  or, at step `NUM_OPS`, retires them all; neither panics.
* `QuietNative.round`: from a native core with nothing in flight, an `execute` fills the
  window with 32 gets; then `NUM_OPS` times the server answers the window and an `execute`
  polls it. The last time retires all 32 operations.
* **`native_reaches_target`**: for every `NUM_OPS` in `1..=255`, with keys of at least four
  bytes and a target no larger than the budget rounded up to a multiple of 32, some run whose
  server answers every get with thirty zero bytes leads the core to a state whose next
  `execute` sets `finished`. The rounds are iterated by
  `reaches_of_round`, as in invoke mode.
* **`stops_with_all_done`**: in invoke mode, or in native mode with `NUM_OPS ≤ 255`, with
  `num_reqs + 31` at least the `34 * 1000 * 1000` responses `setup_send_recv` waits for, some
  interleaving runs all eight cores to their targets, each recording a `stop` later than its
  `start`, and then lets `main` leave its wait loop. Below that budget `never_stops` says no
  interleaving stops the client, so the budget at which the benchmark can end is exactly
  `34 * 1000 * 1000 - 31`; `stop_before_all_done` is an interleaving that stops it early.

## Honest scope

The runs built here are particular schedules: the server answers the whole window before
the core polls it. The results say that the target can be reached, not that every schedule
reaches it; a server that never answers, or answers a get with a short or nonzero value,
stalls or ends the run.
-/

namespace Kayak

/-- The server's answer to a request when every key holds `val`: `Ok` to an invoke, `val`
to a get. -/
def Request.answerWith (val : List UInt8) : Request → Packet
  | .invoke _ _ _ t => .invoke t .statusOk []
  | .get tenant _ _ t => .get t tenant val
  | .put _ _ _ _ t => .put t

theorem answers_answerWith (val : List UInt8) (q : Request) :
    answers q (q.answerWith val) = true := by
  cases q <;> simp [answers, Request.answerWith]

namespace PushbackRecvSend

open Relation

variable {c : Consts} {s s' u : PushbackRecvSend} {rx : List Packet} {val rest : List UInt8}
  {j : ℕ}

theorem tag_answerWith (val : List UInt8) (q : Request) :
    (q.answerWith val).tag = some (q.kind, q.stamp) :=
  tag_of_answers (answers_answerWith val q)

/-- The answers to a list of requests, all at the port, carry the requests' stamps. -/
theorem stamps_answers (val : List UInt8) (qs : List Request) :
    stamps [] (qs.map (Request.answerWith val)) = (qs.map Request.stamp : Multiset ℕ) := by
  simp [stamps, flight, List.filterMap_map, Function.comp_def, tag_answerWith]
  rw [show (fun x : Request => some (x.kind, x.stamp)) = some ∘ Request.tag from rfl,
    List.filterMap_eq_map, List.map_map]
  rfl

/-- Every operation in flight has sent `j` gets: each counter of `native_state` is `j`. -/
def Stepped (j : ℕ) (s : PushbackRecvSend) : Prop :=
  ∀ t n, s.nativeState.lookup t = some n → n = j

theorem stepped_orInsert {m : Table ℕ} (h : ∀ t n, m.lookup t = some n → n = j) (k : ℕ) :
    ∀ t n, (orInsert m k j).lookup t = some n → n = j := by
  intro t n ht
  unfold orInsert at ht
  split at ht
  · exact h t n ht
  · by_cases htk : t = k
    · subst htk; rw [AList.lookup_insert] at ht; exact (Option.some.inj ht).symm
    · rw [AList.lookup_insert_ne htk] at ht; exact h t n ht

/-- `send` opens operations with a counter of one. -/
theorem send_stepped (hn : s.native = true) (hs : Stepped 1 s) (h : s.send = .ok s') :
    Stepped 1 s' :=
  (send_rel (fun a b => a.native = true → Stepped 1 a → b.native = true ∧ Stepped 1 b)
    (fun _ ha hsa => ⟨ha, hsa⟩) (fun hab hbd ha hsa => (hab ha hsa).elim hbd)
    (fun _ hu ha hsa => by
      obtain ⟨-, rfl⟩ := sendOne_native ha hu
      exact ⟨ha, stepped_orInsert hsa _⟩) h hn hs).2

/-- `recv` polling the whole port of a core before its target is the batch loop over it,
perhaps followed by the reading of the stop stamp. -/
theorem recv_all (hr : s.recvd < s.responses)
    (hu : recvPackets c s.receiver { s with receiver := [] } = .ok u) :
    ∃ s', recv c s.receiver.length s = .ok s' ∧
      { s' with ticks := u.ticks, stop := u.stop } = u := by
  rw [recv, if_neg (by omega), List.take_of_length_le le_rfl, List.drop_of_length_le le_rfl, hu,
    ok_bind]
  split <;> exact ⟨_, rfl, rfl⟩

/-! ### Receiving the values -/

/-- A value response to an operation in flight that is not at its last step sends the next
get and counts it, and nothing else. -/
theorem Inv.handlePacket_advance {q : Request} (h : Inv c s (q.answerWith val :: rx))
    (hn : s.native = true) (hl : s.nativeState.lookup q.stamp = some j) (hne : j ≠ c.numOps)
    (h8 : j + 1 < 2 ^ 8) (hval : 30 ≤ val.length) :
    ∃ s', PushbackRecvSend.handlePacket c s (q.answerWith val) = .ok s' ∧ s'.recvd = s.recvd ∧
      s'.outstanding = s.outstanding ∧
      s'.nativeState = s.nativeState.insert q.stamp (j + 1) := by
  cases q with
  | invoke tenant n pl t => cases h.get_of_native hn rfl
  | put tenant n key v t => cases h.get_of_native hn rfl
  | get tenant n key t => exact ⟨_, handlePacket_step hn hl hne tenant hval h8, rfl, rfl, rfl⟩

/-- A batch of value responses, one for each of some operations at step `j` below `NUM_OPS`,
advances each of them to step `j + 1` and leaves the other counters alone. -/
theorem Inv.recvPackets_advance {qs : List Request}
    (h : Inv c s (qs.map (Request.answerWith val) ++ rx)) (hn : s.native = true)
    (hj : ∀ q ∈ qs, s.nativeState.lookup q.stamp = some j) (hne : j ≠ c.numOps)
    (h8 : j + 1 < 2 ^ 8) (hval : 30 ≤ val.length) :
    ∃ s', PushbackRecvSend.recvPackets c (qs.map (Request.answerWith val)) s = .ok s' ∧
      s'.recvd = s.recvd ∧ s'.outstanding = s.outstanding ∧
      (∀ t, t ∉ qs.map Request.stamp → s'.nativeState.lookup t = s.nativeState.lookup t) ∧
      ∀ q ∈ qs, s'.nativeState.lookup q.stamp = some (j + 1) := by
  induction qs generalizing rx with
  | nil => exact ⟨s, rfl, rfl, rfl, fun _ _ => rfl, by simp⟩
  | cons q qs ih =>
    have h' := h.perm List.perm_middle.symm
    obtain ⟨u, hu, hru, hou, hout, hin⟩ :=
      ih h' fun q' hq' => hj q' (List.mem_cons_of_mem _ hq')
    have hnu : u.native = true := (congrArg Prod.fst (recvPackets_frame hu).1).trans hn
    -- the stamps in flight are distinct, so the batch's rest leaves `q`'s counter alone
    have hq : q.stamp ∉ qs.map Request.stamp := fun hm => by
      obtain ⟨q', hq', he⟩ := List.mem_map.1 hm
      have hc : Inv c s (q.answerWith val :: (qs.map (Request.answerWith val) ++ rx)) := h
      exact hc.not_mem_rest (tag_answerWith val q) (he ▸ mem_stamps_of_mem
        (List.mem_append_left _ (List.mem_map_of_mem _ hq')) (tag_answerWith val q'))
    obtain ⟨s', hs', hrs, hos, hns⟩ := (h'.recvPackets hu).handlePacket_advance hnu
      ((hout _ hq).trans (hj q (List.mem_cons_self _ _))) hne h8 hval
    refine ⟨s', by rw [List.map_cons, PushbackRecvSend.recvPackets, hu, ok_bind]; exact hs',
      hrs.trans hru, hos.trans hou, fun t ht => ?_, fun q' hq' => ?_⟩
    · simp only [List.map_cons, List.mem_cons, not_or] at ht
      rw [hns, AList.lookup_insert_ne ht.1, hout t ht.2]
    · rcases List.mem_cons.1 hq' with rfl | hq'
      · rw [hns, AList.lookup_insert]
      · rw [hns, AList.lookup_insert_ne fun he : q'.stamp = q.stamp =>
        hq (he ▸ List.mem_map_of_mem _ hq'), hin q' hq']

/-- Once every operation in flight has sent its `NUM_OPS` gets, the response to one of them
with a first payload byte of zero retires it without a panic and sends nothing. -/
theorem Inv.handlePacket_retire {q : Request} (h : Inv c s (q.answerWith (0 :: rest) :: rx))
    (hn : s.native = true) (hs : Stepped c.numOps s) :
    ∃ s', PushbackRecvSend.handlePacket c s (q.answerWith (0 :: rest)) = .ok s' ∧
      s'.wire = s.wire ∧ Stepped c.numOps s' := by
  cases q with
  | invoke tenant n pl t => cases h.get_of_native hn rfl
  | put tenant n key v t => cases h.get_of_native hn rfl
  | get tenant n key t =>
    have hp : (Packet.get t tenant (0 :: rest)).tag = some (.get, t) := rfl
    obtain ⟨k, hl⟩ := Option.isSome_iff_exists.1
      (AList.lookup_isSome.2 ((h.nativeIff hn t).2 (mem_stamps_cons s.wire hp rx)))
    have ho := h.count_cons hp
    simp only [Kind.logical, hn, if_true] at ho
    exact ⟨_, native_completion_zero hn (hl.trans (congrArg some (hs t k hl)))
      (h.fresh t (mem_stamps_cons s.wire hp rx)).le (by omega) tenant rest, rfl,
      fun t' n' hl' => hs t' n' (lookup_of_lookup_erase hl')⟩

theorem Inv.recvPackets_retire {b : List Packet} (h : Inv c s (b ++ rx)) (hn : s.native = true)
    (hs : Stepped c.numOps s) (hb : ∀ p ∈ b, ∃ q : Request, p = q.answerWith (0 :: rest)) :
    ∃ s', PushbackRecvSend.recvPackets c b s = .ok s' ∧ s'.wire = s.wire ∧
      Stepped c.numOps s' := by
  induction b generalizing rx with
  | nil => exact ⟨s, rfl, rfl, hs⟩
  | cons p ps ih =>
    have h' := h.perm List.perm_middle.symm
    obtain ⟨u, hu, hwu, hsu⟩ := ih h' fun p hp => hb p (List.mem_cons_of_mem _ hp)
    have hnu : u.native = true := (congrArg Prod.fst (recvPackets_frame hu).1).trans hn
    obtain ⟨q, rfl⟩ := hb p (List.mem_cons_self _ _)
    obtain ⟨s', hs', hws, hss⟩ := (h'.recvPackets hu).handlePacket_retire hnu hsu
    exact ⟨s', by rw [PushbackRecvSend.recvPackets, hu, ok_bind]; exact hs', hws.trans hwu, hss⟩

/-! ### Rounds -/

/-- A core of native mode with nothing in flight, its buffers long. Its run queue is empty,
as it is in every state of a native run. -/
structure QuietNative (s : PushbackRecvSend) : Prop where
  native : s.native = true
  wire : s.wire = []
  receiver : s.receiver = []
  long : Long s

/-- A native core in the middle of a round: its window full, the port empty, and every
operation in flight at step `j`. -/
structure Flight (j : ℕ) (s : PushbackRecvSend) : Prop where
  native : s.native = true
  receiver : s.receiver = []
  stepped : Stepped j s
  full : 32 ≤ s.outstanding
  long : Long s

/-- The server answers the whole window with `val`; every operation is still at step `j`. -/
theorem Flight.serve (val : List UInt8) (h1 : 1 ≤ c.numOps) (hs : Reachable c s)
    (hf : Flight j s) :
    ReflTransGen (StepBy c (Request.answerWith val)) s
        { s with wire := [], receiver := s.wire.map (Request.answerWith val) } ∧
      ∀ q ∈ s.wire, s.nativeState.lookup q.stamp = some j := by
  have hsrv : ReflTransGen (StepBy c (Request.answerWith val)) s _ :=
    serve_all (answers_answerWith val) (rfl : s.wire = s.wire)
  rw [hf.receiver, List.nil_append] at hsrv
  refine ⟨hsrv, fun q hq => ?_⟩
  have hi := Inv.reachable h1 (hs.refl_trans (StepBy.steps hsrv))
  obtain ⟨n, hl⟩ := Option.isSome_iff_exists.1 (AList.lookup_isSome.2 ((hi.nativeIff hf.native
    q.stamp).2 (mem_stamps_of_mem (List.mem_map_of_mem _ hq) (tag_answerWith val q))))
  exact hl.trans (congrArg some (hf.stepped _ _ hl))

/-- **One step of a round**: the server answers the window with a value of at least 30 bytes,
and the core polls it: every operation sends its next get. -/
theorem Flight.advance (h1 : 1 ≤ c.numOps) (hs : Reachable c s) (hf : Flight j s)
    (hne : j ≠ c.numOps) (h8 : j + 1 < 2 ^ 8) (hval : 30 ≤ val.length)
    (hr : s.recvd < s.responses) :
    ∃ s', ReflTransGen (StepBy c (Request.answerWith val)) s s' ∧ Flight (j + 1) s' ∧
      s'.recvd = s.recvd ∧ s'.sent = s.sent := by
  obtain ⟨hsrv, hj⟩ := hf.serve val h1 hs
  set v := { s with wire := [], receiver := s.wire.map (Request.answerWith val) }
  have hiv := Inv.reachable h1 (hs.refl_trans (StepBy.steps hsrv))
  have h' : Inv c { v with receiver := [] } (s.wire.map (Request.answerWith val) ++ []) := by
    rw [List.append_nil]; exact { hiv with }
  obtain ⟨u, hu, hru, hou, hout, hin⟩ := h'.recvPackets_advance hf.native hj hne h8 hval
  obtain ⟨w, hw, hwu⟩ := @recv_all c v u hr hu
  have hiw := hiv.recv hw
  obtain ⟨hsetw, hbufw⟩ := recv_frame hw
  have hnw : w.native = true := (congrArg Prod.fst hsetw).trans hf.native
  have hex : StepBy c (Request.answerWith val) v w := .execute _
    (execute_recv (show 32 ≤ v.outstanding from hf.full) hw (hiw.managerEmpty hnw).2)
  refine ⟨w, hsrv.tail hex, ⟨hnw, ?_, fun t n hl => ?_, ?_, hf.long.of_buffers hbufw⟩,
    (congrArg PushbackRecvSend.recvd hwu).trans hru, sent_of_buffers hbufw⟩
  · exact (congrArg PushbackRecvSend.receiver hwu).trans (recvPackets_frame hu).2.1
  · rw [congrArg PushbackRecvSend.nativeState hwu] at hl
    by_cases ht : t ∈ s.wire.map Request.stamp
    · obtain ⟨q, hq, rfl⟩ := List.mem_map.1 ht
      exact Option.some.inj (hl.symm.trans (hin q hq))
    · -- no other operation is in flight
      have hk := (hiv.nativeIff hf.native t).1
        (AList.lookup_isSome.1 (by rw [← hout t ht, hl]; rfl))
      rw [stamps_answers] at hk
      exact absurd (Multiset.mem_coe.1 hk) ht
  · rw [congrArg PushbackRecvSend.outstanding hwu, hou]; exact hf.full

/-- From step `j`, the steps of a round bring every operation in flight to its last step. -/
theorem Flight.advance_all (h1 : 1 ≤ c.numOps) (h255 : c.numOps ≤ 255) (hs : Reachable c s)
    (hf : Flight j s) (hj : j ≤ c.numOps) (hval : 30 ≤ val.length)
    (hr : s.recvd < s.responses) :
    ∃ s', ReflTransGen (StepBy c (Request.answerWith val)) s s' ∧ Flight c.numOps s' ∧
      s'.recvd = s.recvd ∧ s'.sent = s.sent := by
  obtain ⟨k, hk⟩ : ∃ k, c.numOps = j + k := ⟨c.numOps - j, by omega⟩
  induction k generalizing j s with
  | zero => exact ⟨s, .refl, hk ▸ hf, rfl, rfl⟩
  | succ k ih =>
    obtain ⟨u, hu, hfu, hru, hsu⟩ := hf.advance h1 hs (by omega) (by omega) hval hr
    obtain ⟨w, hw, hfw, hrw, hsw⟩ := ih (hs.refl_trans (StepBy.steps hu)) hfu (by omega)
      (by rw [hru, responses_of_steps (StepBy.steps hu)]; exact hr) (by omega)
    exact ⟨w, hu.trans hw, hfw, hrw.trans hru, hsw.trans hsu⟩

/-- **The last step of a round**: the server answers the window with a value whose first
byte is zero, and the core retires every operation: nothing is left in flight. -/
theorem Flight.retire (rest : List UInt8) (h1 : 1 ≤ c.numOps) (hs : Reachable c s)
    (hf : Flight c.numOps s)
    (hr : s.recvd < s.responses) :
    ∃ s', ReflTransGen (StepBy c (Request.answerWith (0 :: rest))) s s' ∧ QuietNative s' ∧
      s'.sent = s.sent := by
  obtain ⟨hsrv, -⟩ := hf.serve (0 :: rest) h1 hs
  set v := { s with wire := [], receiver := s.wire.map (Request.answerWith (0 :: rest)) }
  have hiv := Inv.reachable h1 (hs.refl_trans (StepBy.steps hsrv))
  have h' : Inv c { v with receiver := [] }
      (s.wire.map (Request.answerWith (0 :: rest)) ++ []) := by
    rw [List.append_nil]; exact { hiv with }
  obtain ⟨u, hu, hwu, -⟩ := h'.recvPackets_retire hf.native hf.stepped
    (fun p hp => by obtain ⟨q, -, rfl⟩ := List.mem_map.1 hp; exact ⟨q, rfl⟩)
  obtain ⟨w, hw, hw'⟩ := @recv_all c v u hr hu
  have hiw := hiv.recv hw
  obtain ⟨hsetw, hbufw⟩ := recv_frame hw
  have hnw : w.native = true := (congrArg Prod.fst hsetw).trans hf.native
  have hex : StepBy c (Request.answerWith (0 :: rest)) v w := .execute _
    (execute_recv (show 32 ≤ v.outstanding from hf.full) hw (hiw.managerEmpty hnw).2)
  exact ⟨w, hsrv.tail hex, ⟨hnw, (congrArg PushbackRecvSend.wire hw').trans hwu,
    (congrArg PushbackRecvSend.receiver hw').trans (recvPackets_frame hu).2.1,
    hf.long.of_buffers hbufw⟩, sent_of_buffers hbufw⟩

/-- **One native round**: from a native core with nothing in flight, before its target and
with some budget left, the core fills the window with 32 gets; `NUM_OPS` times the server
answers the window with a value of at least 30 bytes starting with a zero byte and the core
polls it, the last time retiring the 32 operations. -/
theorem QuietNative.round (h1 : 1 ≤ c.numOps) (h255 : c.numOps ≤ 255) (rest : List UInt8)
    (hrest : 29 ≤ rest.length) (hs : Reachable c s) (hq : QuietNative s)
    (hr : s.recvd < s.responses) (hb : s.sent < s.requests) :
    ∃ s', ReflTransGen (StepBy c (Request.answerWith (0 :: rest))) s s' ∧ QuietNative s' ∧
      s'.recvd = s.recvd + 32 ∧ s'.sent = s.sent + 32 := by
  have hi := Inv.reachable h1 hs
  obtain ⟨ho, he⟩ := hi.idle hq.wire hq.receiver
  obtain ⟨u, hu, hlu⟩ := hq.long.send
  rcases send_fills_window hu with ⟨hle, -⟩ | ⟨-, hsu, hou, -, -⟩
  · omega
  obtain ⟨hset, hrxu⟩ := send_frame hu
  simp only [setup, Prod.mk.injEq] at hset
  have hwu : u.waiting = [] := (send_waiting hu).trans (hi.managerEmpty hq.native).2
  have hru : u.recvd < u.responses := by rw [(send_tally hu).1, hset.2.2.2.1]; exact hr
  -- the first `execute` fills the window, every operation at its first step
  have hex : StepBy c (Request.answerWith (0 :: rest)) s u :=
    .execute ⟨0, idleTask⟩ (execute_send hu hru hwu)
  have hempty : Stepped 1 s := fun t n hl => absurd
    ((hi.nativeIff hq.native t).1 (AList.lookup_isSome.1 (by rw [hl]; rfl)))
    (by rw [hq.wire, hq.receiver]; exact Multiset.not_mem_zero t)
  have hfu : Flight 1 u := ⟨hset.1.trans hq.native, hrxu.trans hq.receiver,
    send_stepped hq.native hempty hu, by omega, hlu⟩
  have hu' := hs.step hex.step
  -- `NUM_OPS - 1` steps bring every operation to its last step, and the last one retires it
  obtain ⟨v, hv, hfv, hrv, hsv⟩ := hfu.advance_all h1 h255 hu' h1
    (show 30 ≤ (0 :: rest).length by simp; omega) hru
  obtain ⟨w, hw, hqw, hsw⟩ := hfv.retire rest h1 (hu'.refl_trans (StepBy.steps hv))
    (by rw [hrv, responses_of_steps (StepBy.steps hv)]; exact hru)
  obtain ⟨-, hew⟩ := (Inv.reachable h1
    ((hu'.refl_trans (StepBy.steps hv)).refl_trans (StepBy.steps hw))).idle hqw.wire
    hqw.receiver
  exact ⟨w, (ReflTransGen.single hex).trans (hv.trans hw), hqw, by omega, by omega⟩

section Run

variable {resps reqs : ℕ} {master : Bool} {config : ClientConfig} {clock : Tsc}
  {rng : ℕ → UInt32} {keyRng tenantRng : Zipf}

theorem QuietNative.new (hk : 4 ≤ config.keyLen) (hi : config.useInvoke = false) :
    QuietNative (new resps master config reqs clock rng keyRng tenantRng) :=
  ⟨by simp [PushbackRecvSend.new, hi], rfl, rfl, Long.new hk⟩

/-- **Every target within the budget is reached in native mode**: for every `NUM_OPS` in
`1..=255`, with keys of at least four bytes and a target no larger than the budget rounded up
to a multiple of 32, a run whose server answers every get with thirty zero bytes
(`StepBy.steps`: a run of the system) leads the core to a state whose next `execute` sets
`finished`. -/
theorem native_reaches_target (h1 : 1 ≤ c.numOps) (h255 : c.numOps ≤ 255)
    (hk : 4 ≤ config.keyLen) (hi : config.useInvoke = false)
    (hr : resps ≤ 32 * ((reqs + 31) / 32)) :
    ∃ u s, ReflTransGen (StepBy c (Request.answerWith (zeros 30)))
        (new resps master config reqs clock rng keyRng tenantRng) u ∧
      execute c ⟨0, idleTask⟩ u = .ok s ∧ s.finished = true :=
  reaches_of_round QuietNative (fun hs hq => hq.round h1 h255 (zeros 29) (by simp [zeros]) hs)
    (fun _ hq hr => execute_finishes hq.long hr) (QuietNative.new hk hi) hr

theorem native_reaches_target_sample :
    ∃ u s, ReflTransGen (StepBy ⟨3, false⟩ (Request.answerWith (zeros 30)))
      (new 64 true ⟨4, 4, 0, false, 40⟩ 40 Tsc.succ (fun _ => 0) (Zipf.const 1 1 le_rfl)
        (Zipf.const 1 1 le_rfl)) u ∧
      execute ⟨3, false⟩ ⟨0, idleTask⟩ u = .ok s ∧ s.finished = true :=
  native_reaches_target (by decide) (by decide) (by decide) rfl (by decide)

end Run

end PushbackRecvSend

namespace Cluster

open Relation

variable {c : Consts} {config : ClientConfig} {clock : Fin 8 → Tsc}
  {rng : Fin 8 → ℕ → UInt32} {keyRng tenantRng : Fin 8 → Zipf}

/-- From a state of the system that `main` has not stopped, core `i` can run to its target:
its own moves, then the `execute` that sets its `finished`, the other cores waiting. -/
theorem finish_core {k : Cluster} (hk : k.stopped = false) {i : Fin 8} {u s : PushbackRecvSend}
    (hu : ReflTransGen (PushbackRecvSend.Step c) (k.cores i) u)
    (hs : PushbackRecvSend.execute c ⟨0, PushbackRecvSend.idleTask⟩ u = .ok s)
    (hf : s.finished = true) :
    ∃ k', ReflTransGen (Step c) k k' ∧ k'.stopped = false ∧ k'.finished = true ∧
      k'.cores i = s ∧ ∀ j, j ≠ i → k'.cores j = k.cores j := by
  obtain ⟨b, hb⟩ := lift hk hu
  refine ⟨_, hb.tail (Step.execute i ⟨0, PushbackRecvSend.idleTask⟩ hk (by simpa using hs)),
    hk, by simp [hf], by simp, fun j hj => by simp [Function.update_noteq hj]⟩

/-- From a state of the system that `main` has not stopped, the cores below `n`, one after the
other, each run to their target; the others have not moved. -/
theorem finish_cores {k₀ : Cluster} (hk₀ : k₀.stopped = false)
    (hcore : ∀ i, ∃ u s, ReflTransGen (PushbackRecvSend.Step c) (k₀.cores i) u ∧
      PushbackRecvSend.execute c ⟨0, PushbackRecvSend.idleTask⟩ u = .ok s ∧ s.finished = true)
    (n : ℕ) (hn : n ≤ 8) :
    ∃ k, ReflTransGen (Step c) k₀ k ∧ k.stopped = false ∧ (0 < n → k.finished = true) ∧
      ∀ i : Fin 8, (i.val < n → (k.cores i).finished = true) ∧
        (n ≤ i.val → k.cores i = k₀.cores i) := by
  induction n with
  | zero => exact ⟨_, .refl, hk₀, by omega, fun i => ⟨by omega, fun _ => rfl⟩⟩
  | succ n ih =>
    obtain ⟨k, hk, hks, -, hki⟩ := ih (by omega)
    obtain ⟨u, s, hu, hs, hf⟩ := hcore ⟨n, by omega⟩
    rw [← (hki ⟨n, by omega⟩).2 le_rfl] at hu
    obtain ⟨k', hk', hks', hkf', hki', hkj'⟩ := finish_core hks hu hs hf
    refine ⟨k', hk.trans hk', hks', fun _ => hkf', fun j => ⟨fun hj => ?_, fun hj => ?_⟩⟩
    · by_cases hji : j = ⟨n, by omega⟩
      · rw [hji, hki']; exact hf
      · rw [hkj' j hji]
        exact (hki j).1 (by have : j.val ≠ n := fun h => hji (Fin.ext h); omega)
    · rw [hkj' j (fun h => by rw [h] at hj; simp at hj)]
      exact (hki j).2 (by omega)

/-- In every state of every run of the system, a core that has set `finished` has counted its
target and recorded a `stop` later than its `start`. -/
theorem finished_core_done {k : Cluster}
    (h : ReflTransGen (Step c) (start config clock rng keyRng tenantRng) k) {i : Fin 8}
    (hf : (k.cores i).finished = true) :
    (k.cores i).responses ≤ (k.cores i).recvd ∧ (k.cores i).start < (k.cores i).stop := by
  have hcnt := (safe_run h).core i hf
  have hrun := cores_run h i
  refine ⟨hcnt, ((PushbackRecvSend.Reachable.new ..).refl_trans hrun).stopStamp.after hcnt ?_⟩
  rw [PushbackRecvSend.responses_of_steps hrun]
  exact Nat.succ_pos _

/-- **The client can stop with every core done**: in invoke mode, or in native mode with
`NUM_OPS ≤ 255`, with keys of at least four bytes and `num_reqs + 31 ≥ 34 * 1000 * 1000`, some
interleaving of the eight cores runs every core to its target, each setting `finished` and
recording a `stop` later than its `start`, before `main` sees `FINISHED` and stops the client.
So every core's `drop` computes `stop - start` without underflow. With `never_stops` this is
the exact budget at which `main` can stop; `stop_before_all_done` is the interleaving that
stops it early. -/
theorem stops_with_all_done (h1 : 1 ≤ c.numOps)
    (hm : config.useInvoke = true ∨ c.numOps ≤ 255)
    (hk : 4 ≤ config.keyLen) (hb : 34 * 1000 * 1000 ≤ config.numReqs + 31) :
    ∃ k, ReflTransGen (Step c) (start config clock rng keyRng tenantRng) k ∧
      k.stopped = true ∧ ∀ i,
        (k.cores i).responses ≤ (k.cores i).recvd ∧ (k.cores i).start < (k.cores i).stop := by
  have hr : 34 * 1000 * 1000 ≤ 32 * ((config.numReqs + 31) / 32) := by omega
  have hcore : ∀ i, ∃ u s, ReflTransGen (PushbackRecvSend.Step c)
      ((start config clock rng keyRng tenantRng).cores i) u ∧
      PushbackRecvSend.execute c ⟨0, PushbackRecvSend.idleTask⟩ u = .ok s ∧
      s.finished = true := by
    intro i
    cases hi : config.useInvoke
    · obtain ⟨u, s, hu, hs⟩ := PushbackRecvSend.reaches_of_round _
        (fun hs hq => hq.round h1 (hm.resolve_left (by simp [hi])) (zeros 29) (by simp [zeros]) hs)
        (fun _ hq hr => PushbackRecvSend.execute_finishes hq.long hr)
        (PushbackRecvSend.QuietNative.new hk hi) hr
      exact ⟨u, s, PushbackRecvSend.StepBy.steps hu, hs⟩
    · obtain ⟨u, s, hu, hs⟩ := PushbackRecvSend.reaches_of_round _
        (fun hs hq => hq.round h1 hs) (fun _ hq hr => hq.finish hr)
        (PushbackRecvSend.Quiet.new hk hi) hr
      exact ⟨u, s, PushbackRecvSend.StepBy.steps hu, hs⟩
  obtain ⟨k, hk, -, hkf, hki⟩ := finish_cores rfl hcore 8 le_rfl
  have hk' := hk.tail (Step.stop (hkf (by omega)))
  exact ⟨_, hk', rfl, fun i => finished_core_done hk' ((hki i).1 i.isLt)⟩

theorem stops_with_all_done_sample : ∃ k, ReflTransGen (Step (Consts.shipped false))
    (start ⟨4, 4, 0, false, 34 * 1000 * 1000 - 31⟩ (fun _ => Tsc.succ) (fun _ _ => 0)
      (fun _ => Zipf.const 1 1 le_rfl) (fun _ => Zipf.const 1 1 le_rfl)) k ∧ k.stopped = true ∧
    ∀ i, (k.cores i).responses ≤ (k.cores i).recvd ∧ (k.cores i).start < (k.cores i).stop :=
  stops_with_all_done le_rfl (.inr (by decide)) (by decide) (by decide)

end Cluster

end Kayak
