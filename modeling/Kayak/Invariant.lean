import Kayak.Spec
import Mathlib.Data.Multiset.Nodup

/-!
# The run invariant

What holds of every state of every run, in invoke mode and in native mode. Its facts are
about what is in flight: the requests on the wire and the responses not yet handled, by
kind and stamp (`flight`). The responses not yet handled are those at the port and, in the
middle of `recv`, those polled and not yet popped: the invariant takes their list `rx` as
a parameter, and of a state between two moves it is `s.receiver`.

* Accounting: `recvd + outstanding = sent`, `outstanding ≤ 32`, and `outstanding` counts
  the logical requests in flight: the invokes in invoke mode, the native operations in
  native mode.
* Stamps: everything in flight has a distinct stamp, read from the clock before now.
* Tasks (invoke mode): `manager` holds a task under exactly the stamps in flight, under its
  own id; the run queue holds tasks with distinct ids that are not in `manager`; no
  `insert` has ever replaced an entry.
* Steps (native mode): `native_state` has an entry exactly for the stamps in flight, all
  gets; its counter is between `1` and `NUM_OPS` and counts the gets sent under the stamp.

## What is proved

`Inv.reachable`: the invariant holds in every reachable state, when `1 ≤ NUM_OPS`.
-/

namespace Kayak

/-- The kind and stamp of a request. -/
def Request.tag (q : Request) : Kind × ℕ := (q.kind, q.stamp)

/-- Whether a request of this kind is one of the logical requests the window counts: an
invoke in invoke mode, a get or a put in native mode. -/
def Kind.logical (native : Bool) : Kind → Bool
  | .invoke => !native
  | _ => native

/-- A response as the server of the run model sends it: a known opcode, and an invoke
answered `Ok` or `Pushback`. -/
def Packet.Reply : Packet → Prop
  | .invoke _ st _ => st = .statusOk ∨ st = .statusPushback
  | .other => False
  | _ => True

theorem reply_of_answers {q : Request} {p : Packet} (h : answers q p) : p.Reply := by
  cases q <;> cases p <;> simp_all [answers, Packet.Reply]

namespace PushbackRecvSend

/-- What is in flight, by kind and stamp: the requests on `wire`, the responses in `rx`. -/
def flight (wire : List Request) (rx : List Packet) : Multiset (Kind × ℕ) :=
  ↑(wire.map Request.tag ++ rx.filterMap Packet.tag)

/-- The stamps in flight. -/
def stamps (wire : List Request) (rx : List Packet) : Multiset ℕ := (flight wire rx).map Prod.snd

theorem flight_perm {wire : List Request} {rx rx' : List Packet} (h : rx.Perm rx') :
    flight wire rx = flight wire rx' :=
  Multiset.coe_eq_coe.2 ((h.filterMap _).append_left _)

theorem flight_wire_snoc (wire : List Request) (q : Request) (rx : List Packet) :
    flight (wire ++ [q]) rx = Request.tag q ::ₘ flight wire rx := by
  rw [flight, flight, Multiset.cons_coe, Multiset.coe_eq_coe, List.map_append,
    List.append_assoc]
  exact List.perm_middle

theorem flight_rx_snoc (wire : List Request) (rx : List Packet) {p : Packet} {x : Kind × ℕ}
    (hp : p.tag = some x) : flight wire (rx ++ [p]) = x ::ₘ flight wire rx := by
  rw [flight, flight, Multiset.cons_coe, Multiset.coe_eq_coe, List.filterMap_append,
    List.filterMap_cons, List.filterMap_nil, hp, ← List.append_assoc]
  exact List.perm_append_singleton _ _

theorem flight_erase {wire : List Request} {q : Request} (hq : q ∈ wire) (rx : List Packet) :
    flight wire rx = Request.tag q ::ₘ flight (wire.erase q) rx := by
  rw [flight, flight, Multiset.cons_coe, Multiset.coe_eq_coe, ← List.cons_append]
  exact (((List.perm_cons_erase hq).map _).append_right _)

/-- What holds of every state of a run, `rx` being the responses not yet handled. -/
structure Inv (c : Consts) (s : PushbackRecvSend) (rx : List Packet) : Prop where
  acct : s.recvd + s.outstanding = s.sent
  window : s.outstanding ≤ 32
  count : s.outstanding = (flight s.wire rx).countP fun x => x.1.logical s.native
  nodup : (stamps s.wire rx).Nodup
  reply : ∀ p ∈ rx, p.Reply
  fresh : ∀ t ∈ stamps s.wire rx, t < s.clock.read s.ticks
  freshSender : ∀ q ∈ s.sender, q.stamp < s.clock.read s.ticks
  freshWaiting : ∀ m ∈ s.waiting, m.id < s.clock.read s.ticks
  putPct : s.workload.putPct = 0
  /-- Invoke mode: no put is ever sent. -/
  noPut : s.native = false → ∀ x ∈ flight s.wire rx, x.1 ≠ .put
  /-- Invoke mode: a task is pending exactly while something of it is in flight. -/
  managerIff : s.native = false → ∀ t, t ∈ s.manager ↔ t ∈ stamps s.wire rx
  managerId : ∀ t m, s.manager.lookup t = some m → m.id = t
  waitingNodup : (s.waiting.map TaskManager.id).Nodup
  waitingFree : ∀ m ∈ s.waiting, m.id ∉ s.manager
  noReplace : Info.alreadyPresent ∉ s.log
  nativeEmpty : s.native = false → s.nativeState = ∅
  /-- Native mode: only gets are sent. -/
  onlyGets : s.native = true → ∀ x ∈ flight s.wire rx, x.1 = .get
  /-- Native mode: an operation has a step counter exactly while its get is in flight. -/
  nativeIff : s.native = true → ∀ t, t ∈ s.nativeState ↔ t ∈ stamps s.wire rx
  /-- Native mode: the counter lies in `1..=NUM_OPS` and counts the gets sent. -/
  steps : s.native = true → ∀ t n, s.nativeState.lookup t = some n →
    1 ≤ n ∧ n ≤ c.numOps ∧ n = s.sender.countP fun q => q.kind = .get ∧ q.stamp = t
  managerEmpty : s.native = true → s.manager = ∅ ∧ s.waiting = []

variable {c : Consts} {s s' : PushbackRecvSend} {rx : List Packet}

/-- The invariant depends on the responses in flight only through their multiset and
their shape; the port's queue does not enter it. -/
theorem Inv.rewire {w : List Request} {rx' : List Packet} {r : List Packet} (h : Inv c s rx)
    (hf : flight w rx' = flight s.wire rx) (hr : ∀ p ∈ rx', p.Reply) :
    Inv c { s with wire := w, receiver := r } rx' := by
  have hs : stamps w rx' = stamps s.wire rx := by rw [stamps, stamps, hf]
  exact { h with
    count := hf ▸ h.count, nodup := hs ▸ h.nodup, fresh := hs ▸ h.fresh, reply := hr
    noPut := hf ▸ h.noPut, managerIff := hs ▸ h.managerIff, onlyGets := hf ▸ h.onlyGets
    nativeIff := hs ▸ h.nativeIff }

theorem Inv.perm {rx' : List Packet} (h : Inv c s rx) (hp : rx.Perm rx') : Inv c s rx' :=
  h.rewire (flight_perm hp.symm) fun p hp' => h.reply p (hp.mem_iff.2 hp')

/-- The invariant holds at `new`. -/
theorem inv_new (c : Consts) (resps : ℕ) (master : Bool) (config : ClientConfig) (reqs : ℕ)
    (clock : Tsc) (rng : ℕ → UInt32) (keyRng tenantRng : Zipf) :
    Inv c (new resps master config reqs clock rng keyRng tenantRng) [] where
  acct := rfl
  window := Nat.zero_le _
  count := rfl
  nodup := Multiset.nodup_zero
  reply := by simp
  fresh := by simp [stamps, flight, new]
  freshSender := by simp [new]
  freshWaiting := by simp [new]
  putPct := rfl
  noPut := by simp [flight, new]
  managerIff := by simp [stamps, flight, new]
  managerId := by simp [new]
  waitingNodup := List.nodup_nil
  waitingFree := by simp [new]
  noReplace := by simp [new]
  nativeEmpty := fun _ => rfl
  onlyGets := by simp [flight, new]
  nativeIff := by simp [stamps, flight, new]
  steps := by simp [new]
  managerEmpty := fun _ => ⟨rfl, rfl⟩

/-- The server's answer moves a request from the wire to the port: what is in flight is the
same. -/
theorem Inv.serve {q : Request} {p : Packet} (h : Inv c s rx) (hq : q ∈ s.wire)
    (hp : answers q p) : Inv c (s.serve q p) (rx ++ [p]) :=
  h.rewire (by rw [flight_rx_snoc _ _ (tag_of_answers hp), flight_erase hq rx]; rfl)
    fun p' hp' => (List.mem_append.1 hp').elim (h.reply p') fun hp'' => by
      rw [List.mem_singleton.1 hp'']; exact reply_of_answers hp

theorem stamps_wire_snoc (wire : List Request) (q : Request) (rx : List Packet) :
    stamps (wire ++ [q]) rx = q.stamp ::ₘ stamps wire rx := by
  rw [stamps, stamps, flight_wire_snoc, Multiset.map_cons]; rfl

/-! ### Send -/

section Fresh

variable (h : Inv c s rx) {q : Request} (hq : q.stamp = s.clock.read s.ticks)
include h hq

/-- A request stamped with the clock's current reading is new. -/
theorem Inv.nodup_snoc : (stamps (s.wire ++ [q]) rx).Nodup := by
  rw [stamps_wire_snoc, hq]
  exact Multiset.nodup_cons.2 ⟨fun hm => lt_irrefl _ (h.fresh _ hm), h.nodup⟩

theorem Inv.fresh_snoc : ∀ t ∈ stamps (s.wire ++ [q]) rx, t < s.clock.read (s.ticks + 1) := by
  simp only [stamps_wire_snoc, Multiset.mem_cons]
  rintro t (rfl | ht)
  · exact hq ▸ Tsc.read_lt_succ _ _
  · exact (h.fresh t ht).trans (Tsc.read_lt_succ _ _)

theorem Inv.freshSender_snoc :
    ∀ q' ∈ s.sender ++ [q], q'.stamp < s.clock.read (s.ticks + 1) := by
  simp only [List.mem_append, List.mem_singleton]
  rintro q' (hq' | rfl)
  · exact (h.freshSender q' hq').trans (Tsc.read_lt_succ _ _)
  · exact hq ▸ Tsc.read_lt_succ _ _

end Fresh

section Register

/-! Invoke mode: `add_request` and a parked task's get both file a task under the stamp of a
request they put on the wire. -/

variable (h : Inv c s rx) (hn : s.native = false)
include h hn

theorem Inv.noPut_snoc {q : Request} (hq : q.kind ≠ .put) :
    ∀ x ∈ flight (s.wire ++ [q]) rx, x.1 ≠ .put := by
  simp only [flight_wire_snoc, Multiset.mem_cons]
  rintro x (rfl | hx)
  · exact hq
  · exact h.noPut hn x hx

theorem Inv.managerIff_insert (q : Request) (m : TaskManager) :
    ∀ t, t ∈ s.manager.insert q.stamp m ↔ t ∈ stamps (s.wire ++ [q]) rx := by
  intro t
  simp only [stamps_wire_snoc, Multiset.mem_cons, AList.mem_insert, h.managerIff hn t]

end Register

/-- A task filed under its own id keeps every task of `manager` under its id. -/
theorem Inv.managerId_insert (h : Inv c s rx) (m : TaskManager) :
    ∀ t m', (s.manager.insert m.id m).lookup t = some m' → m'.id = t := by
  intro t m'
  by_cases ht : t = m.id
  · subst ht
    rw [AList.lookup_insert, Option.some.injEq]
    rintro rfl
    rfl
  · rw [AList.lookup_insert_ne ht]
    exact h.managerId t m'

theorem Inv.freshWaiting_succ (h : Inv c s rx) :
    ∀ m ∈ s.waiting, m.id < s.clock.read (s.ticks + 1) :=
  fun m hm => (h.freshWaiting m hm).trans (Tsc.read_lt_succ _ _)

/-- One iteration of the send loop keeps the invariant, when the window has room. -/
theorem Inv.sendOne (h : Inv c s rx) (h1 : 1 ≤ c.numOps) (hlt : s.outstanding < 32)
    (hs : s.sendOne = .ok s') : Inv c s' rx := by
  have hfresh : s.clock.read s.ticks ∉ stamps s.wire rx := fun hm => lt_irrefl _ (h.fresh _ hm)
  cases hn : s.native
  · obtain ⟨pg, pp, p, tenant, rfl⟩ := sendOne_invoke hn hs
    have hm : s.clock.read s.ticks ∉ s.manager := fun hm => hfresh ((h.managerIff hn _).1 hm)
    exact {
      acct := by simp only; have := h.acct; omega
      window := by simp only; omega
      count := by simp only [flight_wire_snoc, Multiset.countP_cons, h.count, hn]; rfl
      nodup := h.nodup_snoc rfl
      reply := h.reply
      fresh := h.fresh_snoc rfl
      freshSender := h.freshSender_snoc rfl
      freshWaiting := h.freshWaiting_succ
      putPct := h.putPct
      noPut := fun _ => h.noPut_snoc hn nofun
      managerIff := fun _ => h.managerIff_insert hn (.invoke tenant 8 p _) _
      managerId := h.managerId_insert (TaskManager.new p tenant 8 _)
      waitingNodup := h.waitingNodup
      waitingFree := fun m hm' => by
        simp only [AList.mem_insert, not_or]
        exact ⟨(h.freshWaiting m hm').ne, h.waitingFree m hm'⟩
      noReplace := by simp [hm, h.noReplace]
      nativeEmpty := h.nativeEmpty
      onlyGets := by simp [hn]
      nativeIff := by simp [hn]
      steps := by simp [hn]
      managerEmpty := by simp [hn] }
  · obtain ⟨-, rfl⟩ := sendOne_native hn hs
    have hns : s.clock.read s.ticks ∉ s.nativeState := fun hm => hfresh ((h.nativeIff hn _).1 hm)
    rw [Pushback.call_of_putPct h.putPct, orInsert_of_not_mem hns]
    exact {
      acct := by simp only; have := h.acct; omega
      window := by simp only; omega
      count := by simp only [flight_wire_snoc, Multiset.countP_cons, h.count, hn]; rfl
      nodup := h.nodup_snoc rfl
      reply := h.reply
      fresh := h.fresh_snoc rfl
      freshSender := h.freshSender_snoc rfl
      freshWaiting := h.freshWaiting_succ
      putPct := h.putPct
      noPut := by simp [hn]
      managerIff := by simp [hn]
      managerId := h.managerId
      waitingNodup := h.waitingNodup
      waitingFree := h.waitingFree
      noReplace := h.noReplace
      nativeEmpty := by simp [hn]
      onlyGets := by
        simp only [flight_wire_snoc, Multiset.mem_cons]
        rintro - x (rfl | hx)
        · rfl
        · exact h.onlyGets hn x hx
      nativeIff := by
        intro _ t
        simp only [stamps_wire_snoc, Multiset.mem_cons, AList.mem_insert, h.nativeIff hn t]
        rfl
      steps := by
        intro _ t n
        by_cases ht : t = s.clock.read s.ticks
        · subst ht
          rw [AList.lookup_insert, Option.some.injEq]
          rintro rfl
          refine ⟨le_rfl, h1, ?_⟩
          rw [List.countP_append, List.countP_eq_zero.2 fun q hq => by
            simp [(h.freshSender q hq).ne]]
          simp [nativeRequest]
        · rw [AList.lookup_insert_ne ht]
          intro hl
          obtain ⟨h1, h2, h3⟩ := h.steps hn t n hl
          refine ⟨h1, h2, ?_⟩
          rw [List.countP_append, ← h3]
          simp [nativeRequest, Ne.symm ht]
      managerEmpty := h.managerEmpty }


theorem Inv.send (h : Inv c s rx) (h1 : 1 ≤ c.numOps) (hs : s.send = .ok s') : Inv c s' rx :=
  send_rel (fun a b => Inv c a rx → Inv c b rx) (fun _ h => h) (fun h1 h2 h => h2 (h1 h))
    (fun hlt hu h => h.sendOne h1 hlt hu) hs h

/-! ### Receive -/

theorem flight_cons (wire : List Request) {p : Packet} {x : Kind × ℕ} (hp : p.tag = some x)
    (rx : List Packet) : flight wire (p :: rx) = x ::ₘ flight wire rx := by
  rw [flight, flight, Multiset.cons_coe, Multiset.coe_eq_coe, List.filterMap_cons, hp]
  exact List.perm_middle

theorem stamps_cons (wire : List Request) {p : Packet} {x : Kind × ℕ} (hp : p.tag = some x)
    (rx : List Packet) : stamps wire (p :: rx) = x.2 ::ₘ stamps wire rx := by
  rw [stamps, stamps, flight_cons wire hp, Multiset.map_cons]

theorem mem_flight_cons (wire : List Request) {p : Packet} {x : Kind × ℕ} (hp : p.tag = some x)
    (rx : List Packet) : x ∈ flight wire (p :: rx) := by
  rw [flight_cons wire hp]; exact Multiset.mem_cons_self _ _

theorem mem_stamps_cons (wire : List Request) {p : Packet} {k : Kind} {t : ℕ}
    (hp : p.tag = some (k, t)) (rx : List Packet) : t ∈ stamps wire (p :: rx) := by
  rw [stamps_cons wire hp]; exact Multiset.mem_cons_self _ _

theorem mem_stamps_cons_of_mem {wire : List Request} {p : Packet} {x : Kind × ℕ}
    (hp : p.tag = some x) {t : ℕ} (ht : t ∈ stamps wire rx) : t ∈ stamps wire (p :: rx) := by
  rw [stamps_cons wire hp]; exact Multiset.mem_cons_of_mem ht

theorem mem_flight_cons_of_mem {wire : List Request} {p : Packet} {x y : Kind × ℕ}
    (hp : p.tag = some x) (hy : y ∈ flight wire rx) : y ∈ flight wire (p :: rx) := by
  rw [flight_cons wire hp]; exact Multiset.mem_cons_of_mem hy

/-- Invoke mode: no put response is in flight. -/
theorem Inv.put_free {t : ℕ} (h : Inv c s (.put t :: rx)) (hn : s.native = false) : False :=
  h.noPut hn _ (mem_flight_cons s.wire (show (Packet.put t).tag = some (.put, t) from rfl) rx)
    rfl

/-- Native mode: every response in flight is a get. -/
theorem Inv.get_of_native {p : Packet} {k : Kind} {t : ℕ} (h : Inv c s (p :: rx))
    (hn : s.native = true) (hp : p.tag = some (k, t)) : k = .get :=
  h.onlyGets hn _ (mem_flight_cons s.wire hp rx)

section Pop

variable {p : Packet} {k : Kind} {t : ℕ} (h : Inv c s (p :: rx)) (hp : p.tag = some (k, t))
include h hp

theorem Inv.not_mem_rest : t ∉ stamps s.wire rx :=
  (Multiset.nodup_cons.1 (stamps_cons s.wire hp rx ▸ h.nodup)).1

theorem Inv.nodup_rest : (stamps s.wire rx).Nodup :=
  (Multiset.nodup_cons.1 (stamps_cons s.wire hp rx ▸ h.nodup)).2

/-- A response retires its stamp from a table keyed by the stamps in flight. -/
theorem Inv.erase_iff {V : Type} {m : Table V} (hm : ∀ t', t' ∈ m ↔ t' ∈ stamps s.wire (p :: rx)) :
    ∀ t', t' ∈ m.erase t ↔ t' ∈ stamps s.wire rx := by
  intro t'
  simp only [AList.mem_erase, hm t', stamps_cons _ hp, Multiset.mem_cons]
  constructor
  · rintro ⟨hne, rfl | ht⟩
    · exact absurd rfl hne
    · exact ht
  · intro ht
    exact ⟨fun he => h.not_mem_rest hp (he ▸ ht), .inr ht⟩

/-- Invoke mode: the task of the stamp a response carries is pending. -/
theorem Inv.lookup_manager (hn : s.native = false) : ∃ m, s.manager.lookup t = some m :=
  Option.isSome_iff_exists.1
    (AList.lookup_isSome.2 ((h.managerIff hn t).2 (mem_stamps_cons s.wire hp rx)))

end Pop

/-- Moving the pending task `m` of stamp `t` to the run queue keeps the queue's ids
distinct and out of `manager`. -/
theorem Inv.park {rx : List Packet} (h : Inv c s rx) {m : TaskManager}
    (hm : s.manager.lookup t = some m) (m' : TaskManager) (hid : m'.id = m.id) :
    ((s.waiting ++ [m']).map TaskManager.id).Nodup ∧
      ∀ w ∈ s.waiting ++ [m'], w.id ∉ s.manager.erase t := by
  have ht : m.id = t := h.managerId t m hm
  have hmem : t ∈ s.manager := AList.lookup_isSome.1 (by simp [hm])
  refine ⟨?_, ?_⟩
  · rw [List.map_append, List.nodup_append]
    refine ⟨h.waitingNodup, List.nodup_singleton _, ?_⟩
    simp only [List.map_cons, List.map_nil, List.disjoint_singleton, List.mem_map, not_exists,
      not_and]
    intro w hw hw'
    exact h.waitingFree w hw (by rw [hw', hid, ht]; exact hmem)
  · simp only [List.mem_append, List.mem_singleton, AList.mem_erase, not_and_or, not_not]
    rintro w (hw | rfl)
    · exact .inr (h.waitingFree w hw)
    · exact .inl (hid.trans ht)

variable {t : ℕ} {r : List UInt8}

/-- `outstanding` counts the response at the head of what is in flight if it is logical. -/
theorem Inv.count_cons {p : Packet} {k : Kind} (h : Inv c s (p :: rx))
    (hp : p.tag = some (k, t)) :
    s.outstanding = (flight s.wire rx).countP (fun x => x.1.logical s.native) +
      if k.logical s.native then 1 else 0 := by
  rw [h.count, flight_cons _ hp, Multiset.countP_cons]

/-- Invoke mode: a response to an invoke in flight is counted in `outstanding`. -/
theorem Inv.one_le_outstanding {st : RpcStatus} (h : Inv c s (.invoke t st r :: rx))
    (hn : s.native = false) : 1 ≤ s.outstanding := by
  rw [h.count_cons rfl]; simp [Kind.logical, hn]

theorem Inv.statusOk (h : Inv c s (.invoke t .statusOk r :: rx)) (hn : s.native = false)
    (hs : handlePacket c s (.invoke t .statusOk r) = .ok s') : Inv c s' rx := by
  have hp : Packet.tag (.invoke t .statusOk r) = some (.invoke, t) := rfl
  have ho := h.one_le_outstanding hn
  have hlt := h.fresh t (mem_stamps_cons s.wire hp rx)
  rw [handlePacket_statusOk hn hlt.le ho, Except.ok.injEq] at hs
  subst hs
  have hlt' : s.clock.read s.ticks < s.clock.read (s.ticks + 1) := Tsc.read_lt_succ _ _
  exact {
    acct := by simp only; have := h.acct; omega
    window := by simp only; have := h.window; omega
    count := by
      have := h.count_cons hp
      simp only [Kind.logical, hn, Bool.not_false, if_true] at this ⊢; omega
    nodup := h.nodup_rest hp
    reply := fun p hp' => h.reply p (List.mem_cons_of_mem _ hp')
    fresh := fun t' ht => (h.fresh t' (mem_stamps_cons_of_mem hp ht)).trans hlt'
    freshSender := fun q hq => (h.freshSender q hq).trans hlt'
    freshWaiting := h.freshWaiting_succ
    putPct := h.putPct
    noPut := fun hn' x hx => h.noPut hn' x (mem_flight_cons_of_mem hp hx)
    managerIff := fun _ => h.erase_iff hp (h.managerIff hn)
    managerId := fun t' m hl => h.managerId t' m (lookup_of_lookup_erase hl)
    waitingNodup := h.waitingNodup
    waitingFree := fun m hm => by
      simp only [AList.mem_erase, not_and_or]; exact .inr (h.waitingFree m hm)
    noReplace := h.noReplace
    nativeEmpty := h.nativeEmpty
    onlyGets := by simp [hn]
    nativeIff := by simp [hn]
    steps := by simp [hn]
    managerEmpty := by simp [hn] }

theorem Inv.pushback (h : Inv c s (.invoke t .statusPushback r :: rx)) (hn : s.native = false)
    (hs : handlePacket c s (.invoke t .statusPushback r) = .ok s') : Inv c s' rx := by
  have hp : Packet.tag (.invoke t .statusPushback r) = some (.invoke, t) := rfl
  have ho := h.one_le_outstanding hn
  have hlt := h.fresh t (mem_stamps_cons s.wire hp rx)
  have hlt1 : s.clock.read s.ticks < s.clock.read (s.ticks + 1) := Tsc.read_lt_succ _ _
  have hlt2 : s.clock.read s.ticks < s.clock.read (s.ticks + 2) :=
    hlt1.trans (Tsc.read_lt_succ _ _)
  obtain ⟨m, hm⟩ := h.lookup_manager hp hn
  have hmem : t ∈ s.manager := AList.lookup_isSome.1 (by simp [hm])
  rw [handlePacket_pushback hn (hlt.trans hlt1).le ho, Except.ok.injEq, hm, if_pos hmem] at hs
  subst hs
  obtain ⟨hnd, hfree⟩ := h.park hm (m.createGenerator.updateRwset r) (by simp)
  exact {
    acct := by simp only; have := h.acct; omega
    window := by simp only; have := h.window; omega
    count := by
      have := h.count_cons hp
      simp only [Kind.logical, hn, Bool.not_false, if_true] at this ⊢; omega
    nodup := h.nodup_rest hp
    reply := fun p hp' => h.reply p (List.mem_cons_of_mem _ hp')
    fresh := fun t' ht => (h.fresh t' (mem_stamps_cons_of_mem hp ht)).trans hlt2
    freshSender := fun q hq => (h.freshSender q hq).trans hlt2
    freshWaiting := by
      simp only [Option.map_some', Option.toList_some, List.mem_append, List.mem_singleton]
      rintro w (hw | rfl)
      · exact (h.freshWaiting w hw).trans hlt2
      · simpa [h.managerId t m hm] using hlt.trans hlt2
    putPct := h.putPct
    noPut := fun hn' x hx => h.noPut hn' x (mem_flight_cons_of_mem hp hx)
    managerIff := fun _ => h.erase_iff hp (h.managerIff hn)
    managerId := fun t' m hl => h.managerId t' m (lookup_of_lookup_erase hl)
    waitingNodup := hnd
    waitingFree := hfree
    noReplace := by simp [h.noReplace]
    nativeEmpty := h.nativeEmpty
    onlyGets := by simp [hn]
    nativeIff := by simp [hn]
    steps := by simp [hn]
    managerEmpty := by simp [hn] }

theorem Inv.getTask {tenant : ℕ} {pl : List UInt8} (h : Inv c s (.get t tenant pl :: rx))
    (hn : s.native = false) (hs : handlePacket c s (.get t tenant pl) = .ok s') :
    Inv c s' rx := by
  have hp : Packet.tag (.get t tenant pl) = some (.get, t) := rfl
  have hlt := h.fresh t (mem_stamps_cons s.wire hp rx)
  have hlt1 : s.clock.read s.ticks < s.clock.read (s.ticks + 1) := Tsc.read_lt_succ _ _
  obtain ⟨m, hm⟩ := h.lookup_manager hp hn
  rw [handlePacket_get hn hlt.le, Except.ok.injEq, hm] at hs
  subst hs
  obtain ⟨hnd, hfree⟩ := h.park hm m rfl
  exact {
    acct := h.acct
    window := h.window
    count := by simpa [Kind.logical, hn] using h.count_cons hp
    nodup := h.nodup_rest hp
    reply := fun p hp' => h.reply p (List.mem_cons_of_mem _ hp')
    fresh := fun t' ht => (h.fresh t' (mem_stamps_cons_of_mem hp ht)).trans hlt1
    freshSender := fun q hq => (h.freshSender q hq).trans hlt1
    freshWaiting := by
      simp only [Option.toList_some, List.mem_append, List.mem_singleton]
      rintro w (hw | rfl)
      · exact (h.freshWaiting w hw).trans hlt1
      · simpa [h.managerId t w hm] using hlt.trans hlt1
    putPct := h.putPct
    noPut := fun hn' x hx => h.noPut hn' x (mem_flight_cons_of_mem hp hx)
    managerIff := fun _ => h.erase_iff hp (h.managerIff hn)
    managerId := fun t' m hl => h.managerId t' m (lookup_of_lookup_erase hl)
    waitingNodup := hnd
    waitingFree := hfree
    noReplace := h.noReplace
    nativeEmpty := h.nativeEmpty
    onlyGets := by simp [hn]
    nativeIff := by simp [hn]
    steps := by simp [hn]
    managerEmpty := by simp [hn] }

theorem Inv.nativeDone {tenant : ℕ} {pl : List UInt8} (h : Inv c s (.get t tenant pl :: rx))
    (hn : s.native = true) (hl : s.nativeState.lookup t = some c.numOps)
    (hs : handlePacket c s (.get t tenant pl) = .ok s') : Inv c s' rx := by
  have hp : Packet.tag (.get t tenant pl) = some (.get, t) := rfl
  have hlt1 : s.clock.read s.ticks < s.clock.read (s.ticks + 1) := Tsc.read_lt_succ _ _
  obtain ⟨ho, l, rfl⟩ := handlePacket_done_ok hn hl hs
  exact {
    acct := by simp only; have := h.acct; omega
    window := by simp only; have := h.window; omega
    count := by
      have := h.count_cons hp
      simp only [Kind.logical, hn, if_true] at this ⊢; omega
    nodup := h.nodup_rest hp
    reply := fun p hp' => h.reply p (List.mem_cons_of_mem _ hp')
    fresh := fun t' ht => (h.fresh t' (mem_stamps_cons_of_mem hp ht)).trans hlt1
    freshSender := fun q hq => (h.freshSender q hq).trans hlt1
    freshWaiting := h.freshWaiting_succ
    putPct := h.putPct
    noPut := by simp [hn]
    managerIff := by simp [hn]
    managerId := h.managerId
    waitingNodup := h.waitingNodup
    waitingFree := h.waitingFree
    noReplace := h.noReplace
    nativeEmpty := by simp [hn]
    onlyGets := fun hn' x hx => h.onlyGets hn' x (mem_flight_cons_of_mem hp hx)
    nativeIff := fun _ => h.erase_iff hp (h.nativeIff hn)
    steps := fun hn' t' n hl' => h.steps hn' t' n (lookup_of_lookup_erase hl')
    managerEmpty := h.managerEmpty }

theorem Inv.nativeStep {tenant n : ℕ} {pl : List UInt8} (h : Inv c s (.get t tenant pl :: rx))
    (hn : s.native = true) (hl : s.nativeState.lookup t = some n) (hne : n ≠ c.numOps)
    (hs : handlePacket c s (.get t tenant pl) = .ok s') : Inv c s' rx := by
  have hp : Packet.tag (.get t tenant pl) = some (.get, t) := rfl
  have hlt := h.fresh t (mem_stamps_cons s.wire hp rx)
  obtain ⟨-, val, rfl⟩ := handlePacket_step_ok hn hl hne hs
  have hf : flight (s.wire ++ [.get tenant 1 val t]) rx =
      flight s.wire (.get t tenant pl :: rx) := by
    rw [flight_wire_snoc, flight_cons _ hp]; rfl
  have hst : stamps (s.wire ++ [.get tenant 1 val t]) rx =
      stamps s.wire (.get t tenant pl :: rx) := by
    rw [stamps, stamps, hf]
  obtain ⟨h1, h2, h3⟩ := h.steps hn t n hl
  exact {
    acct := h.acct
    window := h.window
    count := hf ▸ h.count
    nodup := hst ▸ h.nodup
    reply := fun p hp' => h.reply p (List.mem_cons_of_mem _ hp')
    fresh := hst ▸ h.fresh
    freshSender := by
      simp only [List.mem_append, List.mem_singleton]
      rintro q (hq | rfl)
      · exact h.freshSender q hq
      · exact hlt
    freshWaiting := h.freshWaiting
    putPct := h.putPct
    noPut := by simp [hn]
    managerIff := by simp [hn]
    managerId := h.managerId
    waitingNodup := h.waitingNodup
    waitingFree := h.waitingFree
    noReplace := h.noReplace
    nativeEmpty := by simp [hn]
    onlyGets := hf ▸ h.onlyGets
    nativeIff := by
      intro _ t'
      simp only [AList.mem_insert, hst, h.nativeIff hn t']
      constructor
      · rintro (rfl | ht)
        · exact mem_stamps_cons s.wire hp rx
        · exact ht
      · exact .inr
    steps := by
      intro _ t' n'
      by_cases ht : t' = t
      · subst ht
        rw [AList.lookup_insert, Option.some.injEq]
        rintro rfl
        refine ⟨by omega, by omega, ?_⟩
        simpa [List.countP_append] using h3
      · rw [AList.lookup_insert_ne ht]
        intro hl'
        obtain ⟨h1, h2, h3⟩ := h.steps hn t' n' hl'
        refine ⟨h1, h2, ?_⟩
        simpa [List.countP_append, Ne.symm ht] using h3
    managerEmpty := h.managerEmpty }

/-- Handling one response keeps the invariant: the response leaves what is in flight. -/
theorem Inv.handlePacket {p : Packet} (h : Inv c s (p :: rx))
    (hs : handlePacket c s p = .ok s') : Inv c s' rx := by
  have hr := h.reply p (List.mem_cons_self _ _)
  cases hn : s.native
  · cases p with
    | invoke t st r =>
      cases st with
      | statusOk => exact h.statusOk hn hs
      | statusPushback => exact h.pushback hn hs
      | other k => simp [Packet.Reply] at hr
    | get t tenant pl => exact h.getTask hn hs
    | put t => exact (h.put_free hn).elim
    | other => cases hr
  · cases p with
    | get t tenant pl =>
      obtain ⟨n, hl⟩ := Option.isSome_iff_exists.1 (AList.lookup_isSome.2
        ((h.nativeIff hn t).2 (mem_stamps_cons s.wire
          (show (Packet.get t tenant pl).tag = some (.get, t) from rfl) rx)))
      by_cases hne : n = c.numOps
      · exact h.nativeDone hn (hne ▸ hl) hs
      · exact h.nativeStep hn hl hne hs
    | invoke t st r => cases h.get_of_native hn rfl
    | put t => cases h.get_of_native hn rfl
    | other => cases hr

theorem Inv.recvPackets {b : List Packet} (h : Inv c s (b ++ rx))
    (hs : recvPackets c b s = .ok s') : Inv c s' rx := by
  induction b generalizing s' rx with
  | nil => cases hs; exact h
  | cons p ps ih =>
    obtain ⟨u, hu, hs⟩ := bind_eq_ok.1 hs
    exact (ih (h.perm List.perm_middle.symm) hu).handlePacket hs

/-- `recv` keeps the invariant: the polled batch is handled, the rest stays at the port. -/
theorem Inv.recv {n : ℕ} (h : Inv c s s.receiver) (hs : recv c n s = .ok s') :
    Inv c s' s'.receiver := by
  rw [PushbackRecvSend.recv] at hs
  split at hs
  · cases hs; exact { h with }
  · obtain ⟨u, hu, hs⟩ := bind_eq_ok.1 hs
    have hu' : Inv c u u.receiver := by
      rw [(recvPackets_frame hu).2.1]
      exact Inv.recvPackets (by rw [List.take_append_drop]; exact { h with }) hu
    split at hs <;> cases hs
    · exact { hu' with
        fresh := fun t ht => (hu'.fresh t ht).trans (Tsc.read_lt_succ _ _)
        freshSender := fun q hq => (hu'.freshSender q hq).trans (Tsc.read_lt_succ _ _)
        freshWaiting := hu'.freshWaiting_succ }
    · exact hu'

/-! ### Local tasks and whole runs -/

variable {r : TaskRun}

/-- A step of the task at the head of the run queue keeps the invariant. -/
theorem Inv.executeTask (h : Inv c s rx) : Inv c (executeTask c r s) rx := by
  cases hw : s.waiting with
  | nil => rw [executeTask_nil hw]; exact h
  | cons m rest =>
    have hnd := h.waitingNodup
    have hfree := h.waitingFree
    have hfw := h.freshWaiting
    rw [hw] at hnd hfree hfw
    have hnd' : (rest.map TaskManager.id).Nodup := (List.nodup_cons.1 hnd).2
    have hn : s.native = false := by
      cases hn : s.native
      · rfl
      · simp [(h.managerEmpty hn).2] at hw
    cases hr : r.state with
    | yielded =>
      rw [executeTask_yielded hw hr]
      exact { h with
        freshWaiting := fun w hw' => hfw w (by simpa [or_comm] using hw')
        waitingNodup := by
          rw [List.map_append]
          exact (List.perm_append_singleton _ _).nodup_iff.2 hnd
        waitingFree := fun w hw' => hfree w (by simpa [or_comm] using hw')
        managerEmpty := by simp [hn] }
    | waiting =>
      rw [executeTask_waiting hw hr]
      have hm : m.id ∉ s.manager := hfree m (List.mem_cons_self _ _)
      have hst : m.id ∉ stamps s.wire rx := fun ht => hm ((h.managerIff hn _).2 ht)
      have hlt : m.id < s.clock.read s.ticks := hfw m (List.mem_cons_self _ _)
      exact {
        acct := h.acct
        window := h.window
        count := by simp only [flight_wire_snoc, Multiset.countP_cons, h.count, hn]; rfl
        nodup := by
          rw [stamps_wire_snoc]; exact Multiset.nodup_cons.2 ⟨hst, h.nodup⟩
        reply := h.reply
        fresh := by
          simp only [stamps_wire_snoc, Multiset.mem_cons]
          rintro t (rfl | ht)
          · exact hlt
          · exact h.fresh t ht
        freshSender := by
          simp only [List.mem_append, List.mem_singleton]
          rintro q (hq | rfl)
          · exact h.freshSender q hq
          · exact hlt
        freshWaiting := fun w hw' => hfw w (List.mem_cons_of_mem _ hw')
        putPct := h.putPct
        noPut := fun _ => h.noPut_snoc hn nofun
        managerIff := fun _ => h.managerIff_insert hn (.get m.tenant 1 r.key m.id) m
        managerId := h.managerId_insert m
        waitingNodup := hnd'
        waitingFree := fun w hw' => by
          simp only [AList.mem_insert, not_or]
          refine ⟨fun he => (List.nodup_cons.1 hnd).1 ?_, hfree w (List.mem_cons_of_mem _ hw')⟩
          exact he ▸ List.mem_map_of_mem _ hw'
        noReplace := h.noReplace
        nativeEmpty := h.nativeEmpty
        onlyGets := by simp [hn]
        nativeIff := by simp [hn]
        steps := by simp [hn]
        managerEmpty := by simp [hn] }
    | completed =>
      obtain ⟨cc, n, l, hl, he⟩ := @executeTask_completed c s r m rest hw hr
      rw [he]
      exact { h with
        freshWaiting := fun w hw' => hfw w (List.mem_cons_of_mem _ hw')
        waitingNodup := hnd'
        waitingFree := fun w hw' => hfree w (List.mem_cons_of_mem _ hw')
        noReplace := by simp [h.noReplace, hl]
        managerEmpty := by simp [hn] }

theorem Inv.execute {env : Env} (h : Inv c s s.receiver) (h1 : 1 ≤ c.numOps)
    (hs : execute c env s = .ok s') : Inv c s' s'.receiver := by
  obtain ⟨u, hu, hs⟩ := bind_eq_ok.1 hs
  obtain ⟨v, hv, hs⟩ := bind_eq_ok.1 hs
  cases hs
  have hu' : Inv c u u.receiver := (send_frame hu).2 ▸ h.send h1 hu
  rw [executeTask_frame.2.1]
  exact (hu'.recv hv).executeTask

theorem Inv.step (h : Inv c s s.receiver) (h1 : 1 ≤ c.numOps) (hs : Step c s s') :
    Inv c s' s'.receiver := by
  cases hs with
  | execute env he => exact h.execute h1 he
  | serve q p hq hp => exact h.serve hq hp

/-- The invariant holds in every reachable state. -/
theorem Inv.reachable (h1 : 1 ≤ c.numOps) (hs : Reachable c s) : Inv c s s.receiver := by
  induction hs with
  | new => exact inv_new ..
  | step _ hst ih => exact ih.step h1 hst

end PushbackRecvSend

end Kayak
