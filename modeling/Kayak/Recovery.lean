import Kayak.NativeProgress

/-!
# No run strands a core

The server may answer an invoke with `Pushback` and hand the extension back to the client:
`recv` counts the response, turns the pending task into a local one, and `execute_task` runs
it, where it may wait on gets of its own. `reaches_target` builds one run from `new`, with
every invoke answered `Ok`. Here the run so far is any run at all.

## What is proved

* `Inv.recv_counts`: before its target, a `recv` that polls the whole port counts exactly the
  invoke answers there, `Ok` and `Pushback` alike. With nothing on the wire, those are all the
  outstanding invokes.
* `Live.progress`: so from a state with something outstanding, the server answering the wire
  and one `execute` polling the port count at least one more response. With nothing
  outstanding and the target not reached, every request sent has been counted, so the budget
  lets `send` fill the window first (`Live.outstanding`).
* **`target_stays_reachable`**: in invoke mode, with keys of at least four bytes and a target
  no larger than the budget, every state of every run can still reach the target. Whatever
  the server has answered so far, whatever the scheduler has polled and whatever the local
  tasks have done, some continuation leads to a state whose next `execute` sets `finished`.
* `Inv.recvPackets_sound`, `Live.retire`: in native mode, a value is *sound* when it holds the
  30 bytes `recv` slices and its first byte, which `mul` multiplies, is zero. A poll of sound
  values moves every operation it answers one step on or retires it, so following one
  operation, at most `NUM_OPS` stretches of answering the wire and polling the port retire it.
* **`native_target_stays_reachable`**: for every `NUM_OPS` in `1..=255`, the same of native
  mode from every state of every run whose port holds only sound values.
* **`native_execute_returns`**: on such a port no call of `execute` panics in native mode,
  whatever it polls. This is the native counterpart of `invoke_execute_returns`.
* **`stops_cleanly`**: both results for the eight cores. From every state of every run of the
  system that `main` has not stopped, with `num_reqs` at least the `34 * 1000 * 1000`
  responses each core waits for, some continuation runs every core to its target, each
  recording a `stop` later than its `start`, before `main` stops the client. The early stop
  of `stop_before_all_done` is a race, not a state the client cannot leave.

## Honest scope

These are possibilities. A scheduler that never polls, a server that never answers, or a
`main` that leaves its loop at the first `FINISHED` still strands a core. In native mode a
value shorter than 30 bytes panics the `recv` that handles it unless it ends its operation,
and one whose first byte is not zero panics the `recv` that ends its operation (`window`):
the native result asks for a sound port, which rules out both.
-/

namespace Kayak

open Relation

/-- A response that native mode handles at every step of an operation without a panic: a
value of at least the 30 bytes `recv` slices, whose first byte, the one `mul` multiplies, is
zero. -/
def Packet.Sound : Packet → Prop
  | .get _ _ payload => 30 ≤ payload.length ∧ payload.head? = some 0
  | _ => False

namespace PushbackRecvSend

variable {c : Consts} {s s' : PushbackRecvSend} {rx : List Packet}

/-! ### `recv` counts every invoke answer it polls -/

/-- Handling a response in invoke mode counts it exactly when it answers an invoke. -/
theorem Inv.handlePacket_recvd {p : Packet} (h : Inv c s (p :: rx)) (hn : s.native = false)
    (hs : PushbackRecvSend.handlePacket c s p = .ok s') :
    s'.recvd = s.recvd + ([p].filterMap Packet.tag).countP fun x => x.1.logical false := by
  cases p with
  | invoke t st r =>
    cases st with
    | statusOk => obtain ⟨-, -, rfl⟩ := handlePacket_statusOk_ok hn hs; rfl
    | statusPushback => obtain ⟨-, -, rfl⟩ := handlePacket_pushback_ok hn hs; rfl
    | other k => rcases h.reply _ (List.mem_cons_self _ _) with h | h <;> cases h
  | get t tenant pl => obtain ⟨-, rfl⟩ := handlePacket_get_ok hn hs; rfl
  | put t => obtain ⟨-, rfl⟩ := handlePacket_put_ok hn hs; rfl
  | other => rw [handlePacket_other hn] at hs; cases hs; rfl

theorem Inv.recvPackets_recvd {b : List Packet} (h : Inv c s (b ++ rx)) (hn : s.native = false)
    (hs : PushbackRecvSend.recvPackets c b s = .ok s') :
    s'.recvd = s.recvd + (b.filterMap Packet.tag).countP fun x => x.1.logical false := by
  induction b generalizing s' rx with
  | nil => cases hs; rfl
  | cons p ps ih =>
    obtain ⟨u, hu, hs⟩ := bind_eq_ok.1 hs
    have h' := h.perm List.perm_middle.symm
    have hnu : u.native = false := (congrArg Prod.fst (recvPackets_frame hu).1).trans hn
    rw [(h'.recvPackets hu).handlePacket_recvd hnu hs, ih h' hu,
      show p :: ps = [p] ++ ps from rfl, List.filterMap_append, List.countP_append]
    omega

/-- Before its target, a `recv` that polls every response at the port counts exactly those
that answer an invoke. -/
theorem Inv.recv_counts (h : Inv c s s.receiver) (hn : s.native = false)
    (hr : s.recvd < s.responses) (hs : PushbackRecvSend.recv c s.receiver.length s = .ok s') :
    s'.recvd = s.recvd + (s.receiver.filterMap Packet.tag).countP fun x => x.1.logical false := by
  rw [PushbackRecvSend.recv, if_neg (by omega), List.take_length, List.drop_length] at hs
  obtain ⟨u, hu, hs⟩ := bind_eq_ok.1 hs
  have h' : Inv c { s with receiver := [] } (s.receiver ++ []) := by
    rw [List.append_nil]; exact { h with }
  rw [← h'.recvPackets_recvd hn hu]
  split at hs <;> cases hs <;> rfl

/-! ### Native mode handles sound values -/

theorem mem_stamps_nil {b : List Packet} {t : ℕ} :
    t ∈ stamps [] b ↔ ∃ k, ∃ p ∈ b, p.tag = some (k, t) := by
  simp [stamps, flight, List.mem_filterMap]

/-- `send` opens operations under fresh stamps only: a counter in `native_state` stays. -/
theorem send_lookup {t n : ℕ} (h : s.send = .ok s') (hl : s.nativeState.lookup t = some n) :
    s'.nativeState.lookup t = some n :=
  send_rel (fun a b => a.nativeState.lookup t = some n → b.nativeState.lookup t = some n)
    (fun _ => id) (fun hab hbd => hbd ∘ hab) (fun {a _} _ hu hl => by
      cases hn : a.native
      · obtain ⟨_, _, _, _, rfl⟩ := sendOne_invoke hn hu; exact hl
      · obtain ⟨-, rfl⟩ := sendOne_native hn hu
        show (orInsert _ _ _).lookup t = some n
        unfold orInsert
        split
        · exact hl
        · rw [AList.lookup_insert_ne]
          · exact hl
          · rintro rfl; exact ‹¬ _› (AList.lookup_isSome.1 (by rw [hl]; rfl))) h hl

/-- A sound value response to an operation in flight, in native mode with `NUM_OPS ≤ 255`, is
handled without a panic: it retires the operation, counting one response, or sends its next
get and counts the step. No other operation's counter moves. -/
theorem Inv.handlePacket_sound {p : Packet} (h : Inv c s (p :: rx)) (hn : s.native = true)
    (h255 : c.numOps ≤ 255) (hp : p.Sound) :
    ∃ t n s', p.tag = some (.get, t) ∧ s.nativeState.lookup t = some n ∧
      PushbackRecvSend.handlePacket c s p = .ok s' ∧
      (∀ t', t' ≠ t → s'.nativeState.lookup t' = s.nativeState.lookup t') ∧
      (n = c.numOps ∧ s'.recvd = s.recvd + 1 ∨
        n < c.numOps ∧ s'.recvd = s.recvd ∧ s'.nativeState.lookup t = some (n + 1)) := by
  cases p with
  | get t tenant pl =>
    obtain ⟨hlen, hhead⟩ := hp
    have htag : (Packet.get t tenant pl).tag = some (.get, t) := rfl
    have hmem := mem_stamps_cons s.wire htag rx
    obtain ⟨n, hl⟩ := Option.isSome_iff_exists.1
      (AList.lookup_isSome.2 ((h.nativeIff hn t).2 hmem))
    obtain ⟨-, hle, -⟩ := h.steps hn t n hl
    rcases Nat.lt_or_eq_of_le hle with hlt | rfl
    · exact ⟨t, n, _, htag, hl, handlePacket_step hn hl hlt.ne tenant hlen (by omega),
        fun t' ht' => AList.lookup_insert_ne ht', .inr ⟨hlt, rfl, AList.lookup_insert _⟩⟩
    · obtain ⟨rest, rfl⟩ : ∃ rest, pl = 0 :: rest := by
        cases pl with
        | nil => cases hhead
        | cons b rest => cases hhead; exact ⟨rest, rfl⟩
      have ho := h.count_cons htag
      simp only [Kind.logical, hn, if_true] at ho
      exact ⟨t, _, _, htag, hl, native_completion_zero hn hl (h.fresh t hmem).le (by omega)
        tenant rest, fun t' ht' => AList.lookup_erase_ne ht', .inl ⟨rfl, rfl⟩⟩
  | invoke => exact hp.elim
  | put => exact hp.elim
  | other => exact hp.elim

/-- A batch of sound value responses in native mode with `NUM_OPS ≤ 255` is handled without a
panic. Every operation it answers is retired, the count of responses growing, or is one step
further; the other counters do not move. -/
theorem Inv.recvPackets_sound {b : List Packet} (h : Inv c s (b ++ rx)) (hn : s.native = true)
    (h255 : c.numOps ≤ 255) (hb : ∀ p ∈ b, p.Sound) :
    ∃ s', PushbackRecvSend.recvPackets c b s = .ok s' ∧ s.recvd ≤ s'.recvd ∧
      (∀ t, t ∉ stamps [] b → s'.nativeState.lookup t = s.nativeState.lookup t) ∧
      ∀ t n, t ∈ stamps [] b → s.nativeState.lookup t = some n →
        s.recvd < s'.recvd ∨ s'.nativeState.lookup t = some (n + 1) := by
  induction b generalizing rx with
  | nil =>
    exact ⟨s, rfl, le_rfl, fun _ _ => rfl, fun _ _ ht => absurd ht (by simp [stamps, flight])⟩
  | cons p ps ih =>
    have h' := h.perm List.perm_middle.symm
    obtain ⟨u, hu, hru, hout, hin⟩ := ih h' fun p hp => hb p (List.mem_cons_of_mem _ hp)
    have hnu : u.native = true := (congrArg Prod.fst (recvPackets_frame hu).1).trans hn
    obtain ⟨t, n, s', htag, hl, hs', hne, hcase⟩ :=
      (h'.recvPackets hu).handlePacket_sound hnu h255 (hb p (List.mem_cons_self _ _))
    have hrs : u.recvd ≤ s'.recvd := by rcases hcase with ⟨-, he⟩ | ⟨-, he, -⟩ <;> omega
    -- the stamps in flight are distinct, so the rest of the batch does not answer `t`
    have ht : t ∉ stamps [] ps := fun hm => by
      obtain ⟨k, q, hq, hk⟩ := mem_stamps_nil.1 hm
      exact (show Inv c s (p :: (ps ++ rx)) from h).not_mem_rest htag
        (mem_stamps_of_mem (List.mem_append_left rx hq) hk)
    refine ⟨s', by rw [PushbackRecvSend.recvPackets, hu, ok_bind]; exact hs', hru.trans hrs,
      fun t' ht' => ?_, fun t' n' ht' hl' => ?_⟩
    · rw [stamps_cons [] htag, Multiset.mem_cons, not_or] at ht'
      rw [hne t' ht'.1, hout t' ht'.2]
    · rw [stamps_cons [] htag, Multiset.mem_cons] at ht'
      rcases ht' with rfl | ht'
      · obtain rfl : n = n' := Option.some.inj (hl.symm.trans ((hout _ ht).trans hl'))
        rcases hcase with ⟨-, he⟩ | ⟨-, -, he⟩
        · exact .inl (by omega)
        · exact .inr he
      · rcases hin t' n' ht' hl' with hlt | he
        · exact .inl (by omega)
        · exact .inr ((hne t' fun he => ht (he ▸ ht')).trans he)

/-- In native mode with `NUM_OPS ≤ 255`, `recv` returns on a port of sound values. -/
theorem Inv.recv_sound (n : ℕ) (h : Inv c s s.receiver) (hn : s.native = true)
    (h255 : c.numOps ≤ 255) (hp : ∀ p ∈ s.receiver, p.Sound) :
    ∃ s', PushbackRecvSend.recv c n s = .ok s' := by
  rw [PushbackRecvSend.recv]
  split
  · exact ⟨_, rfl⟩
  · have h' : Inv c { s with receiver := s.receiver.drop n }
        (s.receiver.take n ++ s.receiver.drop n) := by
      rw [List.take_append_drop]; exact { h with }
    obtain ⟨u, hu, -⟩ :=
      h'.recvPackets_sound hn h255 fun p hp' => hp p (List.mem_of_mem_take hp')
    rw [hu, ok_bind]
    split <;> exact ⟨_, rfl⟩

/-! ### Live states -/

/-- A state of a run whose `send` returns and whose budget covers its target. -/
structure Live (c : Consts) (s : PushbackRecvSend) : Prop where
  reach : Reachable c s
  long : Long s
  budget : s.responses ≤ s.requests

theorem Live.step (h : Live c s) (hs : Step c s s') : Live c s' := by
  have hset := Step.setup hs
  simp only [setup, Prod.mk.injEq] at hset
  obtain ⟨-, -, -, hres, hreq, -⟩ := hset
  exact ⟨h.reach.step hs, h.long.step hs, hres ▸ hreq ▸ h.budget⟩

theorem Live.steps (h : Live c s) (hs : ReflTransGen (Step c) s s') : Live c s' := by
  induction hs with
  | refl => exact h
  | tail _ hst ih => exact ih.step hst

/-- Stretches that each count at least one more response, from live states of some kind `P`,
reach the target along some run, and the next `execute` then sets `finished`. -/
theorem Live.finishes (P : PushbackRecvSend → Prop)
    (hprog : ∀ {s}, Live c s → P s → s.recvd < s.responses →
      ∃ s', ReflTransGen (Step c) s s' ∧ P s' ∧ s.recvd < s'.recvd)
    (h : Live c s) (hP : P s) :
    ∃ u s', ReflTransGen (Step c) s u ∧ execute c ⟨0, idleTask⟩ u = .ok s' ∧
      s'.finished = true := by
  obtain ⟨u, hu, hru⟩ : ∃ u, ReflTransGen (Step c) s u ∧ u.responses ≤ u.recvd := by
    obtain ⟨n, hn⟩ : ∃ n, s.responses ≤ s.recvd + n := ⟨s.responses, by omega⟩
    induction n generalizing s with
    | zero => exact ⟨s, .refl, hn⟩
    | succ n ih =>
      by_cases hr : s.responses ≤ s.recvd
      · exact ⟨s, .refl, hr⟩
      obtain ⟨s', hs', hP', hlt⟩ := hprog h hP (by omega)
      obtain ⟨u, hu, hru⟩ := ih (h.steps hs') hP' (by rw [responses_of_steps hs']; omega)
      exact ⟨u, hs'.trans hu, hru⟩
  obtain ⟨s', hs', hf⟩ := execute_finishes (h.steps hu).long hru
  exact ⟨u, s', hu, hs', hf⟩

/-- With nothing outstanding before its target, every request sent has been counted, so the
budget is not spent, and an `execute` that polls nothing fills the window. -/
theorem Live.fill (h1 : 1 ≤ c.numOps) (h : Live c s) (ho : s.outstanding = 0)
    (hr : s.recvd < s.responses) :
    ∃ s', Step c s s' ∧ 0 < s'.outstanding ∧ s'.recvd = s.recvd ∧
      s'.receiver = s.receiver := by
  have hacct := (Inv.reachable h1 h.reach).acct
  have hb := h.budget
  obtain ⟨u, hu, -⟩ := h.long.send
  rcases send_fills_window hu with ⟨hle, -⟩ | ⟨-, -, hou, -, -⟩
  · omega
  have hru := (send_tally hu).1
  have hres : u.responses = s.responses := congrArg (fun x => x.2.2.2.1) (send_frame hu).1
  obtain ⟨w, hw⟩ := @executeTask_idle c u
  refine ⟨executeTask c idleTask u, .execute ⟨0, idleTask⟩ ?_, ?_, ?_, ?_⟩
  · rw [execute, hu, ok_bind, recv_zero (by omega), ok_bind]; rfl
  · rw [hw]; show 0 < u.outstanding; omega
  · rw [hw]; exact hru
  · rw [hw]; exact (send_frame hu).2

/-- Something is outstanding, after an `execute` that fills the window if nothing is. -/
theorem Live.outstanding (h1 : 1 ≤ c.numOps) (h : Live c s) (hr : s.recvd < s.responses) :
    ∃ s₁, ReflTransGen (Step c) s s₁ ∧ 0 < s₁.outstanding ∧ s₁.recvd = s.recvd ∧
      s₁.receiver = s.receiver := by
  rcases Nat.eq_zero_or_pos s.outstanding with ho | ho
  · obtain ⟨s₁, hs₁, ho₁, hr₁, hrx₁⟩ := h.fill h1 ho hr
    exact ⟨s₁, .single hs₁, ho₁, hr₁, hrx₁⟩
  · exact ⟨s, .refl, ho, rfl, rfl⟩

/-! ### Invoke mode -/

/-- With something outstanding before its target, the server answering the whole wire with
`Ok` and an `execute` polling the whole port count at least one more response: with nothing
left on the wire, every outstanding invoke is answered at the port. -/
theorem Live.poll (h1 : 1 ≤ c.numOps) (h : Live c s) (hn : s.native = false)
    (ho : 0 < s.outstanding) (hr : s.recvd < s.responses) :
    ∃ s', ReflTransGen (Step c) s s' ∧ s.recvd < s'.recvd := by
  have hsrv : ReflTransGen (Step c) s
      { s with wire := [], receiver := s.receiver ++ s.wire.map Request.success } :=
    StepBy.steps (serve_all answers_success rfl)
  set v := { s with wire := [], receiver := s.receiver ++ s.wire.map Request.success }
  have hv := h.steps hsrv
  have hIv := Inv.reachable h1 hv.reach
  have hcount : v.outstanding = (v.receiver.filterMap Packet.tag).countP
      fun x => x.1.logical false := by
    rw [hIv.count, show v.native = false from hn]; simp [flight, v]
  obtain ⟨u, hu, -⟩ := hv.long.send
  have hIu : Inv c u u.receiver := (send_frame hu).2 ▸ hIv.send h1 hu
  have hnu : u.native = false := (congrArg Prod.fst (send_frame hu).1).trans hn
  have hru : u.recvd = s.recvd := (send_tally hu).1
  have hres : u.responses = s.responses := congrArg (fun x => x.2.2.2.1) (send_frame hu).1
  obtain ⟨w, hw⟩ := hIu.recv_invoke u.receiver.length hnu
  have hwr := hIu.recv_counts hnu (by omega) hw
  obtain ⟨t, ht⟩ := @executeTask_idle c w
  refine ⟨executeTask c idleTask w,
    hsrv.tail (.execute ⟨u.receiver.length, idleTask⟩ ?_), ?_⟩
  · rw [execute, hu, ok_bind, hw, ok_bind]; rfl
  · rw [ht]
    show s.recvd < w.recvd
    rw [hwr, (send_frame hu).2, ← hcount, hru]
    exact Nat.lt_add_of_pos_right ho

/-- In invoke mode, before its target, a live state counts at least one more response along
some run. -/
theorem Live.progress (h1 : 1 ≤ c.numOps) (h : Live c s) (hn : s.native = false)
    (hr : s.recvd < s.responses) :
    ∃ s', ReflTransGen (Step c) s s' ∧ s'.native = false ∧ s.recvd < s'.recvd := by
  obtain ⟨s₁, hs₁, ho₁, hr₁, -⟩ := h.outstanding h1 hr
  have hn₁ : s₁.native = false := (native_of_steps hs₁).trans hn
  obtain ⟨s', hs', hr'⟩ := (h.steps hs₁).poll h1 hn₁ ho₁
    (by rw [hr₁, responses_of_steps hs₁]; exact hr)
  exact ⟨s', hs₁.trans hs', (native_of_steps hs').trans hn₁, hr₁ ▸ hr'⟩

/-! ### Native mode -/

/-- Native mode sends only gets: each of them is answered with a sound value of thirty zero
bytes. -/
theorem Inv.sound_answers (h : Inv c s rx) (hn : s.native = true) :
    ∀ q ∈ s.wire, (q.answerWith (zeros 30)).Sound := by
  intro q hq
  have hk : q.kind = .get :=
    h.onlyGets hn _ (Multiset.mem_coe.2 (List.mem_append_left _ (List.mem_map_of_mem _ hq)))
  cases q with
  | get tenant tableId key t => exact ⟨by simp [zeros], rfl⟩
  | put => cases hk
  | invoke => cases hk

/-- **A native stretch**: the server answers the whole wire with thirty zero bytes, and an
`execute` polls the whole port, all of it sound. Followed for one operation `t` at step `n`:
the count of responses grows, or it stays and `t` is at step `n + 1`. -/
theorem Live.stretch (h1 : 1 ≤ c.numOps) (h255 : c.numOps ≤ 255) (h : Live c s)
    (hn : s.native = true) (hp : ∀ p ∈ s.receiver, p.Sound) (hr : s.recvd < s.responses)
    {t n : ℕ} (hl : s.nativeState.lookup t = some n) :
    ∃ s', ReflTransGen (Step c) s s' ∧ s'.receiver = [] ∧
      (s.recvd < s'.recvd ∨ s'.recvd = s.recvd ∧ s'.nativeState.lookup t = some (n + 1)) := by
  have hsrv : ReflTransGen (Step c) s
      { s with wire := [], receiver := s.receiver ++ s.wire.map (Request.answerWith (zeros 30)) } :=
    StepBy.steps (serve_all (answers_answerWith _) rfl)
  set v : PushbackRecvSend :=
    { s with wire := [], receiver := s.receiver ++ s.wire.map (Request.answerWith (zeros 30)) }
  have hv := h.steps hsrv
  have hIv := Inv.reachable h1 hv.reach
  have hpv : ∀ p ∈ v.receiver, p.Sound := fun p hp' => (List.mem_append.1 hp').elim (hp p)
    fun hp' => by
      obtain ⟨q, hq, rfl⟩ := List.mem_map.1 hp'
      exact (Inv.reachable h1 h.reach).sound_answers hn q hq
  -- `t` is answered at the port
  have htv : t ∈ stamps [] v.receiver :=
    (hIv.nativeIff hn t).1
      (AList.lookup_isSome.1 (by rw [show v.nativeState = _ from rfl, hl]; rfl))
  obtain ⟨u, hu, -⟩ := hv.long.send
  have hIu : Inv c u u.receiver := (send_frame hu).2 ▸ hIv.send h1 hu
  have hnu : u.native = true := (congrArg Prod.fst (send_frame hu).1).trans hn
  have hru : u.recvd = s.recvd := (send_tally hu).1
  have hres : u.responses = s.responses := congrArg (fun x => x.2.2.2.1) (send_frame hu).1
  have hrx : u.receiver = v.receiver := (send_frame hu).2
  have h' : Inv c { u with receiver := [] } (u.receiver ++ []) := by
    rw [List.append_nil]; exact { hIu with }
  obtain ⟨w, hw, hrw, -, hin⟩ := h'.recvPackets_sound hnu h255 (hrx ▸ hpv)
  have hrw : u.recvd ≤ w.recvd := hrw
  obtain ⟨w', hw', hww⟩ := @recv_all c u w (by omega) hw
  obtain ⟨x, hx⟩ := @executeTask_idle c w'
  have hrw' : w'.recvd = w.recvd := by rw [← hww]
  refine ⟨executeTask c idleTask w', hsrv.tail (.execute ⟨u.receiver.length, idleTask⟩ ?_),
    ?_, ?_⟩
  · rw [execute, hu, ok_bind, hw', ok_bind]; rfl
  · rw [hx]
    exact (congrArg PushbackRecvSend.receiver hww).trans (recvPackets_frame hw).2.1
  · rw [hx]
    show s.recvd < w'.recvd ∨ w'.recvd = s.recvd ∧ w'.nativeState.lookup t = some (n + 1)
    rw [hrw', congrArg PushbackRecvSend.nativeState hww]
    have hlu : u.nativeState.lookup t = some n := send_lookup hu hl
    rcases hin t n (hrx ▸ htv) hlu with hlt | he
    · have hlt : u.recvd < w.recvd := hlt
      exact .inl (by omega)
    · by_cases hlt : s.recvd < w.recvd
      · exact .inl hlt
      · exact .inr ⟨by omega, he⟩

/-- Stretches retire the operation `t`, `k` steps short of its last, counting at least one
more response. -/
theorem Live.retire (h1 : 1 ≤ c.numOps) (h255 : c.numOps ≤ 255) (k : ℕ) (h : Live c s)
    (hn : s.native = true) (hp : ∀ p ∈ s.receiver, p.Sound) (hr : s.recvd < s.responses)
    {t n : ℕ} (hl : s.nativeState.lookup t = some n) (hk : c.numOps = n + k) :
    ∃ s', ReflTransGen (Step c) s s' ∧ s'.receiver = [] ∧ s.recvd < s'.recvd := by
  induction k generalizing s n with
  | zero =>
    obtain ⟨s₁, hs₁, hrx₁, hlt | ⟨-, hl₁⟩⟩ := h.stretch h1 h255 hn hp hr hl
    · exact ⟨s₁, hs₁, hrx₁, hlt⟩
    · have := ((Inv.reachable h1 (h.steps hs₁).reach).steps
        ((native_of_steps hs₁).trans hn) t _ hl₁).2.1
      omega
  | succ k ih =>
    obtain ⟨s₁, hs₁, hrx₁, hlt | ⟨hr₁, hl₁⟩⟩ := h.stretch h1 h255 hn hp hr hl
    · exact ⟨s₁, hs₁, hrx₁, hlt⟩
    obtain ⟨s', hs', hrx', hlt⟩ := ih (h.steps hs₁) ((native_of_steps hs₁).trans hn)
      (by simp [hrx₁]) (by rw [hr₁, responses_of_steps hs₁]; exact hr) hl₁ (by omega)
    exact ⟨s', hs₁.trans hs', hrx', hr₁ ▸ hlt⟩

/-- In native mode with `NUM_OPS ≤ 255`, before its target, a live state whose port holds only
sound values counts at least one more response along some run: some operation is in flight,
and stretches retire it. -/
theorem Live.progress_native (h1 : 1 ≤ c.numOps) (h255 : c.numOps ≤ 255) (h : Live c s)
    (hn : s.native = true) (hp : ∀ p ∈ s.receiver, p.Sound) (hr : s.recvd < s.responses) :
    ∃ s', ReflTransGen (Step c) s s' ∧ (s'.native = true ∧ ∀ p ∈ s'.receiver, p.Sound) ∧
      s.recvd < s'.recvd := by
  obtain ⟨s₁, hs₁, ho₁, hr₁, hrx₁⟩ := h.outstanding h1 hr
  have hn₁ : s₁.native = true := (native_of_steps hs₁).trans hn
  have hI₁ := Inv.reachable h1 (h.steps hs₁).reach
  obtain ⟨x, hx, -⟩ := Multiset.countP_pos.1 (hI₁.count ▸ ho₁)
  obtain ⟨n, hl⟩ := Option.isSome_iff_exists.1 (AList.lookup_isSome.2
    ((hI₁.nativeIff hn₁ x.2).2 (Multiset.mem_map_of_mem Prod.snd hx)))
  obtain ⟨-, hle, -⟩ := hI₁.steps hn₁ _ _ hl
  obtain ⟨s', hs', hrx', hlt⟩ := (h.steps hs₁).retire h1 h255 (c.numOps - n) hn₁
    (hrx₁ ▸ hp) (by rw [hr₁, responses_of_steps hs₁]; exact hr) hl (by omega)
  exact ⟨s', hs₁.trans hs', ⟨(native_of_steps hs').trans hn₁, by simp [hrx']⟩,
    hr₁ ▸ hlt⟩

section Run

variable {resps reqs : ℕ} {master : Bool} {config : ClientConfig} {clock : Tsc}
  {rng : ℕ → UInt32} {keyRng tenantRng : Zipf}

/-- With keys of at least four bytes and a target within the budget, every state of every run
is live. -/
theorem Live.run (hk : 4 ≤ config.keyLen) (hb : resps ≤ reqs)
    (hs : ReflTransGen (Step c) (new resps master config reqs clock rng keyRng tenantRng) s) :
    Live c s :=
  Live.steps ⟨.new .., Long.new hk, hb⟩ hs

/-- **No run strands a core in invoke mode**: with keys of at least four bytes and a response
target no larger than the request budget, from every state of every run, whatever the server
has answered, `Ok` or `Pushback`, whatever the scheduler has polled and whatever the local
tasks have done, some continuation leads to a state whose next `execute` sets `finished`. -/
theorem target_stays_reachable (h1 : 1 ≤ c.numOps) (hk : 4 ≤ config.keyLen)
    (hi : config.useInvoke = true) (hb : resps ≤ reqs)
    (hs : ReflTransGen (Step c) (new resps master config reqs clock rng keyRng tenantRng) s) :
    ∃ u s', ReflTransGen (Step c) s u ∧ execute c ⟨0, idleTask⟩ u = .ok s' ∧
      s'.finished = true :=
  (Live.run hk hb hs).finishes (fun s => s.native = false) (fun h hn hr => h.progress h1 hn hr)
    ((native_of_steps hs).trans (by simp [PushbackRecvSend.new, hi]))

/-- From `keyed`: one response of a target of 100 counted, 31 invokes on the wire. -/
theorem target_stays_reachable_sample :
    ∃ u s', ReflTransGen (Step (Consts.shipped false)) keyed u ∧
      execute (Consts.shipped false) ⟨0, idleTask⟩ u = .ok s' ∧ s'.finished = true :=
  target_stays_reachable le_rfl (by decide) rfl le_rfl keyed_steps

/-- The port of `nativeAnswered` holds one sound value. -/
theorem nativeAnswered_sound : ∀ p ∈ nativeAnswered.receiver, p.Sound := by
  have hrx : nativeAnswered.receiver = [.get 2 1 (zeros 30)] := rfl
  rw [hrx]
  intro p hp
  rw [List.mem_singleton.1 hp]
  exact ⟨le_rfl, rfl⟩

/-- **No run strands a core in native mode while the port holds sound values**: for every
`NUM_OPS` in `1..=255`, with keys of at least four bytes and a response target no larger than
the request budget, from every state of every run whose port holds only values of at least 30
bytes starting with a zero byte, some continuation leads to a state whose next `execute`
sets `finished`. -/
theorem native_target_stays_reachable (h1 : 1 ≤ c.numOps) (h255 : c.numOps ≤ 255)
    (hk : 4 ≤ config.keyLen) (hi : config.useInvoke = false) (hb : resps ≤ reqs)
    (hs : ReflTransGen (Step c) (new resps master config reqs clock rng keyRng tenantRng) s)
    (hp : ∀ p ∈ s.receiver, p.Sound) :
    ∃ u s', ReflTransGen (Step c) s u ∧ execute c ⟨0, idleTask⟩ u = .ok s' ∧
      s'.finished = true :=
  (Live.run hk hb hs).finishes (fun s => s.native = true ∧ ∀ p ∈ s.receiver, p.Sound)
    (fun h hP hr => h.progress_native h1 h255 hP.1 hP.2 hr)
    ⟨(native_of_steps hs).trans (by simp [PushbackRecvSend.new, hi]), hp⟩

/-- From `nativeAnswered`: 32 operations open, the value for the one stamped `2` at the
port. -/
theorem native_target_stays_reachable_sample :
    ∃ u s', ReflTransGen (Step (Consts.shipped false)) nativeAnswered u ∧
      execute (Consts.shipped false) ⟨0, idleTask⟩ u = .ok s' ∧ s'.finished = true :=
  native_target_stays_reachable le_rfl (by decide) (by decide) rfl le_rfl nativeAnswered_steps
    nativeAnswered_sound

/-- **No panic on sound values in native mode**: for every `NUM_OPS` in `1..=255`, with keys
of at least four bytes, every call of `execute` from every state of every run whose port holds
only sound values returns, whatever it polls and whatever the local task does. -/
theorem native_execute_returns (h1 : 1 ≤ c.numOps) (h255 : c.numOps ≤ 255)
    (hk : 4 ≤ config.keyLen) (hi : config.useInvoke = false)
    (hs : ReflTransGen (Step c) (new resps master config reqs clock rng keyRng tenantRng) s)
    (hp : ∀ p ∈ s.receiver, p.Sound) (env : Env) : ∃ s', execute c env s = .ok s' := by
  have hI := Inv.reachable h1 ((Reachable.new ..).refl_trans hs)
  obtain ⟨u, hu, -⟩ := (Long.run hk hs).send
  have hn : u.native = true := (congrArg Prod.fst (send_frame hu).1).trans
    ((native_of_steps hs).trans (by simp [PushbackRecvSend.new, hi]))
  obtain ⟨v, hv⟩ := ((send_frame hu).2 ▸ hI.send h1 hu).recv_sound env.batch hn h255
    fun p hp' => hp p ((send_frame hu).2 ▸ hp')
  exact ⟨executeTask c env.task v, by rw [execute, hu, ok_bind, hv, ok_bind]; rfl⟩

/-- The `execute` that polls the value at the port of `nativeAnswered` and retires its
operation. -/
theorem native_execute_returns_sample :
    ∃ s', execute (Consts.shipped false) ⟨1, idleTask⟩ nativeAnswered = .ok s' :=
  native_execute_returns le_rfl (by decide) (by decide) rfl nativeAnswered_steps
    nativeAnswered_sound ⟨1, idleTask⟩

end Run

end PushbackRecvSend

namespace Cluster

variable {c : Consts} {config : ClientConfig} {clock : Fin 8 → Tsc}
  {rng : Fin 8 → ℕ → UInt32} {keyRng tenantRng : Fin 8 → Zipf}

/-- **The client can always still stop cleanly**: with keys of at least four bytes and
`num_reqs` at least the `34 * 1000 * 1000` responses each core waits for, in invoke mode, or in
native mode with `NUM_OPS ≤ 255` and only sound values at the cores' ports, from every state
of every run of the system that `main` has not stopped, some continuation runs every core to
its target, each recording a `stop` later than its `start`, before `main` stops the client. -/
theorem stops_cleanly (h1 : 1 ≤ c.numOps) (hk : 4 ≤ config.keyLen)
    (hb : 34 * 1000 * 1000 ≤ config.numReqs) {k : Cluster}
    (h : ReflTransGen (Step c) (start config clock rng keyRng tenantRng) k)
    (hs : k.stopped = false)
    (hm : config.useInvoke = true ∨
      c.numOps ≤ 255 ∧ ∀ i, ∀ p ∈ (k.cores i).receiver, p.Sound) :
    ∃ k', ReflTransGen (Step c) k k' ∧ k'.stopped = true ∧ ∀ i,
      (k'.cores i).responses ≤ (k'.cores i).recvd ∧ (k'.cores i).start < (k'.cores i).stop := by
  have hcore : ∀ i, ∃ u s, ReflTransGen (PushbackRecvSend.Step c) (k.cores i) u ∧
      PushbackRecvSend.execute c ⟨0, PushbackRecvSend.idleTask⟩ u = .ok s ∧
      s.finished = true := by
    intro i
    have hl := PushbackRecvSend.Live.run hk hb (cores_run h i)
    have hn := PushbackRecvSend.native_of_steps (cores_run h i)
    cases hi : config.useInvoke
    · obtain ⟨h255, hp⟩ := hm.resolve_left (by simp [hi])
      exact hl.finishes _ (fun h hP hr => h.progress_native h1 h255 hP.1 hP.2 hr)
        ⟨hn.trans (by simp [start, PushbackRecvSend.setupSendRecv, PushbackRecvSend.new, hi]),
          hp i⟩
    · exact hl.finishes _ (fun h hn hr => h.progress h1 hn hr)
        (hn.trans (by simp [start, PushbackRecvSend.setupSendRecv, PushbackRecvSend.new, hi]))
  obtain ⟨k', hk', -, hkf, hki⟩ := finish_cores hs hcore 8 le_rfl
  have hstop := hk'.tail (Step.stop (hkf (by omega)))
  exact ⟨_, hstop, rfl, fun i => finished_core_done (h.trans hstop) ((hki i).1 i.isLt)⟩

/-- From the system after `okRun` on core 0: one response counted, 31 invokes in flight. -/
theorem stops_cleanly_sample : ∃ k, ReflTransGen (Step (Consts.shipped false))
      (start ⟨4, 4, 0, true, 34 * 1000 * 1000⟩ (fun _ => Tsc.succ) (fun _ _ => 0)
        (fun _ => Zipf.const 1 1 le_rfl) (fun _ => Zipf.const 1 1 le_rfl)) k ∧
      k.stopped = false ∧ k.cores 0 = PushbackRecvSend.okCore ∧
      ∃ k', ReflTransGen (Step (Consts.shipped false)) k k' ∧ k'.stopped = true ∧ ∀ i,
        (k'.cores i).responses ≤ (k'.cores i).recvd ∧ (k'.cores i).start < (k'.cores i).stop := by
  obtain ⟨b, hb⟩ := lift (show (start ⟨4, 4, 0, true, 34 * 1000 * 1000⟩ (fun _ => Tsc.succ)
    (fun _ _ => 0) (fun _ => Zipf.const 1 1 le_rfl) (fun _ => Zipf.const 1 1 le_rfl)).stopped =
      false from rfl) (i := 0) PushbackRecvSend.okCore_steps
  exact ⟨_, hb, rfl, by simp, stops_cleanly le_rfl le_rfl le_rfl hb rfl (.inl rfl)⟩

end Cluster

end Kayak
