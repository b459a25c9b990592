import Kayak.Window

/-!
# Task conservation

In invoke mode every invoke creates a `TaskManager` (`add_request`), kept in `manager`
under the invoke's stamp. A pushback moves it to the run queue `waiting`; a step of it that
returns WAITING sends one get stamped with its id and parks it in `manager` again, and
the get's response moves it back to the queue; an `Ok` response or a step that returns
COMPLETED drops it.

**`task_conservation`**: in every state of every run, every task in `manager` or in
`waiting` was created by `add_request`; a task is in at most one of the two places, and at
most once in the queue; `manager` holds each task under its own id, exactly while its
invoke or its get is in flight, and a queued task has nothing in flight; no `insert`
replaces a live task, neither in `add_request` nor in the WAITING branch of
`execute_task`; and within a call of `execute` a task stops being live only when `recv`
handles an `Ok` response to its invoke or when `execute_task` runs it and it completes.
The server's moves touch neither map nor queue.

A task is identified by its id, the stamp of the invoke that created it (`live`).
-/

namespace Kayak

namespace PushbackRecvSend

variable {c : Consts} {s s' : PushbackRecvSend} {rx : List Packet} {t : ℕ}


/-- A task is live under `t`: pending in `manager`, or in the run queue. -/
def live (s : PushbackRecvSend) (t : ℕ) : Prop := t ∈ s.manager ∨ t ∈ s.waiting.map TaskManager.id

theorem live_retire {m : Table TaskManager} {w : List TaskManager} {t' : ℕ}
    (hw : t' ∉ w.map TaskManager.id) :
    (t ∈ m.erase t' ∨ t ∈ w.map TaskManager.id) ↔ (t ∈ m ∨ t ∈ w.map TaskManager.id) ∧ t ≠ t' := by
  rw [AList.mem_erase]
  constructor
  · rintro (⟨hne, hm⟩ | hw')
    · exact ⟨.inl hm, hne⟩
    · exact ⟨.inr hw', fun he => hw (he ▸ hw')⟩
  · rintro ⟨hm | hw', hne⟩
    · exact .inl ⟨hne, hm⟩
    · exact .inr hw'

theorem live_park {m : Table TaskManager} {w : List TaskManager} {t' : ℕ} {m' : TaskManager}
    (hm : t' ∈ m) (hid : m'.id = t') :
    (t ∈ m.erase t' ∨ t ∈ (w ++ [m']).map TaskManager.id) ↔ (t ∈ m ∨ t ∈ w.map TaskManager.id) := by
  simp only [AList.mem_erase, List.map_append, List.map_cons, List.map_nil, List.mem_append,
    List.mem_singleton, hid]
  constructor
  · rintro (⟨-, hm'⟩ | hw' | rfl)
    · exact .inl hm'
    · exact .inr hw'
    · exact .inl hm
  · rintro (hm' | hw')
    · by_cases ht : t = t'
      · exact .inr (.inr ht)
      · exact .inl ⟨ht, hm'⟩
    · exact .inr (.inl hw')

theorem Inv.handlePacket_live {p : Packet} (h : Inv c s (p :: rx)) (hn : s.native = false)
    (hs : PushbackRecvSend.handlePacket c s p = .ok s') :
    s'.sender = s.sender ∧ (live s' t ↔ live s t ∧ ∀ r, p ≠ .invoke t .statusOk r) := by
  have hr := h.reply p (List.mem_cons_self _ _)
  cases p with
  | invoke t' st r =>
    have hp : Packet.tag (.invoke t' st r) = some (.invoke, t') := rfl
    have hlt := h.fresh t' (mem_stamps_cons s.wire hp rx)
    have ho := h.one_le_outstanding hn
    have hmem : t' ∈ s.manager := (h.managerIff hn t').2 (mem_stamps_cons s.wire hp rx)
    cases st with
    | statusOk =>
      have hw : t' ∉ s.waiting.map TaskManager.id := fun hw => by
        obtain ⟨m, hm, he⟩ := List.mem_map.1 hw
        exact h.waitingFree m hm (he ▸ hmem)
      rw [handlePacket_statusOk hn hlt.le ho, Except.ok.injEq] at hs
      subst hs
      refine ⟨rfl, ?_⟩
      simp only [live, live_retire hw, ne_eq, Packet.invoke.injEq]
      exact and_congr_right fun _ =>
        ⟨fun hne _ he => hne he.1.symm, fun h he => h r ⟨he.symm, trivial, rfl⟩⟩
    | statusPushback =>
      obtain ⟨m, hm⟩ := h.lookup_manager hp hn
      rw [handlePacket_pushback hn (hlt.trans (Tsc.read_lt_succ _ _)).le ho, Except.ok.injEq, hm,
        if_pos hmem] at hs
      subst hs
      refine ⟨rfl, ?_⟩
      simp only [live, Option.map_some', Option.toList_some]
      rw [live_park hmem (by simp [h.managerId t' m hm])]
      simp
    | other k => exact hr.elim (fun h => by cases h) (fun h => by cases h)
  | get t' tenant pl =>
    have hp : Packet.tag (.get t' tenant pl) = some (.get, t') := rfl
    have hmem : t' ∈ s.manager := (h.managerIff hn t').2 (mem_stamps_cons s.wire hp rx)
    obtain ⟨m, hm⟩ := h.lookup_manager hp hn
    rw [handlePacket_get hn (h.fresh t' (mem_stamps_cons s.wire hp rx)).le, Except.ok.injEq,
      hm] at hs
    subst hs
    refine ⟨rfl, ?_⟩
    simp only [live, Option.toList_some]
    rw [live_park hmem (h.managerId t' m hm)]
    simp
  | put t' =>
    exact (h.put_free hn).elim
  | other => exact hr.elim

theorem Inv.recvPackets_live {b : List Packet} (h : Inv c s (b ++ rx)) (hn : s.native = false)
    (hs : PushbackRecvSend.recvPackets c b s = .ok s') :
    s'.sender = s.sender ∧
      (live s' t ↔ live s t ∧ ∀ p ∈ b, ∀ r, p ≠ .invoke t .statusOk r) := by
  induction b generalizing rx s' with
  | nil => cases hs; simp
  | cons p ps ih =>
    obtain ⟨u, hu, hs⟩ := bind_eq_ok.1 hs
    have h' := h.perm List.perm_middle.symm
    obtain ⟨hsu, hlu⟩ := ih h' hu
    have hnu : u.native = false := (congrArg Prod.fst (recvPackets_frame hu).1).trans hn
    obtain ⟨hsu', hlu'⟩ := (h'.recvPackets hu).handlePacket_live hnu hs
    refine ⟨hsu'.trans hsu, ?_⟩
    rw [hlu', hlu, List.forall_mem_cons]
    exact ⟨fun ⟨⟨hl, hps⟩, hp⟩ => ⟨hl, hp, hps⟩, fun ⟨hl, hp, hps⟩ => ⟨⟨hl, hps⟩, hp⟩⟩

theorem Inv.recv_live {n : ℕ} (h : Inv c s s.receiver) (hn : s.native = false)
    (hs : PushbackRecvSend.recv c n s = .ok s') :
    s'.sender = s.sender ∧ (live s' t → live s t) ∧
      (live s t → ¬ live s' t → ∃ r, Packet.invoke t .statusOk r ∈ s.receiver.take n) := by
  rw [PushbackRecvSend.recv] at hs
  split at hs
  · cases hs; exact ⟨rfl, id, fun hl hl' => absurd hl hl'⟩
  · obtain ⟨u, hu, hs⟩ := bind_eq_ok.1 hs
    have h' : Inv c { s with receiver := s.receiver.drop n }
        (s.receiver.take n ++ s.receiver.drop n) := by
      rw [List.take_append_drop]; exact { h with }
    obtain ⟨hsu, hlu⟩ := h'.recvPackets_live hn hu
    have key : ∀ v : PushbackRecvSend, v.sender = u.sender → (live v t ↔ live u t) →
        v.sender = s.sender ∧ (live v t → live s t) ∧
          (live s t → ¬ live v t → ∃ r, Packet.invoke t .statusOk r ∈ s.receiver.take n) :=
      fun v hv hl => ⟨hv.trans hsu, fun hl' => (hlu.1 (hl.1 hl')).1, fun hl' hl'' => by
        by_contra hne
        exact hl'' (hl.2 (hlu.2 ⟨hl', fun p hp r he => hne ⟨r, he ▸ hp⟩⟩))⟩
    split at hs <;> (injection hs with hs; subst hs; exact key _ rfl Iff.rfl)

theorem Inv.executeTask_live {r : TaskRun} (h : Inv c s rx) :
    (live (PushbackRecvSend.executeTask c r s) t ↔
      live s t ∧ ¬ (s.waiting.head?.map TaskManager.id = some t ∧ r.state = .completed)) := by
  cases hw : s.waiting with
  | nil => rw [executeTask_nil hw]; simp [hw]
  | cons m rest =>
    have hfree := h.waitingFree m (hw ▸ List.mem_cons_self _ _)
    have hnd := h.waitingNodup
    rw [hw, List.map_cons, List.nodup_cons] at hnd
    cases hr : r.state with
    | yielded =>
      rw [executeTask_yielded hw hr]
      simp [live, hw, or_comm, or_left_comm]
    | waiting =>
      rw [executeTask_waiting hw hr]
      simp [live, hw, or_left_comm, or_assoc]
    | completed =>
      obtain ⟨cc, n, l, -, he⟩ := @executeTask_completed c s r m rest hw hr
      rw [he]
      simp only [live, hw, List.map_cons, List.mem_cons, List.head?_cons, Option.map_some',
        Option.some.injEq, and_true]
      constructor
      · rintro (hm | hm)
        · exact ⟨.inl hm, fun he => hfree (he ▸ hm)⟩
        · exact ⟨.inr (.inr hm), fun he => hnd.1 (he ▸ hm)⟩
      · rintro ⟨hm | rfl | hm, hne⟩
        · exact .inl hm
        · exact absurd rfl hne
        · exact .inr hm

theorem sendOne_live (hs : s.sendOne = .ok s') :
    s.sender <+: s'.sender ∧ (live s t → live s' t) ∧
      (live s' t → live s t ∨ ∃ q ∈ s'.sender, q.kind = .invoke ∧ q.stamp = t) := by
  cases hn : s.native
  · obtain ⟨pg, pp, p, tenant, rfl⟩ := sendOne_invoke hn hs
    refine ⟨List.prefix_append _ _, fun hl => ?_, fun hl => ?_⟩
    · rcases hl with hm | hw
      · exact .inl ((AList.mem_insert _).2 (.inr hm))
      · exact .inr hw
    · rcases hl with hm | hw
      · rcases (AList.mem_insert _).1 hm with rfl | hm
        · exact .inr ⟨_, List.mem_append_right _ (List.mem_singleton_self _), rfl, rfl⟩
        · exact .inl (.inl hm)
      · exact .inl (.inr hw)
  · obtain ⟨-, rfl⟩ := sendOne_native hn hs
    exact ⟨List.prefix_append _ _, id, .inl⟩

theorem send_live (hs : s.send = .ok s') :
    s.sender <+: s'.sender ∧ (live s t → live s' t) ∧
      (live s' t → live s t ∨ ∃ q ∈ s'.sender, q.kind = .invoke ∧ q.stamp = t) :=
  send_rel (fun a b => a.sender <+: b.sender ∧ (live a t → live b t) ∧
      (live b t → live a t ∨ ∃ q ∈ b.sender, q.kind = .invoke ∧ q.stamp = t))
    (fun _ => ⟨List.prefix_refl _, id, .inl⟩)
    (fun ⟨hp1, hl1, hr1⟩ ⟨hp2, hl2, hr2⟩ => ⟨hp1.trans hp2, hl2 ∘ hl1, fun hl =>
      (hr2 hl).elim (fun hl => (hr1 hl).imp_right fun ⟨q, hq, hq'⟩ => ⟨q, hp2.subset hq, hq'⟩)
        .inr⟩)
    (fun _ hu => sendOne_live hu) hs

theorem Inv.not_live (h : Inv c s rx) (hn : s.native = true) : ¬ live s t := by
  rw [live, (h.managerEmpty hn).1, (h.managerEmpty hn).2]
  simp

/-- Within a call of `execute` in invoke mode, a task live once `recv` has returned was live
before `send`, or is the task of an invoke that `send` transmitted. -/
theorem Inv.live_recv {n : ℕ} {u v : PushbackRecvSend} (h : Inv c s s.receiver)
    (h1 : 1 ≤ c.numOps) (hn : s.native = false)
    (hc : live s t → ∃ q ∈ s.sender, q.kind = .invoke ∧ q.stamp = t)
    (hu : s.send = .ok u) (hv : PushbackRecvSend.recv c n u = .ok v) (hl : live v t) :
    ∃ q ∈ v.sender, q.kind = .invoke ∧ q.stamp = t := by
  have hIu : Inv c u u.receiver := (send_frame hu).2 ▸ h.send h1 hu
  have hnu : u.native = false := (congrArg Prod.fst (send_frame hu).1).trans hn
  obtain ⟨hsv, hlv, -⟩ := hIu.recv_live hnu hv
  obtain ⟨hpu, -, hru⟩ := send_live hu
  rw [hsv]
  rcases hru (hlv hl) with hl | hq
  · obtain ⟨q, hq, hq'⟩ := hc hl
    exact ⟨q, hpu.subset hq, hq'⟩
  · exact hq

/-- Every live task was created by `add_request`: its id is the stamp of an invoke sent. -/
theorem Reachable.created (h1 : 1 ≤ c.numOps) (hs : Reachable c s) :
    live s t → ∃ q ∈ s.sender, q.kind = .invoke ∧ q.stamp = t := by
  induction hs with
  | new => simp [live, PushbackRecvSend.new]
  | step hr hst ih =>
    rename_i s s'
    intro hl
    cases hn : s.native
    · cases hst with
      | serve q p hq hp => exact ih hl
      | execute env he =>
        have hI := Inv.reachable h1 hr
        obtain ⟨u, hu, he⟩ := bind_eq_ok.1 he
        obtain ⟨v, hv, he⟩ := bind_eq_ok.1 he
        cases he
        have hIv : Inv c v v.receiver := ((send_frame hu).2 ▸ hI.send h1 hu).recv hv
        obtain ⟨q, hq, hq'⟩ := hI.live_recv h1 hn ih hu hv (hIv.executeTask_live.1 hl).1
        exact ⟨q, executeTask_frame.2.2.1.subset hq, hq'⟩
    · exact absurd hl
        ((Inv.reachable h1 (hr.step hst)).not_live ((congrArg Prod.fst hst.setup).trans hn))

/-! ### Task conservation -/

/-- Task conservation in a state of a run in invoke mode and within the next call of
`execute` from it. -/
structure TaskConservation (c : Consts) (s : PushbackRecvSend) : Prop where
  /-- A live task was created by `add_request`, for an invoke sent. -/
  created : ∀ t, live s t → ∃ q ∈ s.sender, q.kind = .invoke ∧ q.stamp = t
  /-- Never pending and queued at once. -/
  exclusive : ∀ t, ¬ (t ∈ s.manager ∧ t ∈ s.waiting.map TaskManager.id)
  /-- Queued at most once. -/
  queuedOnce : (s.waiting.map TaskManager.id).Nodup
  /-- Pending under its own id. -/
  ownId : ∀ t m, s.manager.lookup t = some m → m.id = t
  /-- Pending exactly while its invoke or its get is in flight. -/
  pendingIff : ∀ t, t ∈ s.manager ↔ t ∈ stamps s.wire s.receiver
  /-- Queued only while nothing of it is in flight. -/
  queuedIdle : ∀ m ∈ s.waiting, m.id ∉ stamps s.wire s.receiver
  /-- `add_request` never replaced an entry. -/
  addFresh : Info.alreadyPresent ∉ s.log
  /-- Within the next call of `execute`: the WAITING branch of `execute_task` inserts under
  a free id; `send` drops no task; `recv` drops a task only on an `Ok` response to its
  invoke; `execute_task` drops only the task it runs, when it completes. -/
  execute : ∀ (env : Env) (u v : PushbackRecvSend), s.send = .ok u → recv c env.batch u = .ok v →
    (∀ m rest, v.waiting = m :: rest → m.getId ∉ v.manager) ∧
    ∀ t, (live s t → live u t) ∧
      (live u t → ¬ live v t → ∃ r, Packet.invoke t .statusOk r ∈ u.receiver.take env.batch) ∧
      (live v t → ¬ live (executeTask c env.task v) t →
        v.waiting.head?.map TaskManager.id = some t ∧ env.task.state = .completed)

/-- **Task conservation** in every state of every run in invoke mode. -/
theorem task_conservation (h1 : 1 ≤ c.numOps) (hs : Reachable c s) (hn : s.native = false) :
    TaskConservation c s := by
  have h := Inv.reachable h1 hs
  refine ⟨fun t => Reachable.created h1 hs, fun t ⟨hm, hw⟩ => ?_, h.waitingNodup, h.managerId,
    h.managerIff hn, fun m hm hst => h.waitingFree m hm ((h.managerIff hn _).2 hst), h.noReplace,
    fun env u v hu hv => ?_⟩
  · obtain ⟨m, hm', rfl⟩ := List.mem_map.1 hw
    exact h.waitingFree m hm' hm
  · have hIu : Inv c u u.receiver := (send_frame hu).2 ▸ h.send h1 hu
    have hnu : u.native = false := (congrArg Prod.fst (send_frame hu).1).trans hn
    have hIv := hIu.recv hv
    refine ⟨fun m rest hw => hIv.waitingFree m (hw ▸ List.mem_cons_self _ _), fun t =>
      ⟨(send_live hu).2.1, (hIu.recv_live hnu hv).2.2, fun hl hl' => ?_⟩⟩
    by_contra hne
    exact hl' (hIv.executeTask_live.2 ⟨hl, hne⟩)

/-- Task conservation after `pushbackRun`: an invoke pushed back, its task parked on a get
and queued again once the get was answered. -/
theorem task_conservation_sample : 1 ≤ (Consts.shipped true).numOps ∧
    Reachable (Consts.shipped true) tasked ∧ tasked.native = false ∧
    TaskConservation (Consts.shipped true) tasked :=
  have hr := (Reachable.new ..).refl_trans tasked_steps
  ⟨le_rfl, hr, native_of_steps tasked_steps,
    task_conservation le_rfl hr (native_of_steps tasked_steps)⟩

end PushbackRecvSend

end Kayak
