import Kayak.Invariant

/-!
# Completed tasks and the log

In invoke mode a task that a `Pushback` response created runs on the client. When a step of
it reports `COMPLETED` and the client is built with the `execution` feature, `execute_task`
adds the step's cycles to the cycle counter and counts the task in `pushback_completed`;
every `100000`th completion logs `"Completion time per extension {}"` with the counter's
average and starts that count again. The client logs two other lines: `"Already present in
the Hashmap"` when `add_request` replaces a pending task, and `"No manager with {}
timestamp"` when a `Pushback` response finds no pending task.

## What is proved

**`completion_log`**: in every state of every run, in both modes, the log holds only
completion lines, one for each `100000` completions the cycle counter has counted, and
`pushback_completed` is that count modulo `100000`, so the check `== 100000` fires at every
`100000`th completion and at no other. The two other lines are never logged: every stamp
`send` uses is fresh, and every `Pushback` response answers a pending invoke.
-/

namespace Kayak

namespace PushbackRecvSend

variable {c : Consts} {s s' : PushbackRecvSend} {rx : List Packet}

/-- The part of the state that records completed tasks. -/
def tasksLog (s : PushbackRecvSend) : List Info × CycleCounter × ℕ :=
  (s.log, s.cycleCounter, s.pushbackCompleted)

/-- The record of completed tasks: only completion lines are logged, one for every `100000`
completions counted, and `pushback_completed` counts the completions since the last line. -/
structure CompletionLog (s : PushbackRecvSend) : Prop where
  lines : ∀ e ∈ s.log, ∃ a, e = .completionTime a
  every : s.log.length = s.cycleCounter.count / 100000
  rest : s.pushbackCompleted = s.cycleCounter.count % 100000

theorem CompletionLog.of_tasksLog (h : CompletionLog s) (he : s'.tasksLog = s.tasksLog) :
    CompletionLog s' := by
  simp only [tasksLog, Prod.mk.injEq] at he
  obtain ⟨hl, hc, hp⟩ := he
  exact ⟨by rw [hl]; exact h.lines, by rw [hl, hc]; exact h.every, by rw [hp, hc]; exact h.rest⟩

/-! ### `send` and `recv` log nothing -/

/-- An iteration of `send` logs nothing: its stamp is fresh, so `add_request` replaces no
pending task. -/
theorem Inv.sendOne_tasksLog (h : Inv c s rx) (hs : s.sendOne = .ok s') :
    s'.tasksLog = s.tasksLog := by
  cases hn : s.native
  · obtain ⟨pg, pp, p, tenant, rfl⟩ := sendOne_invoke hn hs
    have hm : s.clock.read s.ticks ∉ s.manager :=
      fun hm => lt_irrefl _ (h.fresh _ ((h.managerIff hn _).1 hm))
    simp [tasksLog, hm]
  · obtain ⟨-, rfl⟩ := sendOne_native hn hs
    rfl

theorem Inv.send_tasksLog (h : Inv c s rx) (h1 : 1 ≤ c.numOps) (hs : s.send = .ok s') :
    s'.tasksLog = s.tasksLog :=
  (send_rel (fun a b => Inv c a rx → Inv c b rx ∧ b.tasksLog = a.tasksLog)
    (fun _ ha => ⟨ha, rfl⟩)
    (fun hab hbd ha => ((hab ha).elim fun hb e1 => (hbd hb).imp_right (·.trans e1)))
    (fun hlt hu ha => ⟨ha.sendOne h1 hlt hu, ha.sendOne_tasksLog hu⟩) hs h).2

/-- Handling a response logs nothing: a `Pushback` response answers a pending invoke, so
its task is found. -/
theorem Inv.handlePacket_tasksLog {p : Packet} (h : Inv c s (p :: rx))
    (hs : PushbackRecvSend.handlePacket c s p = .ok s') : s'.tasksLog = s.tasksLog := by
  cases hn : s.native
  · cases p with
    | invoke t st r =>
      cases st with
      | statusOk => obtain ⟨-, -, rfl⟩ := handlePacket_statusOk_ok hn hs; rfl
      | statusPushback =>
        obtain ⟨m, hm⟩ := h.lookup_manager
          (show Packet.tag (.invoke t .statusPushback r) = some (.invoke, t) from rfl) hn
        obtain ⟨-, -, rfl⟩ := handlePacket_pushback_ok hn hs
        simp [tasksLog, AList.lookup_isSome.1 (by simp [hm] : (s.manager.lookup t).isSome)]
      | other k => rw [handlePacket_invokeOther hn] at hs; cases hs; rfl
    | get t tenant pl => obtain ⟨-, rfl⟩ := handlePacket_get_ok hn hs; rfl
    | put t => obtain ⟨-, rfl⟩ := handlePacket_put_ok hn hs; rfl
    | other => rw [handlePacket_other hn] at hs; cases hs; rfl
  · cases p with
    | get t tenant pl =>
      cases hl : s.nativeState.lookup t with
      | none => rw [handlePacket_unwrap hn hl] at hs; cases hs
      | some n =>
        by_cases hne : n = c.numOps
        · obtain ⟨-, l, rfl⟩ := handlePacket_done_ok hn (hne ▸ hl) hs; rfl
        · obtain ⟨-, val, rfl⟩ := handlePacket_step_ok hn hl hne hs; rfl
    | _ => rw [handlePacket_native_notGet hn (by simp)] at hs; cases hs; rfl

theorem Inv.recvPackets_tasksLog {b : List Packet} (h : Inv c s (b ++ rx))
    (hs : PushbackRecvSend.recvPackets c b s = .ok s') : s'.tasksLog = s.tasksLog := by
  induction b generalizing s' rx with
  | nil => cases hs; rfl
  | cons p ps ih =>
    obtain ⟨u, hu, hs⟩ := bind_eq_ok.1 hs
    have h' := h.perm List.perm_middle.symm
    exact ((h'.recvPackets hu).handlePacket_tasksLog hs).trans (ih h' hu)

theorem Inv.recv_tasksLog {n : ℕ} (h : Inv c s s.receiver)
    (hs : PushbackRecvSend.recv c n s = .ok s') : s'.tasksLog = s.tasksLog := by
  rw [PushbackRecvSend.recv] at hs
  split at hs
  · cases hs; rfl
  · obtain ⟨u, hu, hs⟩ := bind_eq_ok.1 hs
    have h' : Inv c { s with receiver := s.receiver.drop n }
        (s.receiver.take n ++ s.receiver.drop n) := by
      rw [List.take_append_drop]; exact { h with }
    have hu' := h'.recvPackets_tasksLog hu
    split at hs <;> cases hs <;> exact hu'

/-! ### `execute_task` counts completions -/

/-- A task step that completes a task counts it, and the `100000`th completion since the
last line logs one. -/
theorem CompletionLog.executeTask {r : TaskRun} (h : CompletionLog s) :
    CompletionLog (executeTask c r s) := by
  cases hw : s.waiting with
  | nil => rw [executeTask_nil hw]; exact h
  | cons m rest =>
    cases hr : r.state with
    | yielded => rw [executeTask_yielded hw hr]; exact ⟨h.lines, h.every, h.rest⟩
    | waiting => rw [executeTask_waiting hw hr]; exact ⟨h.lines, h.every, h.rest⟩
    | completed =>
      have hl := h.lines
      have he := h.every
      have hp := h.rest
      simp only [PushbackRecvSend.executeTask, hw, TaskManager.executeTask, hr, reduceCtorEq,
        if_false, true_and, List.foldl_nil]
      split_ifs with hx h1
      · refine ⟨?_, ?_, ?_⟩ <;>
          simp only [List.mem_append, List.mem_singleton, List.length_append,
            List.length_singleton, CycleCounter.totalCycles]
        · rintro e (he' | rfl)
          · exact hl e he'
          · exact ⟨_, rfl⟩
        · omega
        · omega
      · exact ⟨hl, by simp only [CycleCounter.totalCycles]; omega,
          by simp only [CycleCounter.totalCycles]; omega⟩
      · exact ⟨hl, he, hp⟩

/-! ### Over a run -/

theorem CompletionLog.step (h1 : 1 ≤ c.numOps) (hr : Reachable c s) (h : CompletionLog s)
    (hs : Step c s s') : CompletionLog s' := by
  cases hs with
  | serve q p _ _ => exact ⟨h.lines, h.every, h.rest⟩
  | execute env he =>
    have hI := Inv.reachable h1 hr
    obtain ⟨u, hu, he⟩ := bind_eq_ok.1 he
    obtain ⟨v, hv, he⟩ := bind_eq_ok.1 he
    cases he
    have hIu : Inv c u u.receiver := (send_frame hu).2 ▸ hI.send h1 hu
    exact (h.of_tasksLog ((hIu.recv_tasksLog hv).trans (hI.send_tasksLog h1 hu))).executeTask

/-- **The log of completed tasks**: in every state of every run, in both modes, the log holds
only completion lines, one for every `100000` completions the cycle counter has counted, and
`pushback_completed` is that count modulo `100000`. -/
theorem completion_log (h1 : 1 ≤ c.numOps) (hs : Reachable c s) :
    (∀ e ∈ s.log, ∃ a, e = .completionTime a) ∧
      s.log.length = s.cycleCounter.count / 100000 ∧
      s.pushbackCompleted = s.cycleCounter.count % 100000 := by
  have h : CompletionLog s := by
    induction hs with
    | new => exact ⟨by simp [new], by simp [new], by simp [new]⟩
    | step hr hst ih => exact ih.step h1 hr hst
  exact ⟨h.lines, h.every, h.rest⟩

/-- The record after a pushed-back task has completed once. -/
theorem completion_log_sample : 1 ≤ (Consts.shipped true).numOps ∧
    Reachable (Consts.shipped true) taskDone ∧ taskDone.cycleCounter.count = 1 ∧
    ((∀ e ∈ taskDone.log, ∃ a, e = .completionTime a) ∧
      taskDone.log.length = taskDone.cycleCounter.count / 100000 ∧
      taskDone.pushbackCompleted = taskDone.cycleCounter.count % 100000) :=
  ⟨le_rfl, (Reachable.new ..).refl_trans taskDone_steps, by decide,
    completion_log le_rfl ((Reachable.new ..).refl_trans taskDone_steps)⟩

end PushbackRecvSend

end Kayak
