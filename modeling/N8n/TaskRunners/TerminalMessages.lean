import N8n.TaskRunners.TaskOrigin

/-!
# Reports of the end of a task

`failTask` and `cancelTask` delete the task before they await the message about it, but
`taskDoneHandler` and `taskErrorHandler` delete it afterwards. Whatever completes the task in
between reports its end once more.
-/

namespace N8n.TaskRunners

/-- The end of the task is reported at most once, and the task is then deleted or about to be. -/
structure TaskLife.ReportedOnce (l : TaskLife) : Prop where
  once : l.reports ≤ 1
  deleting : l.reports ≠ 0 → l.task ≠ none → l.finishing = true

namespace TaskBroker

/-- The event does not complete a task that a suspended handler is finishing, and it does not fail
the callback of such a handler. -/
def FinishesOnce (mode : TaskRunnerMode) (b : TaskBroker) (e : BrokerEvent) : Prop :=
  ∀ taskId ∈ b.tasks.keys, b.finishFails e taskId = false ∧
    (.finishing taskId ∈ b.handlers → b.completes mode e taskId = false)

instance (mode : TaskRunnerMode) (b : TaskBroker) (e : BrokerEvent) :
    Decidable (b.FinishesOnce mode e) :=
  inferInstanceAs (Decidable (∀ taskId ∈ b.tasks.keys, _ ∧ (_ → _)))

variable {mode : TaskRunnerMode} {b b' : TaskBroker} {e : BrokerEvent} {t : Nat}

theorem unreported_of_completes (honce : (b.life t).ReportedOnce)
    (hfinishes : b.FinishesOnce mode e)
    (hcompletes : b.completes mode e t = true) : b.reports t = 0 := by
  obtain ⟨task, htask⟩ := known_of_completes hcompletes
  have hkey : t ∈ b.tasks.keys := Collections.InsertionMap.mem_keys_iff.mpr ⟨task, htask⟩
  by_contra hreports
  have hfinishing := honce.deleting hreports (by rw [htask]; exact Option.some_ne_none task)
  have hnot := (hfinishes t hkey).2 (of_decide_eq_true hfinishing)
  rw [hnot] at hcompletes
  cases hcompletes

theorem unreported_of_create (horigin : b.Origin) (he : b.matchingEvent e = .create t) :
    b.reports t = 0 := by
  by_contra hreports
  obtain ⟨a, ha, hcreated⟩ := horigin.reported t (Nat.pos_of_ne_zero hreports)
  rw [undecided_of_create he ha] at hcreated
  cases hcreated

theorem reportedOnce_step (horigin : b.Origin) (honce : (b.life t).ReportedOnce)
    (hfinishes : b.FinishesOnce mode e) (h : b.step mode e = some b') :
    (b'.life t).ReportedOnce := by
  have hstep := step_life h t
  generalize b'.life t = l' at hstep ⊢
  cases hstep with
  | stay => exact honce
  | create he ha =>
    have hzero := unreported_of_create horigin he
    exact ⟨honce.once, fun hreports => absurd hzero hreports⟩
  | drop finishing => exact ⟨honce.once, fun _ hknown => absurd rfl hknown⟩
  | @fail sent he hsent =>
    have hzero := unreported_of_completes honce hfinishes he
    refine ⟨?_, fun _ hknown => absurd rfl hknown⟩
    show b.reports t + sent ≤ 1
    omega
  | @finish sent he hsent =>
    have hzero := unreported_of_completes honce hfinishes he
    refine ⟨?_, fun _ _ => rfl⟩
    show b.reports t + sent ≤ 1
    omega
  | finishFails he =>
    refine ⟨honce.once, fun _ hknown => ?_⟩
    obtain ⟨task, htask⟩ := Option.ne_none_iff_exists'.mp hknown
    have hkey : t ∈ b.tasks.keys := Collections.InsertionMap.mem_keys_iff.mpr ⟨task, htask⟩
    rw [(hfinishes t hkey).1] at he
    cases he

/-- At most one message reports the end of a task in a run in which no task is completed while a
handler is finishing it. -/
theorem reported_once (mode : TaskRunnerMode) (b : TaskBroker)
    (h : Transition.Reachable (step mode) (FinishesOnce mode) {} b) (taskId : Nat) :
    b.reports taskId ≤ 1 := by
  have hinv : b.Origin ∧ ∀ t, (b.life t).ReportedOnce := by
    refine h.keeps (fun b => b.Origin ∧ ∀ t, (b.life t).ReportedOnce) ?_ ?_
    · refine ⟨origin_of_reachable
        (.start : Transition.Reachable (step mode) (FinishesOnce mode) _ _),
        fun t => ⟨Nat.zero_le 1, fun hreports => absurd rfl hreports⟩⟩
    · intro b e b' hinv hfinishes hstep
      exact ⟨hinv.1.step hstep, fun t => reportedOnce_step hinv.1 (hinv.2 t) hfinishes hstep⟩
  exact (hinv.2 taskId).once

/-- A task is made and started, and its runner says that it is done. -/
def doneTask : List BrokerEvent :=
  [.registerRunner "runner", .registerRequester "requester",
    .requesterMessage "requester" (.taskRequest "request" "javascript"),
    .runnerMessage "runner" (.taskOffer "offer" "javascript" (-1)), .resumeAttempt 0 true,
    .runnerMessage "runner" (.taskAccepted 0), .resumeAttempt 0 true, .resumeAttempt 0 true,
    .requesterMessage "requester" (.taskSettings 0), .resumeAttempt 0 true, .resumeAttempt 0 true,
    .resumeAttempt 0 true, .runnerMessage "runner" (.taskDone 0)]

/-- The runner leaves after the task was deleted. -/
theorem reported_once_done :
    ∃ b, Transition.runAllowed (step .internal) (FinishesOnce .internal) {}
        (doneTask ++ [.resumeHandler 0 true, .deregisterRunner "runner"]) = some b ∧
      b.reports 0 ≤ 1 := by
  have hrun : (Transition.runAllowed (step .internal) (FinishesOnce .internal) {}
      (doneTask ++ [.resumeHandler 0 true, .deregisterRunner "runner"])).isSome := by
    decide +kernel
  obtain ⟨b, hb⟩ := Option.isSome_iff_exists.mp hrun
  exact ⟨b, hb, reported_once .internal b (Transition.reachable_of_runAllowed .start hb) 0⟩

/-- A runner that leaves while its task is being finished fails the task too. -/
theorem reported_twice_done : ¬ ∀ (mode : TaskRunnerMode) (b : TaskBroker),
    Transition.Reachable (step mode) (fun _ _ => True) {} b → ∀ taskId, b.reports taskId ≤ 1 := by
  intro hclaim
  have hrun : (Transition.run (step .internal) {}
      (doneTask ++ [.deregisterRunner "runner"])).any fun b => b.reports 0 = 2 := by
    decide +kernel
  obtain ⟨b, hb, hreports⟩ := (Option.any_eq_true _ _).mp hrun
  have honce := hclaim .internal b (Transition.reachable_of_run hb) 0
  rw [of_decide_eq_true hreports] at honce
  omega

end TaskBroker

end N8n.TaskRunners
