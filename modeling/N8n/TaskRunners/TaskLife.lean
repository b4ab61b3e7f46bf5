import N8n.TaskRunners.Matching

/-!
# The life of a task

What a broker keeps and says about one task: the task itself, while it is known, whether a handler
that finishes it is suspended, and how often its end was reported to a requester. The main theorem
of this file, `step_life`, says what a reaction of the broker can do to the life of a task.
-/

namespace N8n.TaskRunners

open Collections

/-- The life of a task. -/
structure TaskLife where
  task : Option Task
  finishing : Bool
  reports : Nat
  deriving DecidableEq, Repr

/-- The message reports the end of the task, as `broker:taskdone` or as `broker:taskerror`. -/
def ToRequester.reportsOn (taskId : Nat) : ToRequester → Bool
  | .taskReady _ _ => false
  | .taskDone taskId' | .taskError taskId' => taskId' = taskId

namespace TaskBroker

/-- How many messages reported the end of the task. -/
def reports (b : TaskBroker) (taskId : Nat) : Nat :=
  b.toRequesters.countP fun m => m.2.reportsOn taskId

/-- The life of a task as the broker has it. -/
def life (b : TaskBroker) (taskId : Nat) : TaskLife :=
  { task := b.tasks.get? taskId, finishing := .finishing taskId ∈ b.handlers
    reports := b.reports taskId }

/-- The task that an attempt makes. -/
def taskOf (b : TaskBroker) (a : Attempt) : Task :=
  { taskType := (b.offer a.offer).taskType, runnerId := (b.offer a.offer).runnerId
    requesterId := (b.request a.request).requesterId }

/-- The runner of the task has left. -/
def runnerLeft (b : TaskBroker) (taskId : Nat) : Bool :=
  (b.tasks.get? taskId).any fun task => task.runnerId ∉ b.knownRunners

/-- The event makes the broker report the end of a task that it knows. -/
def completes (mode : TaskRunnerMode) (b : TaskBroker) (e : BrokerEvent) (taskId : Nat) : Bool :=
  match e with
  | .runnerMessage runnerId (.taskDone taskId') | .runnerMessage runnerId (.taskError taskId') =>
    runnerId ∈ b.knownRunners && taskId' = taskId && b.tasks.has taskId
  | .deregisterRunner runnerId => (b.tasks.get? taskId).any (·.runnerId = runnerId)
  | .requesterMessage _ (.response taskId') => taskId' = taskId && b.runnerLeft taskId
  | .taskTimeout taskId' => mode = .internal && taskId' = taskId && b.tasks.has taskId
  | .resumeAttempt taskId' _ =>
    taskId' = taskId && b.runnerLeft taskId && b.attempts[taskId]?.any fun a =>
      a.phase = .waitingForSettings ∧ a.settings = some .received
  | .resumeHandler index ok =>
    ok && b.handlers[index]? = some (.timingOut taskId) && b.tasks.has taskId
  | _ => false

/-- The event fails the callback of a suspended handler that finishes the task. -/
def finishFails (b : TaskBroker) (e : BrokerEvent) (taskId : Nat) : Bool :=
  match e with
  | .resumeHandler index ok => !ok && b.handlers[index]? = some (.finishing taskId)
  | _ => false

end TaskBroker

/-- What an event can do to the life of a task. -/
inductive LifeStep (mode : TaskRunnerMode) (b : TaskBroker) (e : BrokerEvent) (taskId : Nat) :
    TaskLife → TaskLife → Prop where
  | stay (l : TaskLife) : LifeStep mode b e taskId l l
  | create (l : TaskLife) {a : Attempt} (he : b.matchingEvent e = .create taskId)
      (ha : b.attempts[taskId]? = some a) :
      LifeStep mode b e taskId l { l with task := some (b.taskOf a) }
  /-- The task is cancelled, or its finishing handler ends. -/
  | drop (l : TaskLife) (finishing : Bool) :
      LifeStep mode b e taskId l { l with task := none, finishing := finishing }
  /-- The task is deleted and its end reported. -/
  | fail (l : TaskLife) {sent : Nat} (he : b.completes mode e taskId) (hsent : sent ≤ 1) :
      LifeStep mode b e taskId l { l with task := none, reports := l.reports + sent }
  /-- The end of the task is reported before the task is deleted. -/
  | finish (l : TaskLife) {sent : Nat} (he : b.completes mode e taskId) (hsent : sent ≤ 1) :
      LifeStep mode b e taskId l { l with finishing := true, reports := l.reports + sent }
  | finishFails (l : TaskLife) {finishing : Bool} (he : b.finishFails e taskId) :
      LifeStep mode b e taskId l { l with finishing := finishing }

theorem LifeStep.of_eq {mode : TaskRunnerMode} {b : TaskBroker} {e : BrokerEvent} {taskId : Nat}
    {l l' : TaskLife} (h : l' = l) : LifeStep mode b e taskId l l' := by
  rw [h]
  exact .stay l

section Inversion

variable {mode : TaskRunnerMode} {b : TaskBroker} {e : BrokerEvent} {t : Nat} {l l' : TaskLife}

theorem LifeStep.of_task {task : Task} (h : LifeStep mode b e t l l')
    (htask : l'.task = some task) :
    l.task = some task ∨ b.matchingEvent e = .create t ∧
      ∃ a, b.attempts[t]? = some a ∧ task = b.taskOf a := by
  cases h with
  | stay => exact .inl htask
  | create he ha => exact .inr ⟨he, _, ha, (Option.some.inj htask).symm⟩
  | drop => cases htask
  | fail => cases htask
  | finish => exact .inl htask
  | finishFails => exact .inl htask

theorem LifeStep.of_reports (h : LifeStep mode b e t l l') :
    l'.reports = l.reports ∨ b.completes mode e t = true := by
  cases h with
  | stay => exact .inl rfl
  | create => exact .inl rfl
  | drop => exact .inl rfl
  | fail he => exact .inr he
  | finish he => exact .inr he
  | finishFails => exact .inl rfl

theorem TaskBroker.known_of_completes (h : b.completes mode e t = true) :
    ∃ task, (b.life t).task = some task := by
  have hhas : b.tasks.has t = true → ∃ task, (b.life t).task = some task :=
    Option.isSome_iff_exists.mp
  have hany : ∀ p, (b.tasks.get? t).any p = true → ∃ task, (b.life t).task = some task := by
    intro p hp
    obtain ⟨task, htask, -⟩ := (Option.any_eq_true _ _).mp hp
    exact ⟨task, htask⟩
  unfold completes at h
  split at h
  · exact hhas (Bool.and_eq_true_iff.mp h).2
  · exact hhas (Bool.and_eq_true_iff.mp h).2
  · exact hany _ h
  · exact hany _ (Bool.and_eq_true_iff.mp h).2
  · exact hhas (Bool.and_eq_true_iff.mp h).2
  · exact hany _ (Bool.and_eq_true_iff.mp (Bool.and_eq_true_iff.mp h).1).2
  · exact hhas (Bool.and_eq_true_iff.mp h).2
  · cases h

end Inversion

namespace TaskBroker

variable (b : TaskBroker) (t : Nat)

section Frame

@[simp]
theorem messageRunner_life (runnerId : String) (message : ToRunner) :
    (b.messageRunner runnerId message).life t = b.life t := by
  unfold messageRunner
  split <;> rfl

theorem messageRequester_life (requesterId : String) (message : ToRequester) :
    ∃ sent ≤ 1, (b.messageRequester requesterId message).life t =
      { b.life t with reports := b.reports t + sent } ∧
        (message.reportsOn t = false → sent = 0) := by
  unfold messageRequester
  split
  · refine ⟨if message.reportsOn t then 1 else 0, ?_, ?_, ?_⟩
    · split <;> omega
    · simp only [life, reports, List.countP_append, List.countP_singleton]
    · intro hmessage
      rw [hmessage]
      rfl
  · exact ⟨0, Nat.zero_le 1, rfl, fun _ => rfl⟩

@[simp]
theorem messageRequester_life_taskReady (requesterId requestId : String) (taskId : Nat) :
    (b.messageRequester requesterId (.taskReady requestId taskId)).life t = b.life t := by
  obtain ⟨sent, -, hlife, hsent⟩ :=
    messageRequester_life b t requesterId (.taskReady requestId taskId)
  rw [hlife, hsent rfl]
  rfl

@[simp]
theorem settleRequest_life (requestRef : Nat) : (b.settleRequest requestRef).life t = b.life t := by
  unfold settleRequest
  split
  · rfl
  · split
    · rfl
    · exact messageRunner_life _ _ _ _

@[simp]
theorem settleTasks_life : b.settleTasks.life t = b.life t := by
  have hfold : ∀ (requestRefs : List Nat) (b : TaskBroker),
      (requestRefs.foldl settleRequest b).life t = b.life t := by
    intro requestRefs
    induction requestRefs with
    | nil => exact fun _ => rfl
    | cons requestRef requestRefs ih =>
      intro b
      rw [List.foldl_cons, ih, settleRequest_life]
  exact hfold _ b.expireTasks

@[simp]
theorem failAttempt_life (taskId requestRef : Nat) (deferred : Bool) :
    (b.failAttempt taskId requestRef deferred).life t = b.life t := by
  unfold failAttempt
  split <;> rfl

end Frame

section Ends

theorem cancelTask_life (taskId : Nat) (reason : String) :
    (b.cancelTask taskId reason).life t = b.life t ∨
      (b.cancelTask taskId reason).life t = { b.life t with task := none } := by
  unfold cancelTask
  cases b.tasks.get? taskId with
  | none => exact .inl rfl
  | some task =>
    rw [messageRunner_life]
    by_cases heq : t = taskId
    · right
      simp only [life, reports, InsertionMap.get_delete, if_pos heq]
    · left
      simp only [life, reports, InsertionMap.get_delete, if_neg heq]

theorem failTask_life (taskId : Nat) :
    (b.failTask taskId).life t = b.life t ∨
      taskId = t ∧ ∃ task, b.tasks.get? t = some task ∧ ∃ sent ≤ 1, (b.failTask taskId).life t =
        { b.life t with task := none, reports := b.reports t + sent } := by
  unfold failTask
  cases htask : b.tasks.get? taskId with
  | none => exact .inl rfl
  | some task =>
    obtain ⟨sent, hsent, hlife, hother⟩ := messageRequester_life
      { b with tasks := b.tasks.delete taskId } t task.requesterId (.taskError taskId)
    rw [hlife]
    by_cases heq : taskId = t
    · subst heq
      refine .inr ⟨rfl, task, htask, sent, hsent, ?_⟩
      simp only [life, reports, InsertionMap.get_delete, if_true]
    · left
      rw [hother (decide_eq_false heq)]
      simp only [life, reports, InsertionMap.get_delete, if_neg (Ne.symm heq)]
      rfl

theorem finishTask_life (message : Nat → ToRequester) (taskId : Nat)
    (hmessage : ∀ t, (message taskId).reportsOn t = decide (taskId = t)) :
    (b.finishTask message taskId).life t = b.life t ∨
      taskId = t ∧ b.tasks.has t ∧ ∃ sent ≤ 1, (b.finishTask message taskId).life t =
        { b.life t with finishing := true, reports := b.reports t + sent } := by
  unfold finishTask
  cases htask : b.tasks.get? taskId with
  | none => exact .inl rfl
  | some task =>
    obtain ⟨sent, hsent, hlife, hother⟩ := messageRequester_life
      { b with
        timers := b.timers.filter (· ≠ taskId), handlers := b.handlers ++ [.finishing taskId] }
      t task.requesterId (message taskId)
    rw [hlife]
    by_cases heq : taskId = t
    · subst heq
      refine .inr ⟨rfl, ?_, sent, hsent, ?_⟩
      · rw [InsertionMap.has, htask]
        rfl
      · simp only [life, reports, List.mem_append, List.mem_singleton, or_true, decide_true]
    · left
      rw [hother ((hmessage t).trans (decide_eq_false heq))]
      have hhandlers : Handler.finishing t ∈ b.handlers ++ [.finishing taskId] ↔
          Handler.finishing t ∈ b.handlers := by
        rw [List.mem_append, List.mem_singleton, Handler.finishing.injEq]
        exact or_iff_left (Ne.symm heq)
      simp only [life, reports, hhandlers]
      rfl

theorem foldl_failTask_life (entries : List (Nat × Task)) :
    (entries.foldl (fun b e => b.failTask e.1) b).life t = b.life t ∨
      t ∈ entries.map Prod.fst ∧ ∃ sent ≤ 1,
        (entries.foldl (fun b e => b.failTask e.1) b).life t =
          { b.life t with task := none, reports := b.reports t + sent } := by
  induction entries generalizing b with
  | nil => exact .inl rfl
  | cons e entries ih =>
    rw [List.foldl_cons, List.map_cons]
    cases failTask_life b t e.1 with
    | inl hstay =>
      have hreports : (b.failTask e.1).reports t = b.reports t :=
        congrArg TaskLife.reports hstay
      cases ih (b.failTask e.1) with
      | inl h => exact .inl (h.trans hstay)
      | inr h =>
        obtain ⟨hmem, sent, hsent, h⟩ := h
        refine .inr ⟨List.mem_cons_of_mem _ hmem, sent, hsent, h.trans ?_⟩
        rw [hstay, hreports]
    | inr hfail =>
      obtain ⟨rfl, task, -, sent, hsent, hfail⟩ := hfail
      -- a task that was deleted is not failed again
      have hnone : (b.failTask e.1).tasks.get? e.1 = none := congrArg TaskLife.task hfail
      have hstay : ∀ (entries : List (Nat × Task)) (b : TaskBroker),
          b.tasks.get? e.1 = none →
          (entries.foldl (fun b e => b.failTask e.1) b).life e.1 = b.life e.1 := by
        intro entries
        induction entries with
        | nil => exact fun _ _ => rfl
        | cons e' entries ih' =>
          intro b hb
          rw [List.foldl_cons]
          cases failTask_life b e.1 e'.1 with
          | inl h =>
            exact (ih' _ ((congrArg TaskLife.task h).trans hb)).trans h
          | inr h =>
            obtain ⟨-, task', htask', -⟩ := h
            rw [hb] at htask'
            cases htask'
      exact .inr ⟨List.mem_cons_self, sent, hsent, (hstay entries _ hnone).trans hfail⟩

theorem getRunnerOrFailTask_life (taskId : Nat) :
    (b.getRunnerOrFailTask taskId).1.life t = b.life t ∨
      taskId = t ∧ b.runnerLeft t ∧ ∃ sent ≤ 1, (b.getRunnerOrFailTask taskId).1.life t =
        { b.life t with task := none, reports := b.reports t + sent } := by
  unfold getRunnerOrFailTask
  cases htask : b.tasks.get? taskId with
  | none => exact .inl rfl
  | some task =>
    dsimp only
    split
    · exact .inl rfl
    · rename_i hleft
      cases failTask_life b t taskId with
      | inl h => exact .inl h
      | inr h =>
        obtain ⟨rfl, -, -, sent, hsent, h⟩ := h
        refine .inr ⟨rfl, ?_, sent, hsent, h⟩
        rw [runnerLeft, htask]
        exact decide_eq_true hleft

theorem failTask_get (taskId : Nat) : (b.failTask taskId).tasks.get? taskId = none := by
  have hmessage : ∀ (b : TaskBroker) (requesterId : String) (message : ToRequester),
      (b.messageRequester requesterId message).tasks = b.tasks := by
    intro b requesterId message
    unfold messageRequester
    split <;> rfl
  unfold failTask
  cases htask : b.tasks.get? taskId with
  | none => exact htask
  | some task =>
    rw [hmessage, InsertionMap.get_delete, if_pos rfl]

theorem getRunnerOrFailTask_none {taskId : Nat} (h : (b.getRunnerOrFailTask taskId).2 = none) :
    (b.getRunnerOrFailTask taskId).1.tasks.get? taskId = none := by
  unfold getRunnerOrFailTask at h ⊢
  cases htask : b.tasks.get? taskId with
  | none => exact htask
  | some task =>
    rw [htask] at h
    dsimp only at h ⊢
    split
    · rename_i hknown
      rw [if_pos hknown] at h
      cases h
    · exact failTask_get b taskId

theorem sendTaskSettings_life (taskId : Nat) :
    (b.sendTaskSettings taskId).life t = (b.getRunnerOrFailTask taskId).1.life t := by
  have hnone : (b.getRunnerOrFailTask taskId).2 = none →
      (b.getRunnerOrFailTask taskId).1.tasks.get? taskId = none := getRunnerOrFailTask_none b
  unfold sendTaskSettings
  split
  · rename_i b' runnerId hget
    rw [hget]
    rfl
  · rename_i b' hget
    rw [hget] at hnone ⊢
    have htask : b'.tasks.get? taskId = none := hnone rfl
    unfold abandonTask cancelTask
    rw [show (b'.setAttempt taskId _).tasks.get? taskId = none from htask]
    rfl

theorem taskAccepted_life (taskId : Nat) (a : Attempt) :
    (b.taskAccepted taskId a.offer a.request).life t =
      if taskId = t then { b.life t with task := some (b.taskOf a) } else b.life t := by
  have htask : ({ b with tasks := b.tasks.set taskId (b.taskOf a) } : TaskBroker).life t =
      if taskId = t then { b.life t with task := some (b.taskOf a) } else b.life t := by
    by_cases heq : taskId = t
    · rw [if_pos heq]
      simp only [life, reports, InsertionMap.get_set, if_pos heq.symm]
    · rw [if_neg heq]
      simp only [life, reports, InsertionMap.get_set, if_neg (Ne.symm heq)]
  simp only [taskAccepted]
  split
  · exact htask
  · rw [messageRequester_life_taskReady]
    exact htask

end Ends

section Steps

variable {b b' : TaskBroker} {t : Nat} {mode : TaskRunnerMode} {e : BrokerEvent}

theorem cancelTask_step (taskId : Nat) (reason : String) (hlife : b'.life t = b.life t) :
    LifeStep mode b e t (b.life t) ((b'.cancelTask taskId reason).life t) := by
  cases cancelTask_life b' t taskId reason with
  | inl h => exact .of_eq (h.trans hlife)
  | inr h =>
    rw [h, hlife]
    exact .drop (b.life t) _

theorem finishTask_step {message : Nat → ToRequester} {taskId : Nat}
    (hmessage : ∀ t, (message taskId).reportsOn t = decide (taskId = t))
    (hlife : b'.life t = b.life t)
    (he : taskId = t → b.tasks.has t → b.completes mode e t) :
    LifeStep mode b e t (b.life t) ((b'.finishTask message taskId).life t) := by
  cases finishTask_life b' t message taskId hmessage with
  | inl h => exact .of_eq (h.trans hlife)
  | inr h =>
    obtain ⟨heq, hhas, sent, hsent, h⟩ := h
    have htask : b'.tasks.get? t = b.tasks.get? t := congrArg TaskLife.task hlife
    have hreports : b'.reports t = b.reports t := congrArg TaskLife.reports hlife
    rw [InsertionMap.has, htask] at hhas
    rw [h, hlife, hreports]
    exact .finish (b.life t) (he heq hhas) hsent

theorem getRunnerOrFailTask_step {taskId : Nat}
    (he : taskId = t → b.runnerLeft t → b.completes mode e t) :
    LifeStep mode b e t (b.life t) ((b.getRunnerOrFailTask taskId).1.life t) := by
  cases getRunnerOrFailTask_life b t taskId with
  | inl h => exact .of_eq h
  | inr h =>
    obtain ⟨heq, hleft, sent, hsent, h⟩ := h
    rw [h]
    exact .fail (b.life t) (he heq hleft) hsent

theorem deregisterRunner_step (runnerId : String) :
    LifeStep mode b (.deregisterRunner runnerId) t (b.life t)
      ((b.deregisterRunner runnerId).life t) := by
  unfold deregisterRunner
  cases foldl_failTask_life { b with
      knownRunners := b.knownRunners.filter (· ≠ runnerId)
      pendingTaskOffers := b.pendingTaskOffers.filter fun o => (b.offer o).runnerId ≠ runnerId } t
      (b.tasks.entries.filter (·.2.runnerId = runnerId)) with
  | inl h => exact .of_eq h
  | inr h =>
    obtain ⟨hmem, sent, hsent, h⟩ := h
    obtain ⟨entry, hentry, rfl⟩ := List.mem_map.mp hmem
    obtain ⟨hentry, hrunner⟩ := List.mem_filter.mp hentry
    have htask : b.tasks.get? entry.1 = some entry.2 := InsertionMap.get_eq_some_iff.mpr hentry
    have he : b.completes mode (.deregisterRunner runnerId) entry.1 := by
      rw [completes, htask]
      exact hrunner
    rw [h]
    exact .fail (b.life entry.1) he hsent

theorem mem_eraseIdx_of_ne {l : List Handler} {i : Nat} {x y : Handler} (hi : l[i]? = some x)
    (hne : x ≠ y) : y ∈ l.eraseIdx i ↔ y ∈ l := by
  rw [List.mem_eraseIdx_iff_getElem?, List.mem_iff_getElem?]
  constructor
  · intro h
    obtain ⟨j, -, hj⟩ := h
    exact ⟨j, hj⟩
  · intro h
    obtain ⟨j, hj⟩ := h
    refine ⟨j, fun heq => ?_, hj⟩
    rw [heq, hi] at hj
    exact hne (Option.some.inj hj)

theorem life_handlers {handlers : List Handler}
    (h : .finishing t ∈ handlers ↔ .finishing t ∈ b.handlers) :
    ({ b with handlers := handlers } : TaskBroker).life t = b.life t := by
  simp only [life, reports, h]

theorem resumeHandler_step {index : Nat} {ok : Bool} (h : b.resumeHandler index ok = some b') :
    LifeStep mode b (.resumeHandler index ok) t (b.life t) (b'.life t) := by
  obtain ⟨handler, hhandler, rfl⟩ := Option.map_eq_some_iff.mp h
  have hother : handler ≠ .finishing t →
      (Handler.finishing t ∈ b.handlers.eraseIdx index ↔ Handler.finishing t ∈ b.handlers) :=
    mem_eraseIdx_of_ne hhandler
  cases ok with
  | false =>
    by_cases hfinishing : handler = .finishing t
    · refine .finishFails (b.life t) ?_
      rw [finishFails, hhandler, hfinishing]
      exact decide_eq_true rfl
    · exact .of_eq (life_handlers (hother hfinishing))
  | true =>
    cases handler with
    | finishing taskId =>
      by_cases heq : taskId = t
      · subst heq
        show LifeStep mode b _ taskId (b.life taskId)
          { b.life taskId with
            task := (b.tasks.delete taskId).get? taskId
            finishing := .finishing taskId ∈ b.handlers.eraseIdx index }
        rw [InsertionMap.get_delete, if_pos rfl]
        exact .drop (b.life taskId) _
      · have hne : Handler.finishing taskId ≠ .finishing t :=
          fun h => heq (Handler.finishing.inj h)
        refine .of_eq ?_
        show { b.life t with
          task := (b.tasks.delete taskId).get? t
          finishing := .finishing t ∈ b.handlers.eraseIdx index } = b.life t
        rw [InsertionMap.get_delete, if_neg (Ne.symm heq)]
        exact life_handlers (hother hne)
    | timingOut taskId =>
      refine finishTask_step (fun _ => rfl) (life_handlers (hother Handler.noConfusion)) ?_
      intro heq hhas
      subst heq
      simp only [completes, hhandler, hhas, decide_true, Bool.and_self]

/-- A timeout finishes the task in internal mode, and only tells the runner first in external
mode. -/
theorem handleTaskTimeout_step (taskId : Nat) :
    LifeStep mode b (.taskTimeout taskId) t (b.life t)
      ((b.handleTaskTimeout mode taskId).life t) := by
  cases mode with
  | internal =>
    simp only [handleTaskTimeout]
    split
    · exact .stay (b.life t)
    · refine finishTask_step (fun _ => rfl) rfl ?_
      intro heq hhas
      simp only [completes, heq, hhas, decide_true, Bool.and_self]
  | external =>
    simp only [handleTaskTimeout]
    split
    · exact .stay (b.life t)
    · refine .of_eq ((messageRunner_life _ _ _ _).trans (life_handlers ?_))
      rw [List.mem_append, List.mem_singleton]
      exact or_iff_left Handler.noConfusion

theorem resumeAttempt_step {taskId : Nat} {ok : Bool} (h : b.resumeAttempt taskId ok = some b') :
    LifeStep mode b (.resumeAttempt taskId ok) t (b.life t) (b'.life t) := by
  obtain ⟨a, ha, h⟩ := Option.bind_eq_some_iff.mp h
  cases hphase : a.phase with
  | messagingRunner =>
    rw [hphase] at h
    cases ok with
    | false =>
      cases h
      exact .of_eq (failAttempt_life b t taskId a.request false)
    | true =>
      cases h
      exact .stay (b.life t)
  | waitingForRunner =>
    rw [hphase] at h
    obtain ⟨answer, hanswer, h⟩ := Option.bind_eq_some_iff.mp h
    cases answer with
    | accepted =>
      cases h
      rw [taskAccepted_life]
      split
      · rename_i heq
        subst heq
        refine .create (b.life taskId) ?_ ha
        simp only [matchingEvent, ha, hphase, hanswer]
      · exact .stay (b.life t)
    | rejected reason =>
      cases h
      exact .of_eq (failAttempt_life b t taskId a.request false)
    | deferred =>
      cases h
      exact .of_eq (failAttempt_life b t taskId a.request true)
    | timedOut =>
      cases h
      exact .of_eq (failAttempt_life b t taskId a.request false)
  | failed =>
    rw [hphase] at h
    cases h
  | messagingRequester =>
    rw [hphase] at h
    cases ok with
    | false =>
      cases h
      exact cancelTask_step taskId _ rfl
    | true =>
      cases h
      exact .stay (b.life t)
  | waitingForSettings =>
    rw [hphase] at h
    obtain ⟨settings, hsettings, h⟩ := Option.bind_eq_some_iff.mp h
    cases settings with
    | received =>
      cases h
      have hstep : LifeStep mode b (.resumeAttempt taskId ok) t (b.life t)
          ((b.getRunnerOrFailTask taskId).1.life t) := by
        refine getRunnerOrFailTask_step ?_
        intro heq hleft
        subst heq
        simp only [completes, hleft, ha, hphase, hsettings, Option.any_some, decide_true,
          Bool.and_self, and_self]
      rw [sendTaskSettings_life]
      exact hstep
    | timedOut =>
      cases h
      exact cancelTask_step taskId _ rfl
  | gettingRunner =>
    rw [hphase] at h
    cases h
    refine .of_eq ?_
    unfold startTask
    split
    · rfl
    · exact messageRunner_life _ _ _ _
  | sendingSettings =>
    rw [hphase] at h
    cases ok with
    | false =>
      cases h
      exact cancelTask_step taskId _ rfl
    | true =>
      cases h
      exact .stay (b.life t)
  | ended =>
    rw [hphase] at h
    cases h

theorem onRunnerMessage_step (runnerId : String) (message : RunnerMessage) :
    LifeStep mode b (.runnerMessage runnerId message) t (b.life t)
      ((b.onRunnerMessage runnerId message).life t) := by
  unfold onRunnerMessage
  by_cases hknown : runnerId ∈ b.knownRunners
  · rw [if_neg (not_not.mpr hknown)]
    cases message with
    | taskOffer offerId taskType validFor => exact .of_eq (settleTasks_life _ _)
    | taskDone taskId =>
      refine finishTask_step (fun _ => rfl) rfl ?_
      intro heq hhas
      simp only [completes, hknown, heq, hhas, decide_true, Bool.and_self]
    | taskError taskId =>
      refine finishTask_step (fun _ => rfl) rfl ?_
      intro heq hhas
      simp only [completes, hknown, heq, hhas, decide_true, Bool.and_self]
    | taskAccepted taskId => exact .stay (b.life t)
    | taskRejected taskId reason => exact .stay (b.life t)
    | taskDeferred taskId => exact .stay (b.life t)
    | forwarded taskId => exact .stay (b.life t)
  · rw [if_pos hknown]
    exact .stay (b.life t)

theorem onRequesterMessage_step (requesterId : String) (message : RequesterMessage) :
    LifeStep mode b (.requesterMessage requesterId message) t (b.life t)
      ((b.onRequesterMessage requesterId message).life t) := by
  cases message with
  | taskSettings taskId => exact .stay (b.life t)
  | taskCancel taskId reason => exact cancelTask_step taskId reason rfl
  | taskRequest requestId taskType => exact .of_eq (settleTasks_life _ _)
  | response taskId =>
    refine getRunnerOrFailTask_step ?_
    intro heq hleft
    simp only [completes, heq, hleft, decide_true, Bool.and_self]

theorem step_life (h : b.step mode e = some b') (t : Nat) :
    LifeStep mode b e t (b.life t) (b'.life t) := by
  cases e with
  | elapse duration =>
    cases h
    exact .stay (b.life t)
  | registerRunner runnerId =>
    cases h
    exact .of_eq (messageRunner_life _ _ _ _)
  | deregisterRunner runnerId =>
    cases h
    exact deregisterRunner_step runnerId
  | registerRequester requesterId =>
    cases h
    exact .stay (b.life t)
  | deregisterRequester requesterId =>
    cases h
    exact .stay (b.life t)
  | runnerMessage runnerId message =>
    cases h
    exact onRunnerMessage_step runnerId message
  | requesterMessage requesterId message =>
    cases h
    exact onRequesterMessage_step requesterId message
  | acceptTimeout taskId =>
    cases h
    exact .stay (b.life t)
  | settingsTimeout taskId =>
    cases h
    exact .stay (b.life t)
  | taskTimeout taskId =>
    simp only [step] at h
    split at h
    · cases h
      exact handleTaskTimeout_step taskId
    · cases h
  | resumeAttempt taskId ok => exact resumeAttempt_step h
  | resumeHandler index ok => exact resumeHandler_step h

end Steps

end TaskBroker

end N8n.TaskRunners
