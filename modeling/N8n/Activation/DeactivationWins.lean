import N8n.Activation.QueuedActivations

/-!
# When a deactivation wins over activations and retries

`deactivation_wins` is the result: when no activation overlaps a deactivation, everything that the
workflow has open is listed when it is deactivated, and a retry that fails still has its entry in
the queue, a deactivated workflow stays inactive and retries raise no errors of their own. Without
the conditions an activation that was suspended when the workflow was deactivated registers it
again, as `retry_outlives_remove` shows.
-/

namespace N8n.Activation

open Transition

/-- The call has registered everything that it registers. -/
def AddTask.Registered (task : AddTask) : Prop :=
  task.point = .finishing ∨ task.point = .registeringError

instance (task : AddTask) : Decidable task.Registered := inferInstanceAs (Decidable (_ ∨ _))

namespace ManagerState

/-- A deactivation is under way. -/
def RemoveUnderWay (s : ManagerState) : Prop :=
  s.removes ≠ [] ∨ .removeTriggersAndPollers ∈ s.commands

instance (s : ManagerState) : Decidable s.RemoveUnderWay := inferInstanceAs (Decidable (_ ∨ _))

/-- What the workflow has open in memory is listed, so that a deactivation finds it. -/
def Listed (s : ManagerState) : Prop :=
  s.openTriggers ⊆ s.activeWorkflow.getD [] ∧ (s.crons = true → s.activeWorkflow ≠ none)

instance (s : ManagerState) : Decidable s.Listed := inferInstanceAs (Decidable (_ ∧ _))

/-- No activation will register anything: all calls of `add` have done so, none is published, and in
a multi-main setup, where a deactivation leaves the queue alone, no retry is set. -/
structure Settled (d : Deployment) (s : ManagerState) : Prop where
  adds : ∀ task ∈ s.adds, task.Registered
  commands : .addWebhooksTriggersAndPollers ∉ s.commands
  timers : d.multiMain = true → s.timers = []
  listed : s.Listed

instance (d : Deployment) (s : ManagerState) : Decidable (s.Settled d) :=
  decidable_of_iff ((∀ task ∈ s.adds, task.Registered) ∧
      .addWebhooksTriggersAndPollers ∉ s.commands ∧ (d.multiMain = true → s.timers = []) ∧ s.Listed)
    ⟨fun h => ⟨h.1, h.2.1, h.2.2.1, h.2.2.2⟩, fun h => ⟨h.adds, h.commands, h.timers, h.listed⟩⟩

/-- The queue has an entry, and its timer has fired. -/
def RetryFired (s : ManagerState) : Prop :=
  s.queuedActivation ≠ none ∧
    ∀ queued ∈ s.queuedActivation, ∀ timer ∈ s.timers, timer.id ≠ queued.timeout

instance (s : ManagerState) : Decidable s.RetryFired := inferInstanceAs (Decidable (_ ∧ _))

/-- A failed call may go on to what its caller does about the error: at startup the activation is
queued, in a retry the entry of the queue is read. -/
def MayRethrow (s : ManagerState) (task : AddTask) : Prop :=
  task.point = .registeringError →
    (task.origin = .startup → ¬ s.RemoveUnderWay ∧ s.removed = false) ∧
      (task.origin = .retry → s.RetryFired)

instance (s : ManagerState) (task : AddTask) : Decidable (s.MayRethrow task) :=
  inferInstanceAs (Decidable (_ → _))

end ManagerState

open ManagerState

/-- The condition on the events of a run. -/
def Ordered (d : Deployment) (s : ManagerState) : ManagerEvent → Prop
  | .request _ => ¬ s.RemoveUnderWay
  | .startup _ => ¬ s.RemoveUnderWay
  | .triggerError _ => ¬ s.RemoveUnderWay
  | .fire _ => ¬ s.RemoveUnderWay
  | .deliver =>
    s.commands.head? = some .addWebhooksTriggersAndPollers → ¬ s.RemoveUnderWay
  | .proceedAdd i => ∀ task ∈ s.adds[i]?, s.MayRethrow task
  | .remove => s.Settled d
  | .proceedRemove _ stuck => ∀ trigger ∈ stuck, trigger ∉ s.openTriggers
  | .failRemove i => s.removes[i]? = some .clearingWebhooks → s.webhooks = false
  | _ => True

instance (d : Deployment) (s : ManagerState) : ∀ e, Decidable (Ordered d s e)
  | .request _ => inferInstanceAs (Decidable (¬ s.RemoveUnderWay))
  | .startup _ => inferInstanceAs (Decidable (¬ s.RemoveUnderWay))
  | .triggerError _ => inferInstanceAs (Decidable (¬ s.RemoveUnderWay))
  | .fire _ => inferInstanceAs (Decidable (¬ s.RemoveUnderWay))
  | .deliver => inferInstanceAs (Decidable (_ → ¬ s.RemoveUnderWay))
  | .proceedAdd i => inferInstanceAs (Decidable (∀ task ∈ s.adds[i]?, s.MayRethrow task))
  | .remove => inferInstanceAs (Decidable (s.Settled d))
  | .proceedRemove _ stuck =>
    inferInstanceAs (Decidable (∀ trigger ∈ stuck, trigger ∉ s.openTriggers))
  | .failRemove _ => inferInstanceAs (Decidable (_ → s.webhooks = false))
  | .storeWebhook _ => .isTrue trivial
  | .startTrigger _ => .isTrue trivial
  | .registerCron _ => .isTrue trivial
  | .failAdd _ => .isTrue trivial
  | .giveUp _ => .isTrue trivial

/-- No timer is set, and in a single-main setup nothing is queued. -/
structure ManagerState.QueueCleared (d : Deployment) (s : ManagerState) : Prop where
  timers : s.timers = []
  queuedActivation : d.multiMain = false → s.queuedActivation = none

/-- What holds at the suspension of a deactivation. -/
def RemovePoint.Holds (d : Deployment) (s : ManagerState) : RemovePoint → Prop
  | .clearingWebhooks => True
  | .deregistering clearsQueue => s.webhooks = false ∧ clearsQueue = !d.multiMain
  | .removingTriggers triggers =>
    s.webhooks = false ∧ s.crons = false ∧ s.openTriggers ⊆ triggers ∧ s.QueueCleared d

/-- What holds after a deactivation has completed. -/
structure ManagerState.Quiet (d : Deployment) (s : ManagerState) : Prop where
  inactive : s.Inactive
  queue : s.QueueCleared d
  adds : ∀ task ∈ s.adds, task.Registered
  commands : .addWebhooksTriggersAndPollers ∉ s.commands

/-- The invariant of the runs. -/
structure ManagerInvariant (d : Deployment) (s : ManagerState) : Prop where
  timers : ∀ timer ∈ s.timers, ∃ queued, s.queuedActivation = some queued ∧
    queued.timeout = timer.id
  crashed : s.crashed = false
  multiMain : d.multiMain = true → ∀ task ∈ s.adds, task.origin ≠ .retry
  singleMain : d.multiMain = false → s.commands = []
  settled : s.RemoveUnderWay → s.Settled d
  published : .removeTriggersAndPollers ∈ s.commands → s.webhooks = false
  removes : ∀ point ∈ s.removes, point.Holds d s
  removed : s.removed = true → s.Quiet d

variable {d : Deployment} {s s' : ManagerState}

theorem ManagerInvariant.of_active
    (htimers : ∀ timer ∈ s.timers, ∃ queued, s.queuedActivation = some queued ∧
      queued.timeout = timer.id)
    (hcrashed : s.crashed = false)
    (hmulti : d.multiMain = true → ∀ task ∈ s.adds, task.origin ≠ .retry)
    (hsingle : d.multiMain = false → s.commands = [])
    (hidle : ¬ s.RemoveUnderWay) (hremoved : s.removed = false) : ManagerInvariant d s where
  timers := htimers
  crashed := hcrashed
  multiMain := hmulti
  singleMain := hsingle
  settled h := absurd h hidle
  published h := absurd (.inr h) hidle
  removes point h := absurd (.inl (List.ne_nil_of_mem h)) hidle
  removed h := by
    rw [hremoved] at h
    cases h

variable {i : Nat} {task : AddTask}

/-- While an activation has still to register something, no deactivation is under way or has had the
last word. -/
theorem ManagerInvariant.active_of_unregistered (hi : ManagerInvariant d s)
    (htask : s.adds[i]? = some task) (hopen : ¬ task.Registered) :
    ¬ s.RemoveUnderWay ∧ s.removed = false := by
  have hmem := List.mem_of_getElem? htask
  refine ⟨fun h => hopen ((hi.settled h).adds task hmem), ?_⟩
  rw [← Bool.not_eq_true]
  exact fun h => hopen ((hi.removed h).adds task hmem)

variable {adds : List AddTask}

theorem set_self (h : adds[i]? = some task) : adds.set i task = adds := by
  obtain ⟨hlt, rfl⟩ := List.getElem?_eq_some_iff.mp h
  exact List.set_getElem_self hlt

theorem ManagerInvariant.of_unregistered (hi : ManagerInvariant d s)
    (htask : s.adds[i]? = some task) (hopen : ¬ task.Registered) {point : AddPoint}
    (hadds : s'.adds = s.adds.set i { task with point })
    (htimers : ∀ timer ∈ s'.timers, ∃ queued, s'.queuedActivation = some queued ∧
      queued.timeout = timer.id) (hcrashed : s'.crashed = s.crashed)
    (hcommands : s'.commands = s.commands) (hremoves : s'.removes = s.removes)
    (hremoved : s'.removed = s.removed) : ManagerInvariant d s' := by
  obtain ⟨hidle, hnot⟩ := hi.active_of_unregistered htask hopen
  refine .of_active htimers (hcrashed.trans hi.crashed) ?_ ?_ ?_ (hremoved.trans hnot)
  · intro hmulti other hother
    rw [hadds] at hother
    rcases List.mem_or_eq_of_mem_set hother with hother | rfl
    · exact hi.multiMain hmulti other hother
    · exact hi.multiMain hmulti task (List.mem_of_getElem? htask)
  · rw [hcommands]
    exact hi.singleMain
  · rw [RemoveUnderWay, hcommands, hremoves]
    exact hidle

theorem ManagerInvariant.of_adds (hi : ManagerInvariant d s)
    (h : ∀ task ∈ adds, ∃ old ∈ s.adds, task.origin = old.origin ∧
      (old.Registered → task.Registered)) :
    ManagerInvariant d { s with adds } where
  timers := hi.timers
  crashed := hi.crashed
  multiMain hmulti task htask := by
    obtain ⟨old, hold, horigin, -⟩ := h task htask
    rw [horigin]
    exact hi.multiMain hmulti old hold
  singleMain := hi.singleMain
  settled hunder := by
    have hsettled := hi.settled hunder
    refine ⟨fun task htask => ?_, hsettled.commands, hsettled.timers, hsettled.listed⟩
    obtain ⟨old, hold, -, hregistered⟩ := h task htask
    exact hregistered (hsettled.adds old hold)
  published := hi.published
  removes point hpoint := by
    have hholds := hi.removes point hpoint
    cases point with
    | clearingWebhooks => trivial
    | deregistering clearsQueue => exact hholds
    | removingTriggers triggers =>
      exact ⟨hholds.1, hholds.2.1, hholds.2.2.1, hholds.2.2.2.timers,
        hholds.2.2.2.queuedActivation⟩
  removed hremoved := by
    have hquiet := hi.removed hremoved
    refine ⟨⟨hquiet.inactive.webhooks, hquiet.inactive.openTriggers, hquiet.inactive.crons,
      hquiet.inactive.activeWorkflow⟩, ⟨hquiet.queue.timers, hquiet.queue.queuedActivation⟩,
      fun task htask => ?_, hquiet.commands⟩
    obtain ⟨old, hold, -, hregistered⟩ := h task htask
    exact hregistered (hquiet.adds old hold)

theorem ManagerInvariant.finish (hi : ManagerInvariant d s) (i : Nat) :
    ManagerInvariant d (s.finish i) :=
  hi.of_adds fun task htask => ⟨task, List.mem_of_mem_eraseIdx htask, rfl, id⟩

theorem ManagerInvariant.goOn_registeringError (hi : ManagerInvariant d s)
    (htask : s.adds[i]? = some task) : ManagerInvariant d (s.goOn i task .registeringError) := by
  refine hi.of_adds fun other hother => ?_
  rcases List.mem_or_eq_of_mem_set hother with hother | rfl
  · exact ⟨other, hother, rfl, id⟩
  · exact ⟨task, List.mem_of_getElem? htask, rfl, fun _ => .inr rfl⟩

/-! ## The queue -/

theorem ManagerInvariant.queue_removed (hi : ManagerInvariant d s) :
    s.removeQueuedWorkflowActivation =
      { s with queuedActivation := none, timers := [] } := by
  unfold removeQueuedWorkflowActivation
  have htimers := hi.timers
  cases hqueued : s.queuedActivation with
  | none =>
    have hnone : s.timers = [] := by
      refine List.eq_nil_iff_forall_not_mem.mpr fun timer htimer => ?_
      obtain ⟨queued, hsome, -⟩ := htimers timer htimer
      rw [hqueued] at hsome
      cases hsome
    cases s
    cases hqueued
    cases hnone
    rfl
  | some queued =>
    have hnone : s.timers.filter (·.id ≠ queued.timeout) = [] := by
      refine List.filter_eq_nil_iff.mpr fun timer htimer => ?_
      obtain ⟨queued', hsome, hid⟩ := htimers timer htimer
      rw [hqueued] at hsome
      cases hsome
      simp [hid]
    show { s with
      timers := s.timers.filter (·.id ≠ queued.timeout), queuedActivation := none } = _
    rw [hnone]

/-! ## Activations -/

theorem ManagerInvariant.request (hi : ManagerInvariant d s) (hidle : ¬ s.RemoveUnderWay)
    {e : ManagerEvent} {mode : WorkflowActivateMode} (he : e = .request mode)
    (hstep : managerStep d s e = some s') : ManagerInvariant d s' := by
  subst he
  simp only [managerStep] at hstep
  cases hmulti : d.multiMain with
  | true =>
    rw [hmulti, if_pos rfl] at hstep
    cases hstep
    refine .of_active hi.timers hi.crashed hi.multiMain ?_ ?_ rfl
    · rw [hmulti]
      exact fun h => nomatch h
    · simpa [RemoveUnderWay] using hidle
  | false =>
    rw [hmulti, if_neg Bool.false_ne_true] at hstep
    cases hstep
    refine .of_active hi.timers hi.crashed ?_ hi.singleMain hidle rfl
    rw [hmulti]
    exact fun h => nomatch h

theorem origin_append (h : d.multiMain = true → ∀ task ∈ adds,
    task.origin ≠ .retry) (htask : d.multiMain = true → task.origin ≠ .retry) :
    d.multiMain = true → ∀ other ∈ adds ++ [task], other.origin ≠ .retry := by
  intro hmulti other hother
  rcases List.mem_append.mp hother with hother | hother
  · exact h hmulti other hother
  · rw [List.mem_singleton.mp hother]
    exact htask hmulti

theorem ManagerInvariant.startup (hi : ManagerInvariant d s) (hidle : ¬ s.RemoveUnderWay)
    (mode : WorkflowActivateMode) :
    ManagerInvariant d
      { s with adds := s.adds ++ [⟨.startup, mode, .gettingBase⟩], removed := false } :=
  .of_active hi.timers hi.crashed (origin_append hi.multiMain fun _ h => nomatch h) hi.singleMain
    hidle rfl

theorem ManagerInvariant.queue (hi : ManagerInvariant d s) (hidle : ¬ s.RemoveUnderWay)
    (hremoved : s.removed = false) (mode : WorkflowActivateMode) :
    ManagerInvariant d (s.addQueuedWorkflowActivation mode) := by
  rw [addQueuedWorkflowActivation, hi.queue_removed]
  refine .of_active (fun timer htimer => ?_) hi.crashed hi.multiMain hi.singleMain hidle hremoved
  rw [List.mem_singleton.mp htimer]
  exact ⟨_, rfl, rfl⟩

theorem ManagerInvariant.fire (hi : ManagerInvariant d s) (hidle : ¬ s.RemoveUnderWay)
    {timer : RetryTimer} (hstep : managerStep d s (.fire timer) = some s') :
    ManagerInvariant d s' := by
  simp only [managerStep] at hstep
  split at hstep
  · rename_i hset
    have hremoved : s.removed = false := by
      rw [← Bool.not_eq_true]
      intro h
      rw [(hi.removed h).queue.timers] at hset
      cases hset
    have htimers : ∀ other ∈ s.timers.erase timer, ∃ queued, s.queuedActivation = some queued ∧
        queued.timeout = other.id := fun other hother =>
      hi.timers other (List.mem_of_mem_erase hother)
    cases hmulti : d.multiMain with
    | true =>
      rw [hmulti, if_pos rfl] at hstep
      cases hstep
      refine .of_active htimers hi.crashed hi.multiMain ?_ ?_ hremoved
      · rw [hmulti]
        exact fun h => nomatch h
      · simpa [RemoveUnderWay] using hidle
    | false =>
      rw [hmulti, if_neg Bool.false_ne_true] at hstep
      cases hstep
      refine .of_active htimers hi.crashed ?_ hi.singleMain hidle hremoved
      rw [hmulti]
      exact fun h => nomatch h
  · cases hstep

theorem ManagerInvariant.addTriggersAndPollers (hi : ManagerInvariant d s)
    (htask : s.adds[i]? = some task) (hopen : ¬ task.Registered) :
    ManagerInvariant d (s.addTriggersAndPollers d i task) := by
  unfold ManagerState.addTriggersAndPollers
  split
  · exact hi.of_unregistered htask hopen rfl hi.timers rfl rfl rfl rfl
  · have hgone : ManagerInvariant d (s.goOn i task .finishing) :=
      hi.of_unregistered htask hopen rfl hi.timers rfl rfl rfl rfl
    rw [hgone.queue_removed]
    exact hi.of_unregistered htask hopen rfl (fun _ htimer => nomatch htimer) rfl rfl rfl rfl

theorem ManagerInvariant.catchRetry (hi : ManagerInvariant d s) (hsingle : d.multiMain = false)
    (hfired : s.RetryFired) (mode : WorkflowActivateMode) :
    ManagerInvariant d (s.catchRetry mode) := by
  obtain ⟨hsome, hunset⟩ := hfired
  obtain ⟨queued, hqueued⟩ := Option.ne_none_iff_exists'.mp hsome
  have hnone : s.timers = [] := by
    refine List.eq_nil_iff_forall_not_mem.mpr fun timer htimer => ?_
    obtain ⟨queued', hqueued', hid⟩ := hi.timers timer htimer
    rw [hqueued] at hqueued'
    cases hqueued'
    exact hunset queued hqueued timer htimer hid.symm
  have hmulti : d.multiMain ≠ true := by
    rw [hsingle]
    exact Bool.false_ne_true
  simp only [ManagerState.catchRetry, hqueued, setRetry, hnone, List.nil_append]
  refine ⟨fun timer htimer => ?_, hi.crashed, hi.multiMain, hi.singleMain, fun hunder => ?_,
    hi.published, fun point hpoint => ?_, fun hremoved => ?_⟩
  · rw [List.mem_singleton.mp htimer]
    exact ⟨_, rfl, rfl⟩
  · have hsettled := hi.settled hunder
    exact ⟨hsettled.adds, hsettled.commands, fun h => absurd h hmulti, hsettled.listed⟩
  · have hholds := hi.removes point hpoint
    cases point with
    | clearingWebhooks => trivial
    | deregistering clearsQueue => exact hholds
    | removingTriggers triggers =>
      exact absurd (hholds.2.2.2.queuedActivation hsingle) hsome
  · exact absurd ((hi.removed hremoved).queue.queuedActivation hsingle) hsome

theorem ManagerInvariant.proceedAdd (hi : ManagerInvariant d s) (htask : s.adds[i]? = some task)
    (hallowed : s.MayRethrow task) : ManagerInvariant d (s.proceedAdd d i task) := by
  obtain ⟨origin, mode, point⟩ := task
  have hgo : ∀ next, ¬ AddTask.Registered ⟨origin, mode, point⟩ →
      ManagerInvariant d (s.goOn i ⟨origin, mode, point⟩ next) := fun next hopen =>
    hi.of_unregistered htask hopen rfl hi.timers rfl rfl rfl rfl
  cases point with
  | loadingWorkflow => exact hgo _ (by simp [AddTask.Registered])
  | gettingBase =>
    unfold ManagerState.proceedAdd
    dsimp only
    split
    · exact hgo _ (by simp [AddTask.Registered])
    · exact hi.addTriggersAndPollers htask (by simp [AddTask.Registered])
  | addingWebhooks => exact hi.addTriggersAndPollers htask (by simp [AddTask.Registered])
  | clearingWebhooks =>
    exact hi.of_unregistered htask (by simp [AddTask.Registered]) rfl hi.timers rfl rfl rfl rfl
  | startingTriggers started =>
    exact hi.of_unregistered htask (by simp [AddTask.Registered]) rfl hi.timers rfl rfl rfl rfl
  | startingPolls started =>
    show ManagerInvariant d (s.goOn i _ .finishing).removeQueuedWorkflowActivation
    rw [(hgo .finishing (by simp [AddTask.Registered])).queue_removed]
    exact hi.of_unregistered htask (by simp [AddTask.Registered]) rfl
      (fun _ htimer => nomatch htimer) rfl rfl rfl rfl
  | finishing => exact hi.finish i
  | registeringError =>
    have hrethrow := hallowed rfl
    cases origin with
    | request => exact hi.finish i
    | command => exact hi.finish i
    | startup =>
      obtain ⟨hidle, hremoved⟩ := hrethrow.1 rfl
      exact (hi.finish i).queue hidle hremoved .init
    | retry =>
      have hsingle : d.multiMain = false := by
        rw [← Bool.not_eq_true]
        exact fun h => hi.multiMain h _ (List.mem_of_getElem? htask) rfl
      exact (hi.finish i).catchRetry hsingle (hrethrow.2 rfl) mode

theorem ManagerInvariant.failAdd (hi : ManagerInvariant d s) (htask : s.adds[i]? = some task) :
    ManagerInvariant d (s.failAdd i task) := by
  obtain ⟨origin, mode, point⟩ := task
  cases point with
  | addingWebhooks =>
    exact hi.of_unregistered htask (by simp [AddTask.Registered]) rfl hi.timers rfl rfl rfl rfl
  | startingPolls started =>
    exact hi.of_unregistered htask (by simp [AddTask.Registered]) rfl hi.timers rfl rfl rfl rfl
  | loadingWorkflow => exact hi.goOn_registeringError htask
  | gettingBase => exact hi.goOn_registeringError htask
  | clearingWebhooks => exact hi.goOn_registeringError htask
  | startingTriggers started => exact hi.goOn_registeringError htask
  | finishing => exact hi.goOn_registeringError htask
  | registeringError => exact hi.goOn_registeringError htask

/-! ## Deactivations -/

variable {point : RemovePoint}

theorem RemovePoint.Holds.congr (h : point.Holds d s)
    (hwebhooks : s.webhooks = false → s'.webhooks = false)
    (hcrons : s.crons = false → s'.crons = false) (hopen : s'.openTriggers ⊆ s.openTriggers)
    (hqueue : s.QueueCleared d → s'.QueueCleared d) : point.Holds d s' := by
  cases point with
  | clearingWebhooks => trivial
  | deregistering clearsQueue => exact ⟨hwebhooks h.1, h.2⟩
  | removingTriggers triggers =>
    exact ⟨hwebhooks h.1, hcrons h.2.1, fun _ ht => h.2.2.1 (hopen ht), hqueue h.2.2.2⟩

theorem ManagerInvariant.deliver (hi : ManagerInvariant d s)
    (hallowed : s.commands.head? = some .addWebhooksTriggersAndPollers → ¬ s.RemoveUnderWay)
    (hstep : managerStep d s .deliver = some s') : ManagerInvariant d s' := by
  simp only [managerStep] at hstep
  split at hstep
  · cases hstep
  · rename_i commands hcommands
    cases hstep
    have hidle := hallowed (by rw [hcommands]; rfl)
    have hremoved : s.removed = false := by
      rw [← Bool.not_eq_true]
      intro h
      refine (hi.removed h).commands ?_
      rw [hcommands]
      exact List.mem_cons_self
    refine .of_active hi.timers hi.crashed (origin_append hi.multiMain fun _ h => nomatch h) ?_ ?_
      hremoved
    · intro hsingle
      have := hi.singleMain hsingle
      rw [hcommands] at this
      cases this
    · rintro (h | h)
      · exact hidle (.inl h)
      · exact hidle (.inr (by rw [hcommands]; exact List.mem_cons_of_mem _ h))
  · rename_i commands hcommands
    cases hstep
    have hpublished : .removeTriggersAndPollers ∈ s.commands := by
      rw [hcommands]
      exact List.mem_cons_self
    have hmulti : d.multiMain = true := by
      rw [← Bool.not_eq_false]
      intro hsingle
      have := hi.singleMain hsingle
      rw [hcommands] at this
      cases this
    have hsettled := hi.settled (.inr hpublished)
    have hno : ActivationCommand.addWebhooksTriggersAndPollers ∉ commands := fun h =>
      hsettled.commands (by rw [hcommands]; exact List.mem_cons_of_mem _ h)
    refine ⟨hi.timers, hi.crashed, hi.multiMain, fun hsingle => ?_,
      fun _ => ⟨hsettled.adds, hno, hsettled.timers, hsettled.listed⟩,
      fun _ => hi.published hpublished, fun point hpoint => ?_, fun hremoved => ?_⟩
    · rw [hmulti] at hsingle
      cases hsingle
    · rcases List.mem_append.mp hpoint with hpoint | hpoint
      · exact (hi.removes point hpoint).congr id id (fun _ => id) fun h =>
          ⟨h.timers, h.queuedActivation⟩
      · rw [List.mem_singleton.mp hpoint]
        refine ⟨hi.published hpublished, ?_⟩
        rw [hmulti]
        rfl
    · have hquiet := hi.removed hremoved
      exact ⟨⟨hquiet.inactive.webhooks, hquiet.inactive.openTriggers, hquiet.inactive.crons,
        hquiet.inactive.activeWorkflow⟩, ⟨hquiet.queue.timers, hquiet.queue.queuedActivation⟩,
        hquiet.adds, hno⟩

theorem ManagerInvariant.of_removes (hi : ManagerInvariant d s) {removes : List RemovePoint}
    (hsettled : removes ≠ [] → s.Settled d) (hholds : ∀ point ∈ removes, point.Holds d s) :
    ManagerInvariant d { s with removes } := by
  refine ⟨hi.timers, hi.crashed, hi.multiMain, hi.singleMain, fun hunder => ?_, hi.published,
    fun point hpoint => ?_, fun hremoved => ?_⟩
  · have hsettled : s.Settled d := by
      rcases hunder with hunder | hunder
      · exact hsettled hunder
      · exact hi.settled (.inr hunder)
    exact ⟨hsettled.adds, hsettled.commands, hsettled.timers, hsettled.listed⟩
  · exact (hholds point hpoint).congr id id (fun _ => id) fun h =>
      ⟨h.timers, h.queuedActivation⟩
  · have hquiet := hi.removed hremoved
    exact ⟨⟨hquiet.inactive.webhooks, hquiet.inactive.openTriggers, hquiet.inactive.crons,
      hquiet.inactive.activeWorkflow⟩, ⟨hquiet.queue.timers, hquiet.queue.queuedActivation⟩,
      hquiet.adds, hquiet.commands⟩

theorem ManagerInvariant.remove (hi : ManagerInvariant d s) (hsettled : s.Settled d) :
    ManagerInvariant d { s with removes := s.removes ++ [.clearingWebhooks] } := by
  refine hi.of_removes (fun _ => hsettled) fun point hpoint => ?_
  rcases List.mem_append.mp hpoint with hpoint | hpoint
  · exact hi.removes point hpoint
  · rw [List.mem_singleton.mp hpoint]
    trivial

theorem ManagerInvariant.eraseRemove (hi : ManagerInvariant d s) (i : Nat) :
    ManagerInvariant d { s with removes := s.removes.eraseIdx i } := by
  refine hi.of_removes (fun hsome => hi.settled (.inl ?_)) fun point hpoint =>
    hi.removes point (List.mem_of_mem_eraseIdx hpoint)
  rintro hnone
  rw [hnone] at hsome
  exact hsome rfl

theorem ManagerInvariant.setRemove (hi : ManagerInvariant d s) {point' : RemovePoint}
    (hpoint : s.removes[i]? = some point) (hholds : point'.Holds d s) :
    ManagerInvariant d { s with removes := s.removes.set i point' } := by
  have hunder : s.RemoveUnderWay := .inl (List.ne_nil_of_mem (List.mem_of_getElem? hpoint))
  refine hi.of_removes (fun _ => hi.settled hunder) fun other hother => ?_
  rcases List.mem_or_eq_of_mem_set hother with hother | rfl
  · exact hi.removes other hother
  · exact hholds

theorem ManagerInvariant.shrink (hi : ManagerInvariant d s) {webhooks crons : Bool}
    {queuedActivation : Option QueuedActivation} {timers : List RetryTimer}
    (hwebhooks : s.webhooks = false → webhooks = false) (hcrons : s.crons = false → crons = false)
    (hqueue : queuedActivation = s.queuedActivation ∧ timers = s.timers ∨
      queuedActivation = none ∧ timers = []) :
    ManagerInvariant d { s with webhooks, crons, queuedActivation, timers } := by
  have htimers : s.timers = [] → timers = [] := by
    rcases hqueue with ⟨-, rfl⟩ | ⟨-, rfl⟩
    · exact id
    · exact fun _ => rfl
  have hcleared : s.QueueCleared d →
      QueueCleared d { s with webhooks, crons, queuedActivation, timers } := by
    intro h
    refine ⟨htimers h.timers, fun hsingle => ?_⟩
    rcases hqueue with ⟨rfl, -⟩ | ⟨rfl, -⟩
    · exact h.queuedActivation hsingle
    · rfl
  refine ⟨?_, hi.crashed, hi.multiMain, hi.singleMain, fun hunder => ?_,
    fun h => hwebhooks (hi.published h), fun point hpoint => ?_, fun hremoved => ?_⟩
  · rcases hqueue with ⟨rfl, rfl⟩ | ⟨rfl, rfl⟩
    · exact hi.timers
    · exact fun _ htimer => nomatch htimer
  · have hsettled := hi.settled hunder
    refine ⟨hsettled.adds, hsettled.commands, fun h => htimers (hsettled.timers h),
      hsettled.listed.1, fun h => hsettled.listed.2 ?_⟩
    by_contra hnot
    rw [hcrons (Bool.eq_false_iff.mpr hnot)] at h
    cases h
  · exact (hi.removes point hpoint).congr hwebhooks hcrons (fun _ => id) hcleared
  · have hquiet := hi.removed hremoved
    exact ⟨⟨hwebhooks hquiet.inactive.webhooks, hquiet.inactive.openTriggers,
      hcrons hquiet.inactive.crons, hquiet.inactive.activeWorkflow⟩, hcleared hquiet.queue,
      hquiet.adds, hquiet.commands⟩

theorem ManagerInvariant.webhooksCleared (hi : ManagerInvariant d s)
    (hpoint : s.removes[i]? = some .clearingWebhooks) (hwebhooks : s.webhooks = false) :
    ManagerInvariant d (s.webhooksCleared d i) := by
  unfold ManagerState.webhooksCleared
  cases hmulti : d.multiMain with
  | true =>
    rw [if_pos rfl]
    have herased := hi.eraseRemove i
    have hunder : s.RemoveUnderWay := .inl (List.ne_nil_of_mem (List.mem_of_getElem? hpoint))
    have hsettled := hi.settled hunder
    have hno : ActivationCommand.addWebhooksTriggersAndPollers ∉
        s.commands ++ [.removeTriggersAndPollers] := by
      simpa using hsettled.commands
    refine ⟨hi.timers, hi.crashed, hi.multiMain, fun hsingle => ?_,
      fun _ => ⟨hsettled.adds, hno, hsettled.timers, hsettled.listed⟩, fun _ => hwebhooks,
      fun point hmem => ?_, fun hremoved => ?_⟩
    · rw [hmulti] at hsingle
      cases hsingle
    · exact (herased.removes point hmem).congr id id (fun _ => id) fun h =>
        ⟨h.timers, h.queuedActivation⟩
    · have hquiet := hi.removed hremoved
      exact ⟨⟨hquiet.inactive.webhooks, hquiet.inactive.openTriggers, hquiet.inactive.crons,
        hquiet.inactive.activeWorkflow⟩, ⟨hquiet.queue.timers, hquiet.queue.queuedActivation⟩,
        hquiet.adds, hno⟩
  | false =>
    rw [if_neg Bool.false_ne_true]
    refine hi.setRemove hpoint ⟨hwebhooks, ?_⟩
    rw [hmulti]
    rfl

theorem ManagerInvariant.completeRemove (hi : ManagerInvariant d s)
    (hpoint : s.removes[i]? = some point) (hinactive : s.Inactive) (hqueue : s.QueueCleared d) :
    ManagerInvariant d (s.completeRemove i) := by
  have hunder : s.RemoveUnderWay := .inl (List.ne_nil_of_mem (List.mem_of_getElem? hpoint))
  have hsettled := hi.settled hunder
  have herased := hi.eraseRemove i
  refine ⟨hi.timers, hi.crashed, hi.multiMain, hi.singleMain,
    fun _ => ⟨hsettled.adds, hsettled.commands, hsettled.timers, hsettled.listed⟩, hi.published,
    fun point hmem => ?_, fun _ => ?_⟩
  · exact (herased.removes point hmem).congr id id (fun _ => id) fun h =>
      ⟨h.timers, h.queuedActivation⟩
  · exact ⟨⟨hinactive.webhooks, hinactive.openTriggers, hinactive.crons,
      hinactive.activeWorkflow⟩, ⟨hqueue.timers, hqueue.queuedActivation⟩, hsettled.adds,
      hsettled.commands⟩

theorem ManagerInvariant.removeWorkflowTriggersAndPollers (hi : ManagerInvariant d s)
    (hpoint : s.removes[i]? = some point) (hwebhooks : s.webhooks = false)
    (hqueue : s.QueueCleared d) : ManagerInvariant d (s.removeWorkflowTriggersAndPollers i) := by
  have hunder : s.RemoveUnderWay := .inl (List.ne_nil_of_mem (List.mem_of_getElem? hpoint))
  have hlisted := (hi.settled hunder).listed
  unfold ManagerState.removeWorkflowTriggersAndPollers
  split
  · rename_i hactive
    refine hi.completeRemove hpoint ⟨hwebhooks, ?_, ?_, hactive⟩ hqueue
    · have := hlisted.1
      rw [hactive] at this
      exact List.subset_nil.mp this
    · rw [← Bool.not_eq_true]
      exact fun hcrons => hlisted.2 hcrons hactive
  · rename_i triggers hactive
    have hopen : s.openTriggers ⊆ triggers := by
      have := hlisted.1
      rw [hactive] at this
      exact this
    have hstopped : ManagerInvariant d { s with crons := false } :=
      hi.shrink id (fun _ => rfl) (.inl ⟨rfl, rfl⟩)
    have hholds : RemovePoint.Holds d { s with crons := false } (.removingTriggers triggers) :=
      ⟨hwebhooks, rfl, hopen, hqueue.timers, hqueue.queuedActivation⟩
    exact hstopped.setRemove hpoint hholds

theorem ManagerInvariant.triggersClosed (hi : ManagerInvariant d s) {triggers stuck : List Nat}
    (hpoint : s.removes[i]? = some (.removingTriggers triggers))
    (hstuck : ∀ trigger ∈ stuck, trigger ∉ s.openTriggers) :
    ManagerInvariant d (s.proceedRemove d i stuck (.removingTriggers triggers)) := by
  obtain ⟨hwebhooks, hcrons, hopen, hqueue⟩ :=
    hi.removes _ (List.mem_of_getElem? hpoint)
  have hclosed : s.openTriggers.filter
      (fun t => !triggers.contains t || stuck.contains t) = [] := by
    refine List.filter_eq_nil_iff.mpr fun trigger htrigger => ?_
    have hnot : trigger ∉ stuck := fun h => hstuck trigger h htrigger
    simp [hopen htrigger, hnot]
  show ManagerInvariant d (ManagerState.completeRemove { s with
    openTriggers := s.openTriggers.filter fun t => !triggers.contains t || stuck.contains t
    activeWorkflow := none } i)
  rw [hclosed]
  refine ManagerInvariant.completeRemove
    (s := { s with openTriggers := [], activeWorkflow := none }) ?_ hpoint
    ⟨hwebhooks, rfl, hcrons, rfl⟩ ⟨hqueue.timers, hqueue.queuedActivation⟩
  refine ⟨hi.timers, hi.crashed, hi.multiMain, hi.singleMain, fun hunder => ?_, hi.published,
    fun point hmem => ?_, fun hremoved => ?_⟩
  · have hsettled := hi.settled hunder
    refine ⟨hsettled.adds, hsettled.commands, hsettled.timers, List.nil_subset _, fun h => ?_⟩
    rw [hcrons] at h
    cases h
  · exact (hi.removes point hmem).congr id id (List.nil_subset _) fun h =>
      ⟨h.timers, h.queuedActivation⟩
  · have hquiet := hi.removed hremoved
    exact ⟨⟨hwebhooks, rfl, hcrons, rfl⟩, ⟨hquiet.queue.timers, hquiet.queue.queuedActivation⟩,
      hquiet.adds, hquiet.commands⟩

theorem ManagerInvariant.proceedRemove (hi : ManagerInvariant d s) {stuck : List Nat}
    (hpoint : s.removes[i]? = some point) (hstuck : ∀ trigger ∈ stuck, trigger ∉ s.openTriggers) :
    ManagerInvariant d (s.proceedRemove d i stuck point) := by
  have hunder : s.RemoveUnderWay := .inl (List.ne_nil_of_mem (List.mem_of_getElem? hpoint))
  cases point with
  | clearingWebhooks =>
    have hcleared : ManagerInvariant d { s with webhooks := false } :=
      hi.shrink (fun _ => rfl) id (.inl ⟨rfl, rfl⟩)
    exact hcleared.webhooksCleared hpoint rfl
  | deregistering clearsQueue =>
    obtain ⟨hwebhooks, hclears⟩ := hi.removes _ (List.mem_of_getElem? hpoint)
    cases clearsQueue with
    | true =>
      show ManagerInvariant d
        (s.removeQueuedWorkflowActivation.removeWorkflowTriggersAndPollers i)
      rw [hi.queue_removed]
      have hcleared : ManagerInvariant d { s with queuedActivation := none, timers := [] } :=
        hi.shrink id id (.inr ⟨rfl, rfl⟩)
      exact hcleared.removeWorkflowTriggersAndPollers hpoint hwebhooks ⟨rfl, fun _ => rfl⟩
    | false =>
      have hmulti : d.multiMain = true := by simpa using hclears.symm
      refine hi.removeWorkflowTriggersAndPollers hpoint hwebhooks
        ⟨(hi.settled hunder).timers hmulti, fun hsingle => ?_⟩
      rw [hmulti] at hsingle
      cases hsingle
  | removingTriggers triggers => exact hi.triggersClosed hpoint hstuck

theorem ManagerInvariant.failRemove (hi : ManagerInvariant d s)
    (hpoint : s.removes[i]? = some point)
    (hallowed : point = .clearingWebhooks → s.webhooks = false) :
    ManagerInvariant d (s.failRemove d i point) := by
  cases point with
  | clearingWebhooks => exact hi.webhooksCleared hpoint (hallowed rfl)
  | deregistering clearsQueue => exact hi.eraseRemove i
  | removingTriggers triggers => exact hi.eraseRemove i

/-! ## The result -/

theorem managerInvariant_initial (d : Deployment) : ManagerInvariant d {} :=
  .of_active (fun _ htimer => nomatch htimer) rfl (fun _ _ htask => nomatch htask) (fun _ => rfl)
    (by decide) rfl

theorem ManagerInvariant.step (hi : ManagerInvariant d s) {e : ManagerEvent}
    (hallowed : Ordered d s e) (hstep : managerStep d s e = some s') : ManagerInvariant d s' := by
  cases e with
  | request mode => exact hi.request hallowed rfl hstep
  | startup mode =>
    cases hstep
    exact hi.startup hallowed mode
  | triggerError mode =>
    cases hstep
    refine ManagerInvariant.queue (s := { s with removed := false }) ?_ hallowed rfl mode
    exact .of_active hi.timers hi.crashed hi.multiMain hi.singleMain hallowed rfl
  | fire timer => exact hi.fire hallowed hstep
  | deliver => exact hi.deliver hallowed hstep
  | storeWebhook i =>
    simp only [managerStep] at hstep
    split at hstep
    · rename_i origin mode htask
      cases hstep
      exact hi.of_unregistered htask (by simp [AddTask.Registered]) (set_self htask).symm
        hi.timers rfl rfl rfl rfl
    · cases hstep
  | startTrigger i =>
    simp only [managerStep] at hstep
    split at hstep
    · rename_i origin mode started htask
      cases hstep
      exact hi.of_unregistered htask (by simp [AddTask.Registered]) rfl hi.timers rfl rfl rfl rfl
    · cases hstep
  | registerCron i =>
    simp only [managerStep] at hstep
    split at hstep
    · rename_i origin mode started htask
      cases hstep
      exact hi.of_unregistered htask (by simp [AddTask.Registered]) (set_self htask).symm
        hi.timers rfl rfl rfl rfl
    · rename_i origin mode started htask
      cases hstep
      exact hi.of_unregistered htask (by simp [AddTask.Registered]) (set_self htask).symm
        hi.timers rfl rfl rfl rfl
    · cases hstep
  | proceedAdd i =>
    obtain ⟨task, htask, rfl⟩ := Option.map_eq_some_iff.mp hstep
    exact hi.proceedAdd htask (hallowed task htask)
  | failAdd i =>
    obtain ⟨task, htask, rfl⟩ := Option.map_eq_some_iff.mp hstep
    exact hi.failAdd htask
  | giveUp i =>
    simp only [managerStep] at hstep
    split at hstep
    · cases hstep
      exact hi.finish i
    · cases hstep
  | remove =>
    cases hstep
    exact hi.remove hallowed
  | proceedRemove i stuck =>
    obtain ⟨point, hpoint, rfl⟩ := Option.map_eq_some_iff.mp hstep
    exact hi.proceedRemove hpoint hallowed
  | failRemove i =>
    obtain ⟨point, hpoint, rfl⟩ := Option.map_eq_some_iff.mp hstep
    refine hi.failRemove hpoint fun h => hallowed ?_
    rw [hpoint, h]

/-- In every run whose events meet the condition, a deactivated workflow stays inactive until its
activation is requested again, and no retry raises an error of its own. -/
theorem deactivation_wins (d : Deployment) (s : ManagerState)
    (h : Reachable (managerStep d) (Ordered d) {} s) : s.DeactivationWins := by
  have hi : ManagerInvariant d s := h.keeps (ManagerInvariant d) (managerInvariant_initial d)
    fun _ _ _ hi hallowed hstep => hi.step hallowed hstep
  exact ⟨fun hremoved => (hi.removed hremoved).inactive, hi.crashed⟩

/-- A single main process, and a workflow with a trigger. -/
def singleMain : Deployment := ⟨false, true⟩

/-- A retry fires, and while it is suspended in `add` the workflow is deactivated. -/
def retryDuringRemove : Option ManagerState :=
  run (managerStep singleMain) {}
    [.startup .init, .failAdd 0, .proceedAdd 0, .fire ⟨0, .init⟩, .remove, .proceedRemove 0 [],
      .proceedRemove 0 [], .proceedAdd 0, .storeWebhook 0]

/-- Without the condition a suspended retry registers a deactivated workflow again. -/
theorem retry_outlives_remove :
    ∃ s, Reachable (managerStep singleMain) (fun _ _ => True) {} s ∧ ¬ s.DeactivationWins := by
  obtain ⟨s, hs, h⟩ : ∃ s, retryDuringRemove = some s ∧ (s.removed, s.webhooks) = (true, true) := by
    refine Option.map_eq_some_iff.mp ?_
    decide +kernel
  obtain ⟨hremoved, hwebhooks⟩ := Prod.mk.inj h
  refine ⟨s, reachable_of_run hs, fun hwins => ?_⟩
  rw [(hwins.1 hremoved).webhooks] at hwebhooks
  cases hwebhooks

/-- An activation with a trigger, after it a deactivation. -/
def activatedAndRemoved : Option ManagerState :=
  runAllowed (managerStep singleMain) (Ordered singleMain) {}
    [.request .activate, .proceedAdd 0, .proceedAdd 0, .storeWebhook 0, .proceedAdd 0,
      .startTrigger 0, .proceedAdd 0, .proceedAdd 0, .proceedAdd 0, .remove, .proceedRemove 0 [],
      .proceedRemove 0 [], .proceedRemove 0 []]

/-- A run that ends with the workflow deactivated. -/
theorem activatedAndRemoved_inactive : ∃ s, activatedAndRemoved = some s ∧ s.removed = true ∧
    s.DeactivationWins := by
  obtain ⟨s, hs, hremoved⟩ : ∃ s, activatedAndRemoved = some s ∧ s.removed = true := by
    refine Option.map_eq_some_iff.mp ?_
    decide +kernel
  exact ⟨s, hs, hremoved, deactivation_wins singleMain s (reachable_of_runAllowed .start hs)⟩

end N8n.Activation
