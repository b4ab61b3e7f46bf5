import N8n.Activation.FailedActivation

/-!
# When a failed activation is atomic

`add_atomic_iff` is the result: in every state that activations and deactivations reach, a failed
`add` leaves something behind exactly when a trigger node fails after another one opened a trigger,
or when jobs were registered and the workflow ends up off the list of active workflows.
-/

namespace N8n.Activation

open Collections Transition

namespace TaskState

variable {workflowId : WorkflowId} {s s' : TaskState} {opened : List Nat}
  {jobs : List CronEntry} {cronError : List Char → Option (List Char)}

theorem Grown.fresh (h : Grown workflowId s s' opened jobs) (hs : s.Fresh)
    (hlisted : ∀ id responses, s'.activeWorkflows.get? id = some responses →
      ∀ t ∈ responses.filterMap (·.closeFunction), t < s'.nextId) : s'.Fresh where
  triggers t ht := by
    rw [h.triggers] at ht
    cases List.mem_append.mp ht with
    | inl ht => exact Nat.lt_of_lt_of_le (hs.triggers t ht) h.le
    | inr ht => exact (h.newTriggers t ht).2
  jobs id entry hentry := by
    rw [h.crons] at hentry
    cases List.mem_append.mp hentry with
    | inl hentry => exact Nat.lt_of_lt_of_le (hs.jobs id entry hentry) h.le
    | inr hentry =>
      split at hentry
      · exact (h.newJobs entry hentry).2
      · cases hentry
  responses := hlisted

theorem Fresh.add (hs : s.Fresh) (workflow : ActivationWorkflow) (manual : Bool) :
    (s.add cronError workflow manual).2.Fresh := by
  obtain ⟨hactive, opened, jobs, hgrown, hcase⟩ := start_triggers_grown cronError
    workflow.id manual workflow.getTriggerNodes [] s
  unfold TaskState.add
  generalize s.startTriggers cronError workflow.id manual workflow.getTriggerNodes [] = r
    at hactive hgrown hcase
  obtain ⟨result, next⟩ := r
  dsimp only at hactive hgrown hcase
  have hnext : next.Fresh := hgrown.fresh hs fun id responses hget t ht =>
    Nat.lt_of_lt_of_le (hs.responses id responses (hactive ▸ hget) t ht) hgrown.le
  cases hcase with
  | inl hfail =>
    obtain ⟨error, before, failing, rfl, -⟩ := hfail
    exact hnext
  | inr hok =>
    obtain ⟨more, rfl, -, hopened, -⟩ := hok
    dsimp only
    have hlisted : Fresh { next with
        activeWorkflows := next.activeWorkflows.set workflow.id ([] ++ more) } := by
      refine ⟨hnext.triggers, hnext.jobs, fun id responses hget t ht => ?_⟩
      dsimp only at hget
      rw [InsertionMap.get_set] at hget
      split at hget
      · cases hget
        rw [List.nil_append, ← hopened] at ht
        exact (hgrown.newTriggers t ht).2
      · exact hnext.responses id responses hget t ht
    obtain ⟨jobs', hgrown', hcase'⟩ := start_polling_grown cronError workflow.id
      ([] ++ more) workflow.getPollNodes
      { next with activeWorkflows := next.activeWorkflows.set workflow.id ([] ++ more) }
    refine hgrown'.fresh hlisted fun id responses hget t ht => ?_
    refine Nat.lt_of_lt_of_le (hlisted.responses id responses ?_ t ht) hgrown'.le
    cases hcase' with
    | inl hfail =>
      obtain ⟨error, before, failing, -, -, -, hactive'⟩ := hfail
      rw [hactive'] at hget
      split at hget
      · rw [InsertionMap.get_delete] at hget
        split at hget
        · cases hget
        · exact hget
      · exact hget
    | inr hdone => rwa [hdone.2.2] at hget

theorem close_triggers_shrinks (closing : Nat → CloseOutcome) (workflowId : WorkflowId)
    (responses : List TriggerResponse) (s : TaskState) :
    (s.closeTriggers closing workflowId responses).2.openTriggers ⊆ s.openTriggers ∧
      (s.closeTriggers closing workflowId responses).2 =
        { s with
          openTriggers := (s.closeTriggers closing workflowId responses).2.openTriggers } := by
  induction responses generalizing s with
  | nil => exact ⟨fun t ht => ht, rfl⟩
  | cons response rest ih =>
    have hone : (s.closeTrigger closing workflowId response).2.openTriggers ⊆ s.openTriggers ∧
        (s.closeTrigger closing workflowId response).2 =
          { s with
            openTriggers := (s.closeTrigger closing workflowId response).2.openTriggers } := by
      unfold closeTrigger
      cases response.closeFunction with
      | none => exact ⟨fun t ht => ht, rfl⟩
      | some trigger =>
        dsimp only
        cases closing trigger with
        | closed => exact ⟨List.filter_subset_self _, rfl⟩
        | triggerCloseError => exact ⟨fun t ht => ht, rfl⟩
        | otherError message => exact ⟨fun t ht => ht, rfl⟩
    unfold closeTriggers at ih ⊢
    rw [forEach]
    generalize s.closeTrigger closing workflowId response = r at hone
    obtain ⟨result, next⟩ := r
    obtain ⟨hsub, hnext⟩ := hone
    dsimp only at hsub hnext
    cases result with
    | error error => exact ⟨hsub, hnext⟩
    | ok done =>
      obtain ⟨hsub', hlast⟩ := ih next
      refine ⟨fun t ht => hsub (hsub' ht), hlast.trans ?_⟩
      rw [hnext]

theorem Fresh.shrink (hs : s.Fresh) (hid : s'.nextId = s.nextId)
    (htriggers : s'.openTriggers ⊆ s.openTriggers) (hcrons : ∀ id, s'.crons id ⊆ s.crons id)
    (hactive : ∀ id responses, s'.activeWorkflows.get? id = some responses →
      s.activeWorkflows.get? id = some responses) : s'.Fresh where
  triggers t ht := hid ▸ hs.triggers t (htriggers ht)
  jobs id entry hentry := hid ▸ hs.jobs id entry (hcrons id hentry)
  responses id responses hget t ht :=
    hid ▸ hs.responses id responses (hactive id responses hget) t ht

theorem deregister_crons_eq (workflowId : WorkflowId) (s : TaskState) :
    s.deregisterCrons workflowId =
      { s with cronMap := (s.deregisterCrons workflowId).cronMap } := by
  unfold deregisterCrons
  split <;> rfl

theorem Fresh.remove (hs : s.Fresh) (closing : Nat → CloseOutcome) (workflowId : WorkflowId) :
    (s.remove closing workflowId).2.Fresh := by
  unfold TaskState.remove
  cases hget : s.activeWorkflows.get? workflowId with
  | none => exact hs
  | some responses =>
    dsimp only
    have hcrons : ∀ id, (s.deregisterCrons workflowId).crons id ⊆ s.crons id := by
      intro id entry hentry
      rw [crons_deregister_crons] at hentry
      split at hentry
      · cases hentry
      · exact hentry
    have hstopped := deregister_crons_eq workflowId s
    generalize s.deregisterCrons workflowId = stopped at hcrons hstopped
    obtain ⟨hsub, hclosed⟩ := close_triggers_shrinks closing workflowId responses stopped
    generalize stopped.closeTriggers closing workflowId responses = r at hsub hclosed
    obtain ⟨result, last⟩ := r
    dsimp only at hsub hclosed
    have hfresh : last.Fresh := by
      refine hs.shrink ?_ (fun t ht => ?_) (fun id => ?_) fun id responses hget => ?_
      · rw [hclosed, hstopped]
      · rw [hstopped] at hsub
        exact hsub ht
      · rw [hclosed]
        exact hcrons id
      · rwa [hclosed, hstopped] at hget
    cases result with
    | error error => exact hfresh
    | ok done =>
      refine hfresh.shrink rfl (fun t ht => ht) (fun id entry hentry => hentry) ?_
      intro id responses hget
      dsimp only at hget
      rw [InsertionMap.get_delete] at hget
      split at hget
      · cases hget
      · exact hget

/-- The state before anything was activated. -/
def initial : TaskState := ⟨.empty, .empty, [], 0⟩

end TaskState

/-- Activations and deactivations of workflows. -/
inductive TaskEvent where
  | add (workflow : ActivationWorkflow) (manual : Bool)
  | remove (closing : Nat → CloseOutcome) (workflowId : WorkflowId)

namespace TaskState

section

variable (cronError : List Char → Option (List Char))

/-- The state after an event. -/
def step (s : TaskState) : TaskEvent → Option TaskState
  | .add workflow manual => some (s.add cronError workflow manual).2
  | .remove closing workflowId => some (s.remove closing workflowId).2

/-- The states that sequences of activations and deactivations reach. -/
def Reached (s : TaskState) : Prop :=
  Reachable (step cronError) (fun _ _ => True) initial s

/-- In the state `s'` nothing is left of what was started after `s`, or the workflow is active and
removing it, when its close functions succeed, leaves nothing of that. -/
def Recoverable (s s' : TaskState) (workflowId : WorkflowId) : Prop :=
  NothingNew s s' ∨
    s'.isActive workflowId = true ∧
      NothingNew s (s'.remove (fun _ => .closed) workflowId).2

/-- The node at which the activation fails, if it does, comes before anything that would be left
behind. When it is a trigger node, no trigger node before it opens a trigger, and no job has been
registered or the workflow was active before. When it is a poll node, some trigger node gives a
response or no job has been registered. -/
def FailsCleanly (workflow : ActivationWorkflow) (manual : Bool) (s : TaskState) : Prop :=
  match firstFailure (·.triggerStarts cronError manual) workflow.getTriggerNodes with
  | some (before, failing) =>
    (∀ node ∈ before, node.opensTrigger = false) ∧
      (s.isActive workflow.id = true ∨
        ∀ node ∈ before ++ [failing], node.triggerCrons cronError = [])
  | none =>
    match firstFailure (·.pollStarts cronError) workflow.getPollNodes with
    | some (before, failing) =>
      (∃ node ∈ workflow.getTriggerNodes, node.responds = true) ∨
        (∀ node ∈ workflow.getTriggerNodes, node.triggerCrons cronError = []) ∧
          ∀ node ∈ before ++ [failing], node.pollCrons cronError = []
    | none => True

end

theorem Reached.fresh (h : Reached cronError s) : s.Fresh := by
  refine Reachable.keeps Fresh ⟨by simp [initial], fun id entry hentry => ?_, ?_⟩ ?_ h
  · cases hentry
  · intro id responses hget
    cases hget
  · intro s e s' hs _ hstep
    cases e with
    | add workflow manual =>
      cases hstep
      exact hs.add workflow manual
    | remove closing workflowId =>
      cases hstep
      exact hs.remove closing workflowId

/-- What was started while the list of active workflows stayed as it is can be undone when no
trigger was opened, and the workflow is active or no job was registered. -/
theorem Grown.recoverable_iff_unlisted (h : Grown workflowId s s' opened jobs) (hs : s.Fresh)
    (hactive : s'.activeWorkflows = s.activeWorkflows) :
    Recoverable s s' workflowId ↔ opened = [] ∧ (s.isActive workflowId = true ∨ jobs = []) := by
  unfold Recoverable isActive InsertionMap.has
  rw [hactive, h.nothing_new_iff hs]
  cases hget : s.activeWorkflows.get? workflowId with
  | none => simp
  | some responses =>
    -- The listed responses name triggers that were opened before.
    have hold : (∀ t ∈ opened, t ∈ responses.filterMap (·.closeFunction)) ↔ opened = [] := by
      constructor
      · intro hall
        refine List.eq_nil_iff_forall_not_mem.mpr fun t ht => ?_
        have hlt := hs.responses workflowId responses hget t (hall t ht)
        exact absurd hlt (Nat.not_lt.mpr (h.newTriggers t ht).1)
      · intro hnone t ht
        rw [hnone] at ht
        cases ht
    rw [h.removed_iff hs (hactive ▸ hget), hold]
    simp only [Option.isSome_some, true_and, true_or, and_true, or_iff_right_iff_imp]
    exact fun hnone => hnone.1

/-- What was started can be undone when the workflow is listed with responses that name all
triggers that were opened. -/
theorem Grown.recoverable_of_listed (h : Grown workflowId s s' opened jobs) (hs : s.Fresh)
    {responses : List TriggerResponse}
    (hget : s'.activeWorkflows.get? workflowId = some responses)
    (hopened : opened = responses.filterMap (·.closeFunction)) : Recoverable s s' workflowId := by
  refine .inr ⟨?_, (h.removed_iff hs hget).mpr fun t ht => hopened ▸ ht⟩
  rw [isActive, InsertionMap.has, hget]
  rfl

theorem Grown.recoverable_iff_deleted (h : Grown workflowId s s' opened jobs) (hs : s.Fresh)
    (hget : s'.activeWorkflows.get? workflowId = none) :
    Recoverable s s' workflowId ↔ opened = [] ∧ jobs = [] := by
  unfold Recoverable isActive InsertionMap.has
  rw [hget, h.nothing_new_iff hs]
  simp

theorem jobs_eq_nil_iff {nodes : List ActivationNode} {crons : ActivationNode → List Cron}
    (h : jobs.length = (nodes.flatMap crons).length) :
    jobs = [] ↔ ∀ node ∈ nodes, crons node = [] := by
  rw [← List.length_eq_zero_iff, h, List.length_eq_zero_iff, List.flatMap_eq_nil_iff]

/-- After every failure of `add`, either nothing that the call started is left or removing the
still active workflow closes all of it, exactly when the activation fails cleanly. -/
theorem add_atomic_iff (h : Reached cronError s) (workflow : ActivationWorkflow) (manual : Bool) :
    (∀ error, (s.add cronError workflow manual).1 = .error error →
        Recoverable s (s.add cronError workflow manual).2 workflow.id) ↔
      FailsCleanly cronError workflow manual s := by
  have hs := h.fresh
  obtain ⟨hactive, opened, jobs, hgrown, hcase⟩ := start_triggers_grown cronError
    workflow.id manual workflow.getTriggerNodes [] s
  unfold TaskState.add FailsCleanly
  generalize s.startTriggers cronError workflow.id manual workflow.getTriggerNodes [] = r
    at hactive hgrown hcase
  obtain ⟨result, next⟩ := r
  dsimp only at hactive hgrown hcase
  cases hcase with
  | inl hfail =>
    -- A trigger node fails: the list of active workflows is as it was.
    obtain ⟨error, before, failing, rfl, hfirst, hopened, hjobs⟩ := hfail
    rw [hfirst]
    dsimp only
    rw [← hopened, ← jobs_eq_nil_iff hjobs, ← hgrown.recoverable_iff_unlisted hs hactive]
    exact ⟨fun hevery => hevery error rfl, fun hrecoverable _ _ => hrecoverable⟩
  | inr hok =>
    obtain ⟨more, rfl, hfirst, hopened, hresponded, hjobs⟩ := hok
    rw [hfirst, List.nil_append]
    dsimp only
    obtain ⟨jobs', hgrown', hcase'⟩ := start_polling_grown cronError workflow.id
      more workflow.getPollNodes
      { next with activeWorkflows := next.activeWorkflows.set workflow.id more }
    generalize TaskState.startPolling cronError workflow.id more workflow.getPollNodes _ = r
      at hgrown' hcase'
    obtain ⟨result, last⟩ := r
    dsimp only at hgrown' hcase'
    have hall : Grown workflow.id s last (opened ++ []) (jobs ++ jobs') :=
      hgrown.trans (hgrown'.listed next.activeWorkflows last.activeWorkflows)
    cases hcase' with
    | inr hdone =>
      obtain ⟨rfl, hpolls, -⟩ := hdone
      rw [hpolls]
      exact iff_of_true (fun error herror => by cases herror) trivial
    | inl hfail =>
      obtain ⟨error, before, failing, rfl, hpolls, hjobs', hactive'⟩ := hfail
      rw [hpolls]
      dsimp only
      by_cases hmore : more = []
      · -- Without responses the workflow is taken off the list.
        have hnone : ¬ ∃ node ∈ workflow.getTriggerNodes, node.responds = true := by
          simpa using hresponded.mp hmore
        rw [or_iff_right hnone, ← jobs_eq_nil_iff hjobs, ← jobs_eq_nil_iff hjobs']
        rw [if_pos hmore] at hactive'
        have hget : last.activeWorkflows.get? workflow.id = none := by
          rw [hactive', InsertionMap.get_delete, if_pos rfl]
        have hiff := hall.recoverable_iff_deleted hs hget
        rw [hopened, hmore] at hiff
        simp only [List.filterMap_nil, List.append_nil, true_and,
          List.append_eq_nil_iff] at hiff
        rw [← hiff]
        exact ⟨fun hevery => hevery error rfl, fun hrecoverable _ _ => hrecoverable⟩
      · have hsome : ∃ node ∈ workflow.getTriggerNodes, node.responds = true := by
          by_contra hno
          exact hmore (hresponded.mpr (by simpa using hno))
        rw [if_neg hmore] at hactive'
        have hget : last.activeWorkflows.get? workflow.id = some more := by
          rw [hactive', InsertionMap.get_set_same]
        refine iff_of_true (fun _ _ => hall.recoverable_of_listed hs hget ?_) (.inl hsome)
        rw [hopened, List.append_nil]

/-- A trigger node that opens a trigger. -/
def imapNode : ActivationNode :=
  ⟨"Email Trigger".toList, false, some ⟨[], .response true⟩, none⟩

/-- A trigger node whose trigger function throws. -/
def failingTriggerNode : ActivationNode :=
  ⟨"Postgres Trigger".toList, false, some ⟨[], .throws "Connection refused".toList⟩, none⟩

/-- A poll node whose poll function throws. -/
def failingPollNode : ActivationNode :=
  ⟨"Gmail Trigger".toList, false, none,
    some ⟨.ok [⟨.everyMinute, 7, 0⟩], [], some "Unauthorized".toList⟩⟩

/-- When the poll node fails after the trigger node opened its trigger, the workflow stays
active. -/
theorem add_atomic_poll_failure :
    Recoverable initial (initial.add (fun _ => none) ⟨['w'], [imapNode, failingPollNode]⟩ false).2
      ['w'] := by
  refine (add_atomic_iff .start ⟨['w'], [imapNode, failingPollNode]⟩ false).mpr ?_
    (.of "Unauthorized".toList failingPollNode) rfl
  exact Or.inl ⟨imapNode, List.mem_singleton.mpr rfl, rfl⟩

/-- When a trigger node fails after another one opened its trigger, that trigger stays open and the
workflow is not active. -/
theorem add_not_atomic :
    ¬ ∀ (cronError : List Char → Option (List Char)) (s : TaskState), Reached cronError s →
      ∀ (workflow : ActivationWorkflow) (manual : Bool) (error : WorkflowActivationError),
        (s.add cronError workflow manual).1 = .error error →
          Recoverable s (s.add cronError workflow manual).2 workflow.id := by
  intro h
  have hrecoverable :=
    h (fun _ => none) initial .start ⟨['w'], [imapNode, failingTriggerNode]⟩ false
    (.of "Connection refused".toList failingTriggerNode) rfl
  cases hrecoverable with
  | inl hnothing => exact absurd (hnothing.triggers 0 (List.mem_singleton.mpr rfl)) (by decide)
  | inr hactive => cases hactive.1

end TaskState

end N8n.Activation
