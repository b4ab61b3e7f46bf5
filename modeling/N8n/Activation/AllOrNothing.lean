import N8n.Activation.ActiveWorkflowManager
import N8n.Activation.AtomicActivation

/-!
# When a failed activation leaves the registrations as they were

`failurePoint` says where an activation fails, from the workflow and the answers of the services
alone. Nothing is undone but the webhooks, and these only when a webhook fails. The lemmas on the
webhook table and on the triggers and polls say for each point when what was registered before it
changes nothing, and `all_or_nothing_iff` puts them together.
-/

namespace N8n.Activation

open Collections Webhooks

/-- Where an activation fails. -/
inductive FailurePoint where
  /-- Before anything is registered. -/
  | starting
  /-- At the last of the webhooks that were tried. -/
  | webhook (tried : List (ManagedNode × NodeWebhook))
  | populatingCache
  | trigger (before : List ActivationNode) (failing : ActivationNode)
  | poll (before : List ActivationNode) (failing : ActivationNode)
  /-- After everything was registered. -/
  | finishing

/-- The rows that trying the webhooks stores. -/
def storedRows (workflowId : WorkflowId) (tried : List (ManagedNode × NodeWebhook)) :
    List WebhookEntity :=
  (tried.filter fun w => w.2.storeWebhook.isNone).map (webhookRow workflowId)

/-- The row that was stored last for a method and a path. -/
def lastStored (stored : List WebhookEntity) (key : Method × List Char) : Option WebhookEntity :=
  stored.reverse.find? (·.primaryKey = key)

/-- What storing the rows leaves in the table was there before. -/
def Stood (stored : List WebhookEntity) (rows : WebhookRows) : Prop :=
  ∀ key row, lastStored stored key = some row → rows.get? key = some row

/-- The table has no webhook of the workflow. -/
def NoWebhooks (workflowId : WorkflowId) (rows : WebhookRows) : Prop :=
  ∀ key row, rows.get? key = some row → row.workflowId ≠ workflowId

namespace AddCall

/-- Does the activation go on after it tried the webhook? -/
def goesOn (call : AddCall) (w : ManagedNode × NodeWebhook) : Bool :=
  match w.2.storeWebhook.or w.2.createWebhookIfNotExists with
  | none => true
  | some error => decide (call.activationMode = .init) && error.queryFailed

/-- The rows that the activation stores when no webhook fails. -/
def allRows (m : MainInstance) (call : AddCall) (workflow : ManagedWorkflow) :
    List WebhookEntity :=
  if m.shouldAddWebhooks call.activationMode then
    match workflow.getWorkflowWebhooks with
    | .error _ => []
    | .ok webhooks => storedRows call.workflowId webhooks
  else []

/-- Where adding the webhooks fails. -/
def webhookFailure (m : MainInstance) (call : AddCall) (workflow : ManagedWorkflow) :
    Option FailurePoint :=
  if m.shouldAddWebhooks call.activationMode then
    match workflow.getWorkflowWebhooks with
    | .error _ => some .starting
    | .ok webhooks =>
      match firstFailure call.goesOn webhooks with
      | some (before, failing) => some (.webhook (before ++ [failing]))
      | none =>
        if webhooks ≠ [] ∧ call.populateCache.isSome then some .populatingCache else none
  else none

/-- Does an activation fail after everything was registered? -/
def finishFailure (call : AddCall) (workflow : ManagedWorkflow) : Option FailurePoint :=
  if call.deregister.isSome || !workflow.countTriggers.isOk ||
      call.updateWorkflowTriggerCount.isSome then some .finishing
  else none

end AddCall

section Conditions

variable (cronError : List Char → Option (List Char)) (m : MainInstance) (call : AddCall)

/-- Where starting the triggers and polls of a workflow fails. -/
def startFailure (workflow : ActivationWorkflow) : Option FailurePoint :=
  match firstFailure (·.triggerStarts cronError false) workflow.getTriggerNodes with
  | some (before, failing) => some (.trigger before failing)
  | none =>
    match firstFailure (·.pollStarts cronError) workflow.getPollNodes with
    | some (before, failing) => some (.poll before failing)
    | none => none

/-- Where the activation of a workflow fails. -/
def failurePoint (workflow : ManagedWorkflow) : Option FailurePoint :=
  (call.webhookFailure m workflow).or
    ((if m.isLeader then startFailure cronError workflow.activation else none).or
      (call.finishFailure workflow))

/-- The condition on the webhook table for an activation that fails at the point. -/
def FailurePoint.KeepsRows (workflow : ManagedWorkflow) (rows : WebhookRows) : FailurePoint → Prop
  | .starting => True
  | .webhook tried =>
    if call.clearWebhooks.isSome then Stood (storedRows call.workflowId tried) rows
    else NoWebhooks call.workflowId rows
  | _ => Stood (call.allRows m workflow) rows

/-- The responses of trigger nodes that open no trigger. -/
def silentResponses (nodes : List ActivationNode) : List TriggerResponse :=
  List.replicate (nodes.countP (·.responds)) ⟨none⟩

/-- The nodes open no trigger and register no job when they are started as triggers. -/
def StartNothing (nodes : List ActivationNode) : Prop :=
  (∀ node ∈ nodes, node.opensTrigger = false) ∧ ∀ node ∈ nodes, node.triggerCrons cronError = []

/-- The condition on the triggers and polls for an activation that fails at the point. -/
def FailurePoint.KeepsTasks (workflow : ActivationWorkflow) (tasks : TaskState) :
    FailurePoint → Prop
  | .trigger before failing =>
    (∀ node ∈ before, node.opensTrigger = false) ∧
      ∀ node ∈ before ++ [failing], node.triggerCrons cronError = []
  | .poll before failing =>
    StartNothing cronError workflow.getTriggerNodes ∧
      (∀ node ∈ before ++ [failing], node.pollCrons cronError = []) ∧
      tasks.activeWorkflows.get? workflow.id =
        if silentResponses workflow.getTriggerNodes = [] then none
        else some (silentResponses workflow.getTriggerNodes)
  | .finishing =>
    m.isLeader = true → workflow.getTriggerNodes ≠ [] ∨ workflow.getPollNodes ≠ [] →
      StartNothing cronError workflow.getTriggerNodes ∧
        (∀ node ∈ workflow.getPollNodes, node.pollCrons cronError = []) ∧
        tasks.activeWorkflows.get? workflow.id =
          some (silentResponses workflow.getTriggerNodes)
  | _ => True

/-- Wherever the call fails after it started to activate a workflow, what it registered before that
was registered already, or is cleared away without taking more with it. -/
def FailsCleanly (s : Registrations) : Prop :=
  (m.isMultiMain && call.shouldPublish) = false →
    ∀ workflow, call.dbWorkflow = .ok (some workflow) → call.skips workflow = false →
      workflow.checkIfWorkflowCanBeActivated startingNodes = true → call.getBase = none →
        ∀ point, failurePoint cronError m call workflow = some point →
          point.KeepsRows m call workflow s.rows ∧
            point.KeepsTasks cronError m workflow.activation s.tasks

end Conditions

/-- The webhooks of the workflow are the same in both tables. -/
def SameWebhooks (workflowId : WorkflowId) (rows rows' : WebhookRows) : Prop :=
  ∀ key row, row.workflowId = workflowId → (rows'.get? key = some row ↔ rows.get? key = some row)

/-- The open triggers, and the jobs and the responses of the workflow are the same. -/
structure SameTasks (workflowId : WorkflowId) (tasks tasks' : TaskState) : Prop where
  triggers : tasks'.openTriggers = tasks.openTriggers
  crons : tasks'.crons workflowId = tasks.crons workflowId
  responses : tasks'.activeWorkflows.get? workflowId = tasks.activeWorkflows.get? workflowId

/-- The webhooks, triggers and polls of the workflow are registered as before. -/
structure Unchanged (workflowId : WorkflowId) (s s' : Registrations) : Prop where
  webhooks : SameWebhooks workflowId s.rows s'.rows
  tasks : SameTasks workflowId s.tasks s'.tasks

/-- Store rows one after the other. -/
def storeAll (stored : List WebhookEntity) (rows : WebhookRows) : WebhookRows :=
  stored.foldl (fun rows webhook => rows.set webhook.primaryKey webhook) rows

section Rows

variable {workflowId : WorkflowId} {stored : List WebhookEntity} {rows : WebhookRows}

theorem get_store_all (stored : List WebhookEntity) (rows : WebhookRows)
    (key : Method × List Char) :
    (storeAll stored rows).get? key = (lastStored stored key).or (rows.get? key) := by
  induction stored generalizing rows with
  | nil => rfl
  | cons webhook rest ih =>
    have hlast : lastStored (webhook :: rest) key =
        (lastStored rest key).or (if webhook.primaryKey = key then some webhook else none) := by
      simp only [lastStored, List.reverse_cons, List.find?_append, List.find?_cons,
        List.find?_nil]
      by_cases hkey : webhook.primaryKey = key <;> simp [hkey]
    rw [storeAll, List.foldl_cons]
    refine (ih _).trans ?_
    rw [hlast, InsertionMap.get_set, Option.or_assoc]
    by_cases hkey : webhook.primaryKey = key
    · rw [if_pos hkey, if_pos hkey.symm]
      rfl
    · rw [if_neg hkey, if_neg (Ne.symm hkey)]
      rfl

theorem same_webhooks_store_all_iff (h : ∀ webhook ∈ stored, webhook.workflowId = workflowId) :
    SameWebhooks workflowId rows (storeAll stored rows) ↔ Stood stored rows := by
  constructor
  · intro hsame key row hlast
    have hmem : row ∈ stored := List.mem_reverse.mp (List.mem_of_find?_eq_some hlast)
    refine (hsame key row (h row hmem)).mp ?_
    rw [get_store_all, hlast]
    rfl
  · intro hstood key row _
    rw [get_store_all]
    cases hlast : lastStored stored key with
    | none => rfl
    | some last =>
      rw [hstood key last hlast]
      rfl

theorem same_webhooks_cleared_iff (after : WebhookRows) :
    SameWebhooks workflowId rows (after.filter fun entry => entry.2.workflowId ≠ workflowId) ↔
      NoWebhooks workflowId rows := by
  constructor
  · intro hsame key row hrow hid
    have hkept := (hsame key row hid).mpr hrow
    rw [InsertionMap.get_filter_eq_some_iff] at hkept
    exact of_decide_eq_true hkept.2 hid
  · intro hno key row hid
    rw [InsertionMap.get_filter_eq_some_iff]
    refine iff_of_false (fun hkept => of_decide_eq_true hkept.2 hid) fun hrow => ?_
    exact hno key row hrow hid

theorem stored_rows_workflow (workflowId : WorkflowId)
    (tried : List (ManagedNode × NodeWebhook)) :
    ∀ webhook ∈ storedRows workflowId tried, webhook.workflowId = workflowId := by
  intro webhook hwebhook
  obtain ⟨w, -, rfl⟩ := List.mem_map.mp hwebhook
  unfold webhookRow WebhookData.toEntity
  cases w.1.webhookId.filter (· ≠ []) with
  | none => rfl
  | some webhookId =>
    dsimp only
    split <;> rfl

end Rows

namespace AddCall

variable (call : AddCall)

theorem add_webhook_eq (w : ManagedNode × NodeWebhook) (rows : WebhookRows) :
    addWebhook call.workflowId w rows =
      (match w.2.storeWebhook.or w.2.createWebhookIfNotExists with
        | some error => .error error
        | none => .ok (),
        storeAll (storedRows call.workflowId [w]) rows) := by
  unfold addWebhook
  cases hstore : w.2.storeWebhook with
  | some error => simp [storedRows, storeAll, hstore]
  | none =>
    simp only [storedRows, storeAll, Option.none_or]
    cases w.2.createWebhookIfNotExists <;> simp [hstore]

theorem stored_rows_append (workflowId : WorkflowId)
    (tried rest : List (ManagedNode × NodeWebhook)) (rows : WebhookRows) :
    storeAll (storedRows workflowId (tried ++ rest)) rows =
      storeAll (storedRows workflowId rest) (storeAll (storedRows workflowId tried) rows) := by
  unfold storedRows storeAll
  rw [List.filter_append, List.map_append, List.foldl_append]

theorem add_each_webhook_spec (webhooks : List (ManagedNode × NodeWebhook)) (rows : WebhookRows) :
    (∃ before failing error, firstFailure call.goesOn webhooks = some (before, failing) ∧
      call.addEachWebhook webhooks rows =
        (.error error,
          call.clearRows (storeAll (storedRows call.workflowId (before ++ [failing])) rows))) ∨
    firstFailure call.goesOn webhooks = none ∧
      call.addEachWebhook webhooks rows =
        (.ok (), storeAll (storedRows call.workflowId webhooks) rows) := by
  induction webhooks generalizing rows with
  | nil => exact .inr ⟨rfl, rfl⟩
  | cons w rest ih =>
    -- The rest is tried when `w` succeeds and when its failure is ignored.
    have hrest (hgoes : call.goesOn w = true)
        (heq : call.addEachWebhook (w :: rest) rows =
          call.addEachWebhook rest (storeAll (storedRows call.workflowId [w]) rows)) :
        (∃ before failing error, firstFailure call.goesOn (w :: rest) = some (before, failing) ∧
          call.addEachWebhook (w :: rest) rows =
            (.error error, call.clearRows
              (storeAll (storedRows call.workflowId (before ++ [failing])) rows))) ∨
        firstFailure call.goesOn (w :: rest) = none ∧
          call.addEachWebhook (w :: rest) rows =
            (.ok (), storeAll (storedRows call.workflowId (w :: rest)) rows) := by
      rw [heq, firstFailure, hgoes]
      cases ih (storeAll (storedRows call.workflowId [w]) rows) with
      | inl hfail =>
        obtain ⟨before, failing, error, hfirst, hadd⟩ := hfail
        refine .inl ⟨w :: before, failing, error, by simp [hfirst], ?_⟩
        rw [hadd, ← stored_rows_append]
        rfl
      | inr hdone =>
        refine .inr ⟨by simp [hdone.1], ?_⟩
        rw [hdone.2, ← stored_rows_append]
        rfl
    have hadd := call.add_webhook_eq w rows
    cases herror : w.2.storeWebhook.or w.2.createWebhookIfNotExists with
    | none =>
      rw [herror] at hadd
      exact hrest (by simp [goesOn, herror]) (by rw [addEachWebhook, hadd])
    | some error =>
      rw [herror] at hadd
      by_cases hignored : call.activationMode = .init ∧ error.queryFailed = true
      · refine hrest (by simp [goesOn, herror, hignored]) ?_
        rw [addEachWebhook, hadd]
        dsimp only
        rw [if_pos hignored]
      · have hgoes : call.goesOn w = false := by
          rw [goesOn, herror]
          simpa using hignored
        refine .inl ⟨[], w, webhookError w.1 error, by simp [firstFailure, hgoes], ?_⟩
        rw [addEachWebhook, hadd]
        dsimp only
        rw [if_neg hignored]
        rfl

end AddCall

namespace TaskState

variable (cronError : List Char → Option (List Char))

theorem responds_of_opens_trigger {node : ActivationNode} (h : node.opensTrigger = true) :
    node.responds = true := by
  unfold ActivationNode.opensTrigger at h
  unfold ActivationNode.responds
  cases htrigger : node.trigger with
  | none =>
    rw [htrigger] at h
    cases h
  | some trigger =>
    rw [htrigger] at h
    have hresult : trigger.result = .response true := of_decide_eq_true h
    simp [hresult]

theorem start_triggers_responses (workflowId : WorkflowId) (manual : Bool)
    (nodes : List ActivationNode) (responses result : List TriggerResponse) (s : TaskState)
    (h : (s.startTriggers cronError workflowId manual nodes responses).1 = .ok result) :
    result.map (·.closeFunction.isSome) =
      responses.map (·.closeFunction.isSome) ++
        (nodes.filter (·.responds)).map (·.opensTrigger) := by
  induction nodes generalizing responses s with
  | nil =>
    cases h
    simp
  | cons node rest ih =>
    obtain ⟨-, opened, jobs, -, -, hrun⟩ :=
      run_trigger_grown cronError workflowId manual node s
    rw [startTriggers] at h
    generalize s.runTrigger cronError workflowId manual node = r at hrun h
    obtain ⟨outcome, next⟩ := r
    dsimp only at hrun
    cases hrun with
    | failed message hstarts => cases h
    | silent hstarts hresponds hopens =>
      rw [ih responses next h, List.filter_cons, hresponds]
      rfl
    | responded hstarts hresponds response hopens =>
      rw [ih (responses ++ [response]) next h, List.filter_cons, hresponds]
      simp [hopens]

theorem responses_silent_iff {workflowId : WorkflowId} {manual : Bool}
    {nodes : List ActivationNode} {result : List TriggerResponse} {s : TaskState}
    (h : (s.startTriggers cronError workflowId manual nodes []).1 = .ok result) :
    (result.filterMap (·.closeFunction) = [] ↔ ∀ node ∈ nodes, node.opensTrigger = false) ∧
      ((∀ node ∈ nodes, node.opensTrigger = false) → result = silentResponses nodes) := by
  have hmap := start_triggers_responses cronError workflowId manual nodes [] result s h
  rw [List.map_nil, List.nil_append] at hmap
  have hopens : (∀ node ∈ nodes, node.opensTrigger = false) ↔
      ∀ response ∈ result, response.closeFunction = none := by
    have hsame : (∀ opens ∈ (nodes.filter (·.responds)).map (·.opensTrigger), opens = false) ↔
        ∀ opens ∈ result.map (·.closeFunction.isSome), opens = false := by rw [hmap]
    simp only [List.forall_mem_map, List.mem_filter, and_imp, Option.isSome_eq_false_iff,
      Option.isNone_iff_eq_none] at hsame
    rw [← hsame]
    refine ⟨fun hnone node hnode _ => hnone node hnode, fun hnone node hnode => ?_⟩
    by_contra hopens
    have hopens : node.opensTrigger = true := by simpa using hopens
    exact absurd (hnone node hnode (responds_of_opens_trigger hopens)) (by simp [hopens])
  refine ⟨by rw [hopens, List.filterMap_eq_nil_iff], fun hnone => ?_⟩
  refine List.eq_replicate_iff.mpr ⟨?_, fun response hresponse => ?_⟩
  · have hlength := congrArg List.length hmap
    rwa [List.length_map, List.length_map, ← List.countP_eq_length_filter] at hlength
  · have hclose := hopens.mp hnone response hresponse
    cases response
    cases hclose
    rfl

theorem start_polling_jobs (workflowId : WorkflowId) (responses : List TriggerResponse)
    (nodes : List ActivationNode) (s : TaskState)
    (h : firstFailure (·.pollStarts cronError) nodes = none) :
    ∃ jobs, Grown workflowId s (s.startPolling cronError workflowId responses nodes).2 [] jobs ∧
      jobs.length = (nodes.flatMap (·.pollCrons cronError)).length := by
  induction nodes generalizing s with
  | nil => exact ⟨[], .refl workflowId s, rfl⟩
  | cons node rest ih =>
    obtain ⟨-, jobs, hgrown, hlength, hcase⟩ :=
      activate_polling_grown cronError workflowId node s
    rw [startPolling]
    generalize s.activatePolling cronError workflowId node = r at hgrown hcase
    obtain ⟨outcome, next⟩ := r
    cases hcase with
    | inr herror =>
      rw [firstFailure, herror.2] at h
      cases h
    | inl hok =>
      obtain ⟨rfl, hstarts⟩ := hok
      rw [firstFailure, hstarts] at h
      obtain ⟨jobs', hgrown', hlength'⟩ := ih next (by simpa using h)
      refine ⟨jobs ++ jobs', hgrown.trans hgrown', ?_⟩
      rw [List.length_append, hlength, hlength', List.flatMap_cons, List.length_append]

/-- Something started for the workflow leaves its triggers and polls as they were when there is
nothing of it, and the list of active workflows has the same responses. -/
theorem Grown.same_tasks_iff {workflowId : WorkflowId} {s s' : TaskState} {opened : List Nat}
    {jobs : List CronEntry} (h : Grown workflowId s s' opened jobs) :
    SameTasks workflowId s s' ↔ opened = [] ∧ jobs = [] ∧
      s'.activeWorkflows.get? workflowId = s.activeWorkflows.get? workflowId := by
  constructor
  · intro hsame
    have htriggers := hsame.triggers
    have hcrons := hsame.crons
    rw [h.triggers, List.append_right_eq_self] at htriggers
    rw [h.crons, if_pos rfl, List.append_right_eq_self] at hcrons
    exact ⟨htriggers, hcrons, hsame.responses⟩
  · rintro ⟨hopened, hjobs, hresponses⟩
    refine ⟨?_, ?_, hresponses⟩
    · rw [h.triggers, hopened, List.append_nil]
    · rw [h.crons, if_pos rfl, hjobs, List.append_nil]

theorem add_same_tasks_iff (m : MainInstance) (workflow : ActivationWorkflow) (s : TaskState) :
    (∃ point error, startFailure cronError workflow = some point ∧
      (s.add cronError workflow false).1 = .error error ∧
      (SameTasks workflow.id s (s.add cronError workflow false).2 ↔
        point.KeepsTasks cronError m workflow s)) ∨
    startFailure cronError workflow = none ∧ (s.add cronError workflow false).1 = .ok () ∧
      (SameTasks workflow.id s (s.add cronError workflow false).2 ↔
        StartNothing cronError workflow.getTriggerNodes ∧
          (∀ node ∈ workflow.getPollNodes, node.pollCrons cronError = []) ∧
          s.activeWorkflows.get? workflow.id =
            some (silentResponses workflow.getTriggerNodes)) := by
  obtain ⟨hactive, opened, jobs, hgrown, hcase⟩ := start_triggers_grown cronError
    workflow.id false workflow.getTriggerNodes [] s
  have hsilent (result : List TriggerResponse)
      (h : (s.startTriggers cronError workflow.id false workflow.getTriggerNodes []).1 =
        .ok result) := responses_silent_iff cronError h
  unfold TaskState.add startFailure
  generalize s.startTriggers cronError workflow.id false workflow.getTriggerNodes [] = r
    at hactive hgrown hcase hsilent
  obtain ⟨result, next⟩ := r
  dsimp only at hactive hgrown hcase hsilent
  cases hcase with
  | inl hfail =>
    obtain ⟨error, before, failing, rfl, hfirst, hopened, hjobs⟩ := hfail
    rw [hfirst]
    refine .inl ⟨_, error, rfl, rfl, ?_⟩
    rw [hgrown.same_tasks_iff, hopened, jobs_eq_nil_iff hjobs, hactive]
    simp [FailurePoint.KeepsTasks]
  | inr hok =>
    obtain ⟨more, rfl, hfirst, hopened, hresponded, hjobs⟩ := hok
    rw [hfirst, List.nil_append]
    dsimp only
    obtain ⟨hopens, hreplicate⟩ := hsilent more rfl
    obtain ⟨jobs', hgrown', hcase'⟩ := start_polling_grown cronError workflow.id
      more workflow.getPollNodes
      { next with activeWorkflows := next.activeWorkflows.set workflow.id more }
    have hdone := start_polling_jobs cronError workflow.id more workflow.getPollNodes
      { next with activeWorkflows := next.activeWorkflows.set workflow.id more }
    generalize TaskState.startPolling cronError workflow.id more workflow.getPollNodes _ = r
      at hgrown' hcase' hdone
    obtain ⟨result, last⟩ := r
    dsimp only at hgrown' hcase' hdone
    have hstart : opened = [] ∧ jobs = [] ↔
        StartNothing cronError workflow.getTriggerNodes := by
      rw [hopened, hopens, jobs_eq_nil_iff hjobs]
      rfl
    have hmore : opened = [] → more = silentResponses workflow.getTriggerNodes := fun hnone =>
      hreplicate (hopens.mp (hopened ▸ hnone))
    have hall (last : TaskState) {jobs' : List CronEntry} (hgrown' : Grown workflow.id
          { next with activeWorkflows := next.activeWorkflows.set workflow.id more } last []
          jobs') : Grown workflow.id s last (opened ++ []) (jobs ++ jobs') :=
      hgrown.trans (hgrown'.listed next.activeWorkflows last.activeWorkflows)
    cases hcase' with
    | inl hfail =>
      obtain ⟨error, before, failing, rfl, hpolls, hjobs', hactive'⟩ := hfail
      rw [hpolls]
      refine .inl ⟨_, error, rfl, rfl, ?_⟩
      have hlast : last.activeWorkflows.get? workflow.id =
          if more = [] then none else some more := by
        rw [hactive']
        split
        · rw [InsertionMap.get_delete, if_pos rfl]
        · rw [InsertionMap.get_set_same]
      rw [(hall last hgrown').same_tasks_iff, hlast, FailurePoint.KeepsTasks, ← hstart,
        ← jobs_eq_nil_iff hjobs', List.append_nil, List.append_eq_nil_iff]
      constructor
      · rintro ⟨hnone, ⟨hjobs, hjobs'⟩, hget⟩
        exact ⟨⟨hnone, hjobs⟩, hjobs', by rw [← hmore hnone, ← hget]⟩
      · rintro ⟨⟨hnone, hjobs⟩, hjobs', hget⟩
        exact ⟨hnone, ⟨hjobs, hjobs'⟩, by rw [hget, ← hmore hnone]⟩
    | inr hok =>
      obtain ⟨rfl, hpolls, hactive'⟩ := hok
      rw [hpolls]
      refine .inr ⟨rfl, rfl, ?_⟩
      obtain ⟨jobs', hgrown', hjobs'⟩ := hdone hpolls
      have hlast : last.activeWorkflows.get? workflow.id = some more := by
        rw [hactive', InsertionMap.get_set_same]
      rw [(hall last hgrown').same_tasks_iff, hlast, ← hstart, ← jobs_eq_nil_iff hjobs',
        List.append_nil, List.append_eq_nil_iff]
      constructor
      · rintro ⟨hnone, ⟨hjobs, hjobs'⟩, hget⟩
        exact ⟨⟨hnone, hjobs⟩, hjobs', by rw [← hmore hnone, ← hget]⟩
      · rintro ⟨⟨hnone, hjobs⟩, hjobs', hget⟩
        exact ⟨hnone, ⟨hjobs, hjobs'⟩, by rw [hget, ← hmore hnone]⟩

end TaskState

theorem SameTasks.refl (workflowId : WorkflowId) (tasks : TaskState) :
    SameTasks workflowId tasks tasks := ⟨rfl, rfl, rfl⟩

theorem Unchanged.refl (workflowId : WorkflowId) (s : Registrations) : Unchanged workflowId s s :=
  ⟨fun _ _ _ => .rfl, .refl _ _⟩

section Registering

variable (cronError : List Char → Option (List Char)) (m : MainInstance) (call : AddCall)
  (workflow : ManagedWorkflow)

theorem all_rows_workflow :
    ∀ webhook ∈ call.allRows m workflow, webhook.workflowId = call.workflowId := by
  intro webhook hwebhook
  unfold AddCall.allRows at hwebhook
  split at hwebhook
  · cases hwebhooks : workflow.getWorkflowWebhooks with
    | error error =>
      rw [hwebhooks] at hwebhook
      cases hwebhook
    | ok webhooks =>
      rw [hwebhooks] at hwebhook
      exact stored_rows_workflow call.workflowId webhooks webhook hwebhook
  · cases hwebhook

theorem add_webhooks_same_iff (rows : WebhookRows) :
    (∃ point error rows', call.webhookFailure m workflow = some point ∧
      (if m.shouldAddWebhooks call.activationMode then call.addWebhooks workflow rows
        else (.ok false, rows)) = (.error error, rows') ∧
      (SameWebhooks call.workflowId rows rows' ↔ point.KeepsRows m call workflow rows) ∧
      ∀ tasks, point.KeepsTasks cronError m workflow.activation tasks) ∨
    call.webhookFailure m workflow = none ∧ ∃ added,
      (if m.shouldAddWebhooks call.activationMode then call.addWebhooks workflow rows
        else (.ok false, rows)) = (.ok added, storeAll (call.allRows m workflow) rows) := by
  unfold AddCall.webhookFailure AddCall.addWebhooks
  by_cases hadds : m.shouldAddWebhooks call.activationMode = true
  · rw [if_pos hadds, if_pos hadds]
    have hall : call.allRows m workflow = match workflow.getWorkflowWebhooks with
        | .error _ => []
        | .ok webhooks => storedRows call.workflowId webhooks := if_pos hadds
    cases hwebhooks : workflow.getWorkflowWebhooks with
    | error error =>
      exact .inl ⟨.starting, error, rows, rfl, rfl, iff_of_true (fun _ _ _ => .rfl) trivial,
        fun _ => trivial⟩
    | ok webhooks =>
      rw [hwebhooks] at hall
      cases webhooks with
      | nil => exact .inr ⟨rfl, false, by rw [hall]; rfl⟩
      | cons w rest =>
        dsimp only
        cases call.add_each_webhook_spec (w :: rest) rows with
        | inl hfail =>
          obtain ⟨before, failing, error, hfirst, hadd⟩ := hfail
          rw [hfirst, hadd]
          refine .inl ⟨_, error, _, rfl, rfl, ?_, fun _ => trivial⟩
          unfold FailurePoint.KeepsRows AddCall.clearRows
          cases call.clearWebhooks with
          | none => exact same_webhooks_cleared_iff _
          | some clearError =>
            exact same_webhooks_store_all_iff (stored_rows_workflow _ _)
        | inr hdone =>
          rw [hdone.1, hdone.2]
          dsimp only at hall ⊢
          rw [← hall]
          cases call.populateCache with
          | none => exact .inr ⟨by simp, true, rfl⟩
          | some error =>
            refine .inl ⟨.populatingCache, error, _, by simp, rfl, ?_, fun _ => trivial⟩
            exact same_webhooks_store_all_iff (all_rows_workflow m call workflow)
  · rw [if_neg hadds, if_neg hadds]
    have hnone : call.allRows m workflow = [] := if_neg hadds
    exact .inr ⟨rfl, false, by rw [hnone]; rfl⟩

theorem start_failure_keeps_rows {workflow' : ActivationWorkflow} {point : FailurePoint}
    (h : startFailure cronError workflow' = some point) (rows : WebhookRows) :
    point.KeepsRows m call workflow rows ↔ Stood (call.allRows m workflow) rows := by
  unfold startFailure at h
  cases hfirst : firstFailure (·.triggerStarts cronError false) workflow'.getTriggerNodes with
  | some found =>
    rw [hfirst] at h
    cases h
    rfl
  | none =>
    rw [hfirst] at h
    dsimp only at h
    cases hpolls : firstFailure (·.pollStarts cronError) workflow'.getPollNodes with
    | some found =>
      rw [hpolls] at h
      cases h
      rfl
    | none =>
      rw [hpolls] at h
      cases h

theorem add_triggers_same_iff (tasks : TaskState) :
    (∃ point error tasks',
      (if m.isLeader then startFailure cronError workflow.activation else none) = some point ∧
      (if m.shouldAddTriggersAndPollers then addTriggersAndPollers cronError workflow tasks
        else (.ok false, tasks)) = (.error error, tasks') ∧
      (SameTasks workflow.id tasks tasks' ↔
        point.KeepsTasks cronError m workflow.activation tasks) ∧
      ∀ rows, point.KeepsRows m call workflow rows ↔ Stood (call.allRows m workflow) rows) ∨
    (if m.isLeader then startFailure cronError workflow.activation else none) = none ∧
      ∃ added tasks',
        (if m.shouldAddTriggersAndPollers then addTriggersAndPollers cronError workflow tasks
          else (.ok false, tasks)) = (.ok added, tasks') ∧
        (SameTasks workflow.id tasks tasks' ↔
          FailurePoint.finishing.KeepsTasks cronError m workflow.activation tasks) := by
  unfold MainInstance.shouldAddTriggersAndPollers addTriggersAndPollers
  cases hleader : m.isLeader with
  | false =>
    refine .inr ⟨rfl, false, tasks, rfl, iff_of_true (.refl _ _) fun hleads => ?_⟩
    rw [hleader] at hleads
    cases hleads
  | true =>
    simp only [if_true, List.length_eq_zero_iff]
    by_cases hempty : workflow.activation.getTriggerNodes = [] ∧
        workflow.activation.getPollNodes = []
    · rw [if_pos hempty]
      refine .inr ⟨?_, false, tasks, rfl, iff_of_true (.refl _ _) fun _ hsome => ?_⟩
      · rw [startFailure, hempty.1, hempty.2]
        rfl
      · exact (hsome.elim (· hempty.1) (· hempty.2)).elim
    · rw [if_neg hempty]
      have hsome := Classical.not_and_iff_not_or_not.mp hempty
      have hadd := TaskState.add_same_tasks_iff cronError m workflow.activation tasks
      generalize tasks.add cronError workflow.activation false = r at hadd
      obtain ⟨result, tasks'⟩ := r
      cases hadd with
      | inl hfail =>
        obtain ⟨point, error, hpoint, rfl, hsame⟩ := hfail
        exact .inl ⟨point, _, tasks', hpoint, rfl, hsame,
          start_failure_keeps_rows cronError m call workflow hpoint⟩
      | inr hdone =>
        obtain ⟨hpoint, rfl, hsame⟩ := hdone
        refine .inr ⟨hpoint, true, tasks', rfl, hsame.trans ?_⟩
        exact ⟨fun hkeeps _ _ => hkeeps, fun hkeeps => hkeeps hleader hsome⟩

namespace Registrations

/-- Finishing an activation touches neither the webhooks nor the triggers and polls, and it fails
when one of its requests does or when the webhooks of the workflow cannot be counted. -/
theorem finish_spec (s : Registrations) :
    (finish call workflow s).2.rows = s.rows ∧ (finish call workflow s).2.tasks = s.tasks ∧
      ((∃ error, call.finishFailure workflow = some .finishing ∧
          (finish call workflow s).1 = .error error) ∨
        call.finishFailure workflow = none ∧ (finish call workflow s).1 = .ok ()) := by
  unfold finish AddCall.finishFailure
  cases call.deregister with
  | some error => exact ⟨rfl, rfl, .inl ⟨error, rfl, rfl⟩⟩
  | none =>
    cases workflow.countTriggers with
    | error error => exact ⟨rfl, rfl, .inl ⟨error, rfl, rfl⟩⟩
    | ok triggerCount =>
      cases call.updateWorkflowTriggerCount with
      | some error => exact ⟨rfl, rfl, .inl ⟨error, rfl, rfl⟩⟩
      | none => exact ⟨rfl, rfl, .inr ⟨rfl, rfl⟩⟩

theorem register_unchanged_iff (hid : workflow.id = call.workflowId) (s : Registrations) :
    (∃ point error, failurePoint cronError m call workflow = some point ∧
      (register cronError m call workflow s).1 = .error error ∧
      (Unchanged call.workflowId s (register cronError m call workflow s).2 ↔
        point.KeepsRows m call workflow s.rows ∧
          point.KeepsTasks cronError m workflow.activation s.tasks)) ∨
    failurePoint cronError m call workflow = none ∧
      ∃ added, (register cronError m call workflow s).1 = .ok added := by
  unfold register failurePoint
  cases add_webhooks_same_iff cronError m call workflow s.rows with
  | inl hfail =>
    obtain ⟨point, error, rows, hpoint, hwebhooks, hrows, htasks⟩ := hfail
    rw [hpoint, hwebhooks]
    refine .inl ⟨point, error, rfl, rfl, ?_⟩
    rw [← hrows]
    exact ⟨fun h => ⟨h.webhooks, htasks s.tasks⟩, fun h => ⟨h.1, .refl _ _⟩⟩
  | inr hstored =>
    obtain ⟨hpoint, webhooks, hwebhooks⟩ := hstored
    rw [hpoint, hwebhooks, Option.none_or]
    have hrows : SameWebhooks call.workflowId s.rows (storeAll (call.allRows m workflow) s.rows) ↔
        Stood (call.allRows m workflow) s.rows :=
      same_webhooks_store_all_iff (all_rows_workflow m call workflow)
    cases add_triggers_same_iff cronError m call workflow s.tasks with
    | inl hfail =>
      obtain ⟨point, error, tasks, hstart, hadd, htasks, hstood⟩ := hfail
      rw [hstart, hadd]
      refine .inl ⟨point, error, rfl, rfl, ?_⟩
      rw [hstood, ← hrows, ← htasks, hid]
      exact ⟨fun h => ⟨h.webhooks, h.tasks⟩, fun h => ⟨h.1, h.2⟩⟩
    | inr hstarted =>
      obtain ⟨hstart, added, tasks, hadd, htasks⟩ := hstarted
      rw [hstart, hadd, Option.none_or]
      dsimp only
      obtain ⟨hkeptRows, hkeptTasks, hcase⟩ := finish_spec call workflow
        { s with rows := storeAll (call.allRows m workflow) s.rows, tasks := tasks }
      generalize finish call workflow _ = r at hkeptRows hkeptTasks hcase
      obtain ⟨result, last⟩ := r
      dsimp only at hkeptRows hkeptTasks hcase
      cases hcase with
      | inl hfail =>
        obtain ⟨error, hfinish, rfl⟩ := hfail
        refine .inl ⟨.finishing, error, hfinish, rfl, ?_⟩
        have hkeep : FailurePoint.finishing.KeepsRows m call workflow s.rows ↔
            Stood (call.allRows m workflow) s.rows := .rfl
        rw [hkeep, ← hrows, ← htasks, hid, ← hkeptRows, ← hkeptTasks]
        exact ⟨fun h => ⟨h.webhooks, h.tasks⟩, fun h => ⟨h.1, h.2⟩⟩
      | inr hdone =>
        obtain ⟨hfinish, rfl⟩ := hdone
        exact .inr ⟨hfinish, _, rfl⟩

theorem db_workflow_id {call : AddCall} {workflow : ManagedWorkflow}
    (h : call.dbWorkflow = .ok (some workflow)) : workflow.id = call.workflowId := by
  unfold AddCall.dbWorkflow at h
  cases hexisting : call.existingWorkflow with
  | none =>
    rw [hexisting] at h
    exact call.found_id workflow h
  | some existing =>
    rw [hexisting] at h
    cases h
    exact call.existing_id workflow hexisting

theorem try_add_unchanged_iff (s : Registrations) :
    (∀ error, (tryAdd cronError m call s).1 = .error error →
        Unchanged call.workflowId s (tryAdd cronError m call s).2) ↔
      ∀ workflow, call.dbWorkflow = .ok (some workflow) → call.skips workflow = false →
        workflow.checkIfWorkflowCanBeActivated startingNodes = true → call.getBase = none →
          ∀ point, failurePoint cronError m call workflow = some point →
            point.KeepsRows m call workflow s.rows ∧
              point.KeepsTasks cronError m workflow.activation s.tasks := by
  unfold tryAdd
  cases hworkflow : call.dbWorkflow with
  | error error => exact iff_of_true (fun _ _ => .refl _ s) (fun _ h => by cases h)
  | ok found =>
    cases found with
    | none => exact iff_of_true (fun _ _ => .refl _ s) (fun _ h => by cases h)
    | some workflow =>
      have honly {P : ManagedWorkflow → Prop} :
          (∀ other, Except.ok (some workflow) = (.ok (some other) : Except ThrownError _) →
            P other) ↔ P workflow :=
        ⟨fun h => h workflow rfl, fun h other heq => by cases heq; exact h⟩
      rw [honly]
      dsimp only
      cases hskips : call.skips workflow with
      | true => exact iff_of_true (fun _ _ => .refl _ s) (fun h => by cases h)
      | false =>
        cases hstarts : workflow.checkIfWorkflowCanBeActivated startingNodes with
        | false => exact iff_of_true (fun _ _ => .refl _ s) (fun _ h => by cases h)
        | true =>
          cases hbase : call.getBase with
          | some error => exact iff_of_true (fun _ _ => .refl _ s) (fun _ _ h => by cases h)
          | none =>
            simp only [Bool.not_true, Bool.false_eq_true, if_false, forall_const]
            cases register_unchanged_iff cronError m call workflow
              (db_workflow_id hworkflow) s with
            | inl hfail =>
              obtain ⟨point, error, hpoint, herror, hunchanged⟩ := hfail
              rw [hpoint]
              refine ⟨fun hevery point heq => ?_, fun hclean _ _ => ?_⟩
              · cases heq
                exact hunchanged.mp (hevery error herror)
              · exact hunchanged.mpr (hclean point rfl)
            | inr hdone =>
              obtain ⟨hpoint, added, hadded⟩ := hdone
              rw [hpoint, hadded]
              exact iff_of_true (fun _ h => by cases h) (fun _ h => by cases h)

/-- Whenever `add` throws, the webhooks, triggers and polls of the workflow are registered as before
the call, exactly when the call fails cleanly. -/
theorem all_or_nothing_iff (s : Registrations) :
    (∀ error, (add cronError m call s).1 = .error error →
        Unchanged call.workflowId s (add cronError m call s).2) ↔
      FailsCleanly cronError m call s := by
  unfold add FailsCleanly
  cases m.isMultiMain && call.shouldPublish with
  | true => exact iff_of_true (fun _ h => by cases h) (fun h => by cases h)
  | false =>
    simp only [Bool.false_eq_true, if_false, forall_const]
    rw [← try_add_unchanged_iff]
    generalize tryAdd cronError m call s = r
    obtain ⟨result, last⟩ := r
    cases result with
    | ok added => exact iff_of_true (fun _ h => by cases h) (fun _ h => by cases h)
    | error error =>
      -- The registered message and its own failure change neither of the three.
      cases call.register with
      | some registerError =>
        exact ⟨fun h _ _ => h registerError rfl, fun h _ _ => h error rfl⟩
      | none =>
        refine ⟨fun h _ _ => ?_, fun h _ _ => ?_⟩
        · have hunchanged := h error rfl
          exact ⟨hunchanged.webhooks, hunchanged.tasks⟩
        · have hunchanged := h error rfl
          exact ⟨hunchanged.webhooks, hunchanged.tasks⟩

end Registrations

end Registering

/-- A webhook node whose webhook is stored and created. -/
def webhookNode : ManagedNode where
  name := "Webhook".toList
  disabled := false
  trigger := none
  poll := none
  type := "n8n-nodes-base.webhook".toList
  typeName := "webhook".toList
  receivesWebhooks := true
  webhookId := none
  webhooks := .ok [⟨.get, "orders".toList, none, none⟩]

/-- A trigger node whose trigger function throws. -/
def brokenTriggerNode : ManagedNode where
  name := "Postgres Trigger".toList
  disabled := false
  trigger := some ⟨[], .throws "Connection refused".toList⟩
  poll := none
  type := "n8n-nodes-base.postgresTrigger".toList
  typeName := "postgresTrigger".toList
  receivesWebhooks := false
  webhookId := none
  webhooks := .ok []

/-- A user activates a workflow with both nodes, and every request succeeds. -/
def activateOrders : AddCall where
  workflowId := ['w']
  activationMode := .activate
  existingWorkflow := none
  shouldPublish := true
  findById := .ok (some ⟨['w'], "Orders".toList, true, [webhookNode, brokenTriggerNode]⟩)
  getBase := none
  clearWebhooks := none
  populateCache := none
  deregister := none
  updateWorkflowTriggerCount := none
  register := none
  existing_id := by rintro _ ⟨⟩
  found_id := by
    rintro workflow ⟨⟩
    rfl

/-- When the trigger node fails, the webhook of the other node stays in the webhook table. -/
theorem failed_activation_keeps_webhook :
    ¬ ∀ (cronError : List Char → Option (List Char)) (m : MainInstance) (call : AddCall)
        (s : Registrations) (error : ThrownError),
      (s.add cronError m call).1 = .error error →
        Unchanged call.workflowId s (s.add cronError m call).2 := by
  intro h
  have hunchanged := h (fun _ => none) ⟨false, true⟩ activateOrders .initial
    ⟨false, "There was a problem activating the workflow: \"Connection refused\"".toList, none⟩
    (by decide +kernel)
  have hstays := (hunchanged.webhooks (.get, "orders".toList)
    ⟨['w'], "orders".toList, .get, "Webhook".toList, none, none⟩ rfl).mp (by decide +kernel)
  cases hstays

end N8n.Activation
