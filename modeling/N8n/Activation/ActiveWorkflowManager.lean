import N8n.Activation.ActiveWorkflows
import N8n.Activation.QueuedActivations
import N8n.Webhooks.WebhookCache

/-!
# One activation from its start to its end

`ActiveWorkflowManager.add` of `packages/cli/src/active-workflow-manager.ts`: it stores the webhooks
of a workflow in the webhook table, starts its triggers and polls in memory, and catches an error
only to register its message. What the services answer during the call, and the errors with which
storing a webhook or creating it at its external service fails, are part of the call.
-/

namespace N8n.Activation

open Collections Webhooks

/-- An error that is thrown during an activation: is it a `QueryFailedError`, what is its message,
and what is its `detail`, if it has one? -/
structure ThrownError where
  queryFailed : Bool
  message : List Char
  detail : Option (List Char)
  deriving DecidableEq, Repr

/-- The instance: is it one of several mains, and is it the leader? -/
structure MainInstance where
  isMultiMain : Bool
  isLeader : Bool
  deriving DecidableEq, Repr

/-- May the instance add webhooks to the webhook table? -/
def MainInstance.shouldAddWebhooks (m : MainInstance) : WorkflowActivateMode → Bool
  | .init => true
  | .leadershipChange => false
  | _ => m.isLeader

/-- May the instance add triggers and polls to memory? -/
def MainInstance.shouldAddTriggersAndPollers (m : MainInstance) : Bool := m.isLeader

/-- A webhook of a node, and the errors with which storing it and creating it fail. -/
structure NodeWebhook where
  httpMethod : Method
  path : List Char
  storeWebhook : Option ThrownError
  createWebhookIfNotExists : Option ThrownError
  deriving DecidableEq, Repr

/-- A node with what its type says about activations. `webhooks` is an error when an expression in
them fails. -/
structure ManagedNode extends ActivationNode where
  type : List Char
  typeName : List Char
  receivesWebhooks : Bool
  webhookId : Option (List Char)
  webhooks : Except ThrownError (List NodeWebhook)

/-- A workflow of the database. -/
structure ManagedWorkflow where
  id : WorkflowId
  name : List Char
  active : Bool
  nodes : List ManagedNode

/-- Node types with which an activated workflow cannot start. -/
def startingNodes : List (List Char) :=
  ["@n8n/n8n-nodes-langchain.manualChatTrigger".toList, "n8n-nodes-base.start".toList,
    "n8n-nodes-base.manualTrigger".toList]

/-- The webhooks of a node. -/
def getNodeWebhooks (node : ManagedNode) : Except ThrownError (List (ManagedNode × NodeWebhook)) :=
  if node.disabled then .ok [] else node.webhooks.map fun webhooks => webhooks.map (node, ·)

namespace ManagedWorkflow

/-- The workflow as `ActiveWorkflows` sees it. -/
def activation (workflow : ManagedWorkflow) : ActivationWorkflow :=
  ⟨workflow.id, workflow.nodes.map ManagedNode.toActivationNode⟩

/-- `formatWorkflow`. -/
def format (workflow : ManagedWorkflow) : List Char :=
  '"' :: workflow.name ++ "\" (ID: ".toList ++ workflow.id ++ [')']

def getWorkflowWebhooks (workflow : ManagedWorkflow) :
    Except ThrownError (List (ManagedNode × NodeWebhook)) :=
  workflow.nodes.flatMapM getNodeWebhooks

/-- Has the workflow a node that starts it, apart from the given types? -/
def checkIfWorkflowCanBeActivated (workflow : ManagedWorkflow)
    (ignoreNodeTypes : List (List Char)) : Bool :=
  workflow.nodes.any fun node =>
    !node.disabled && !ignoreNodeTypes.contains node.type &&
      (node.poll.isSome || node.trigger.isSome || node.receivesWebhooks)

/-- The triggers but manual ones, the polls, and the nodes with webhooks. -/
def countTriggers (workflow : ManagedWorkflow) : Except ThrownError Nat :=
  workflow.getWorkflowWebhooks.map fun workflowWebhooks =>
    (workflow.nodes.filter fun node => !node.disabled && node.trigger.isSome &&
        decide (¬ "manualTrigger".toList <:+: node.typeName)).length +
      workflow.activation.getPollNodes.length +
      (workflowWebhooks.map (·.1.name)).dedup.length

end ManagedWorkflow

/-- The row that is stored for a webhook of a node. -/
def webhookRow (workflowId : WorkflowId) (w : ManagedNode × NodeWebhook) : WebhookEntity :=
  WebhookData.toEntity ⟨workflowId, w.1.name, w.2.httpMethod, w.2.path⟩ w.1.webhookId

abbrev WebhookRows := InsertionMap (Method × List Char) WebhookEntity

/-- What an activation reads and writes: the webhook table, the triggers and polls in memory, the
registered activation errors, and the trigger counts of the workflows. -/
structure Registrations where
  rows : WebhookRows
  tasks : TaskState
  activationErrors : InsertionMap WorkflowId (List Char)
  triggerCounts : InsertionMap WorkflowId Nat
  deriving DecidableEq, Repr

/-- A call of `add`, with what the services answer during it: an error, or `none` when the request
succeeds. -/
structure AddCall where
  workflowId : WorkflowId
  activationMode : WorkflowActivateMode
  existingWorkflow : Option ManagedWorkflow
  shouldPublish : Bool
  findById : Except ThrownError (Option ManagedWorkflow)
  getBase : Option ThrownError
  clearWebhooks : Option ThrownError
  populateCache : Option ThrownError
  deregister : Option ThrownError
  updateWorkflowTriggerCount : Option ThrownError
  register : Option ThrownError
  existing_id : ∀ workflow, existingWorkflow = some workflow → workflow.id = workflowId
  found_id : ∀ workflow, findById = .ok (some workflow) → workflow.id = workflowId

/-- Did the operation add webhooks, or triggers and polls? -/
structure Added where
  webhooks : Bool
  triggersAndPollers : Bool
  deriving DecidableEq, Repr

namespace AddCall

/-- The workflow to activate. -/
def dbWorkflow (call : AddCall) : Except ThrownError (Option ManagedWorkflow) :=
  match call.existingWorkflow with
  | some workflow => .ok (some workflow)
  | none => call.findById

/-- Is the workflow skipped because it is no longer active? -/
def skips (call : AddCall) (workflow : ManagedWorkflow) : Bool :=
  [WorkflowActivateMode.init, .leadershipChange].contains call.activationMode && !workflow.active

/-- Store a webhook and create it at its service. -/
def addWebhook (workflowId : WorkflowId) (w : ManagedNode × NodeWebhook) (rows : WebhookRows) :
    Except ThrownError Unit × WebhookRows :=
  match w.2.storeWebhook with
  | some error => (.error error, rows)
  | none =>
    let webhook := webhookRow workflowId w
    (match w.2.createWebhookIfNotExists with
      | some error => .error error
      | none => .ok (),
      rows.set webhook.primaryKey webhook)

/-- Delete the webhooks of the workflow, or fail. -/
def clearRows (call : AddCall) (rows : WebhookRows) : WebhookRows :=
  match call.clearWebhooks with
  | some _ => rows
  | none => rows.filter fun entry => entry.2.workflowId ≠ call.workflowId

/-- The error that is thrown for a webhook of the node. -/
def webhookError (node : ManagedNode) (error : ThrownError) : ThrownError :=
  if error.queryFailed then
    ⟨false, "The URL path that the \"".toList ++ node.name ++
      "\" node uses is already taken. Please change it to something else.".toList, none⟩
  else
    match error.detail.filter (· ≠ []) with
    | some detail => { error with message := detail }
    | none => error

/-- Add webhooks one after the other. -/
def addEachWebhook (call : AddCall) :
    List (ManagedNode × NodeWebhook) → WebhookRows → Except ThrownError Unit × WebhookRows
  | [], rows => (.ok (), rows)
  | w :: rest, rows =>
    match addWebhook call.workflowId w rows with
    | (.ok (), rows) => addEachWebhook call rest rows
    | (.error error, rows) =>
      -- At startup the rows of the last run may still be there.
      if call.activationMode = .init ∧ error.queryFailed = true then
        addEachWebhook call rest rows
      else (.error (webhookError w.1 error), call.clearRows rows)

/-- Register the webhooks of a workflow. -/
def addWebhooks (call : AddCall) (workflow : ManagedWorkflow) (rows : WebhookRows) :
    Except ThrownError Bool × WebhookRows :=
  match workflow.getWorkflowWebhooks with
  | .error error => (.error error, rows)
  | .ok [] => (.ok false, rows)
  | .ok webhooks =>
    match call.addEachWebhook webhooks rows with
    | (.error error, rows) => (.error error, rows)
    | (.ok (), rows) =>
      match call.populateCache with
      | some error => (.error error, rows)
      | none => (.ok true, rows)

end AddCall

section

variable (cronError : List Char → Option (List Char))

/-- Start the triggers and polls of a workflow in memory. -/
def addTriggersAndPollers (workflow : ManagedWorkflow) (tasks : TaskState) :
    Except ThrownError Bool × TaskState :=
  if workflow.activation.getTriggerNodes.length = 0 ∧
      workflow.activation.getPollNodes.length = 0 then (.ok false, tasks)
  else
    match tasks.add cronError workflow.activation false with
    | (.error error, tasks) => (.error ⟨false, error.message, none⟩, tasks)
    | (.ok (), tasks) => (.ok true, tasks)

namespace Registrations

/-- What `add` does once the workflow's webhooks, triggers and polls are registered. -/
def finish (call : AddCall) (workflow : ManagedWorkflow) (s : Registrations) :
    Except ThrownError Unit × Registrations :=
  match call.deregister with
  | some error => (.error error, s)
  | none =>
    let s := { s with activationErrors := s.activationErrors.delete call.workflowId }
    match workflow.countTriggers with
    | .error error => (.error error, s)
    | .ok triggerCount =>
      match call.updateWorkflowTriggerCount with
      | some error => (.error error, s)
      | none =>
        (.ok (), { s with triggerCounts := s.triggerCounts.set workflow.id triggerCount })

/-- Register the webhooks, triggers and polls of a workflow that can be activated. -/
def register (m : MainInstance) (call : AddCall) (workflow : ManagedWorkflow) (s : Registrations) :
    Except ThrownError Added × Registrations :=
  match (if m.shouldAddWebhooks call.activationMode then call.addWebhooks workflow s.rows
      else (.ok false, s.rows)) with
  | (.error error, rows) => (.error error, { s with rows := rows })
  | (.ok webhooks, rows) =>
    match (if m.shouldAddTriggersAndPollers then addTriggersAndPollers cronError workflow s.tasks
        else (.ok false, s.tasks)) with
    | (.error error, tasks) => (.error error, { s with rows := rows, tasks := tasks })
    | (.ok triggersAndPollers, tasks) =>
      match finish call workflow { s with rows := rows, tasks := tasks } with
      | (.error error, s) => (.error error, s)
      | (.ok (), s) => (.ok ⟨webhooks, triggersAndPollers⟩, s)

/-- What `add` does inside its `try`. -/
def tryAdd (m : MainInstance) (call : AddCall) (s : Registrations) :
    Except ThrownError Added × Registrations :=
  match call.dbWorkflow with
  | .error error => (.error error, s)
  | .ok none =>
    (.error ⟨false, "Failed to find workflow with ID \"".toList ++ call.workflowId ++ ['"'],
      none⟩, s)
  | .ok (some workflow) =>
    if call.skips workflow then (.ok ⟨false, false⟩, s)
    else if !workflow.checkIfWorkflowCanBeActivated startingNodes then
      (.error ⟨false, "Workflow ".toList ++ workflow.format ++ (" has no node to start the " ++
        "workflow - at least one trigger, poller or webhook node is required").toList, none⟩, s)
    else
      match call.getBase with
      | some error => (.error error, s)
      | none => register cronError m call workflow s

/-- Register a workflow as active. -/
def add (m : MainInstance) (call : AddCall) (s : Registrations) :
    Except ThrownError Added × Registrations :=
  if m.isMultiMain && call.shouldPublish then (.ok ⟨false, false⟩, s)
  else
    match tryAdd cronError m call s with
    | (.ok added, s) => (.ok added, s)
    | (.error error, s) =>
      match call.register with
      | some registerError => (.error registerError, s)
      | none =>
        (.error error,
          { s with
            activationErrors := s.activationErrors.set call.workflowId error.message })

/-- The state before anything was activated. -/
def initial : Registrations := ⟨.empty, ⟨.empty, .empty, [], 0⟩, .empty, .empty⟩

end Registrations

end

end N8n.Activation
