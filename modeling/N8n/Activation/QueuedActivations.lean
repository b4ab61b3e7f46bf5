import N8n.Transition.Runs

/-!
# Activations, retries and deactivations of a workflow

`ActiveWorkflowManager` registers a workflow in three places: its webhooks in the database, its
triggers and polls in memory, and, while an activation is retried, a timer in the queue of
activations; see `packages/cli/src/active-workflow-manager.ts`. `add`, the retries and `remove`
suspend at every `await`, and the events of the model are what happens between two suspensions. In
a multi-main setup `add` and `remove` publish commands, which the leader handles.

The model is about one workflow and about the process that manages its triggers: the only main, or
the leader.
-/

namespace N8n.Activation

/-- `WorkflowActivateMode`. -/
inductive WorkflowActivateMode where
  | init
  | create
  | update
  | activate
  | manual
  | leadershipChange
  deriving DecidableEq, Repr

/-- The deployment: is it a multi-main setup, and has the workflow trigger or poll nodes? -/
structure Deployment where
  multiMain : Bool
  hasTriggers : Bool
  deriving DecidableEq, Repr

/-- `shouldAddWebhooks(activationMode)` in the leader. -/
def shouldAddWebhooks : WorkflowActivateMode → Bool
  | .leadershipChange => false
  | _ => true

/-- Who called `add`: a service on request, `activateWorkflow` at startup, the retry of a queued
activation, or the handler of the published command. -/
inductive AddOrigin where
  | request
  | startup
  | retry
  | command
  deriving DecidableEq, Repr

/-- Where a call of `add` is suspended. `started` are the triggers that it opened. -/
inductive AddPoint where
  | loadingWorkflow
  | gettingBase
  | addingWebhooks
  /-- `clearWebhooks` after a webhook could not be added. -/
  | clearingWebhooks
  | startingTriggers (started : List Nat)
  | startingPolls (started : List Nat)
  /-- Deregisters the activation error and stores the trigger count and the static data. -/
  | finishing
  /-- Registers the error with which it fails. -/
  | registeringError
  deriving DecidableEq, Repr

/-- A call of `add` under way. -/
structure AddTask where
  origin : AddOrigin
  activationMode : WorkflowActivateMode
  point : AddPoint
  deriving DecidableEq, Repr

/-- Where a deactivation is suspended: a call of `remove`, or from `deregistering` on the handler of
the published command. Only the call clears the queue. -/
inductive RemovePoint where
  | clearingWebhooks
  | deregistering (clearsQueue : Bool)
  | removingTriggers (triggers : List Nat)
  deriving DecidableEq, Repr

/-- The published commands. -/
inductive ActivationCommand where
  | addWebhooksTriggersAndPollers
  | removeTriggersAndPollers
  deriving DecidableEq, Repr

/-- An entry of `queuedActivations`. -/
structure QueuedActivation where
  lastTimeout : Nat
  timeout : Nat
  deriving DecidableEq, Repr

/-- A timer that is set and will call `retryFunction`. -/
structure RetryTimer where
  id : Nat
  activationMode : WorkflowActivateMode
  deriving DecidableEq, Repr

def workflowReactivateInitialTimeout : Nat := 1000

def workflowReactivateMaxTimeout : Nat := 24 * 60 * 60 * 1000

/-- The state of the manager, for one workflow. -/
structure ManagerState where
  queuedActivation : Option QueuedActivation := none
  timers : List RetryTimer := []
  nextTimer : Nat := 0
  /-- Rows of the workflow in `webhook_entity`. -/
  webhooks : Bool := false
  openTriggers : List Nat := []
  nextTrigger : Nat := 0
  /-- Scheduled jobs of the workflow. -/
  crons : Bool := false
  /-- The triggers that `activeWorkflows` lists for the workflow, if it is active. -/
  activeWorkflow : Option (List Nat) := none
  commands : List ActivationCommand := []
  adds : List AddTask := []
  removes : List RemovePoint := []
  /-- The last deactivation has completed, and no activation was requested since. -/
  removed : Bool := false
  /-- A retry raised an error of its own. -/
  crashed : Bool := false
  deriving DecidableEq, Repr

namespace ManagerState

variable (s : ManagerState)

/-- `removeQueuedWorkflowActivation`. -/
def removeQueuedWorkflowActivation : ManagerState :=
  match s.queuedActivation with
  | none => s
  | some queued =>
    { s with
      timers := s.timers.filter (·.id ≠ queued.timeout)
      queuedActivation := none }

/-- `setTimeout(retryFunction, lastTimeout)` as the timer of the queued activation. -/
def setRetry (activationMode : WorkflowActivateMode) (lastTimeout : Nat) : ManagerState :=
  { s with
    queuedActivation := some { lastTimeout, timeout := s.nextTimer }
    timers := s.timers ++ [{ id := s.nextTimer, activationMode }]
    nextTimer := s.nextTimer + 1 }

/-- `addQueuedWorkflowActivation`. -/
def addQueuedWorkflowActivation (activationMode : WorkflowActivateMode) : ManagerState :=
  s.removeQueuedWorkflowActivation.setRetry activationMode workflowReactivateInitialTimeout

/-- The `catch` of `retryFunction`. The entry of the queue is read without a check. -/
def catchRetry (activationMode : WorkflowActivateMode) : ManagerState :=
  match s.queuedActivation with
  | none => { s with crashed := true }
  | some queued =>
    let lastTimeout :=
      if queued.lastTimeout < workflowReactivateMaxTimeout then
        min (queued.lastTimeout * 2) workflowReactivateMaxTimeout
      else queued.lastTimeout
    s.setRetry activationMode lastTimeout

/-- Let a call of `add` go on to its next suspension. -/
def goOn (i : Nat) (task : AddTask) (point : AddPoint) : ManagerState :=
  { s with adds := s.adds.set i { task with point } }

/-- A call of `add` has returned or thrown to its caller. -/
def finish (i : Nat) : ManagerState := { s with adds := s.adds.eraseIdx i }

/-- What follows the webhooks in `add`. -/
def addTriggersAndPollers (d : Deployment) (i : Nat) (task : AddTask) : ManagerState :=
  if d.hasTriggers then s.goOn i task (.startingTriggers [])
  else (s.goOn i task .finishing).removeQueuedWorkflowActivation

/-- The awaited call of `add` returns. -/
def proceedAdd (d : Deployment) (i : Nat) (task : AddTask) : ManagerState :=
  match task.point with
  | .loadingWorkflow => s.goOn i task .gettingBase
  | .gettingBase =>
    if shouldAddWebhooks task.activationMode then s.goOn i task .addingWebhooks
    else s.addTriggersAndPollers d i task
  | .addingWebhooks => s.addTriggersAndPollers d i task
  | .clearingWebhooks => { s.goOn i task .registeringError with webhooks := false }
  | .startingTriggers started =>
    { s.goOn i task (.startingPolls started) with activeWorkflow := some started }
  | .startingPolls _ => (s.goOn i task .finishing).removeQueuedWorkflowActivation
  | .finishing => s.finish i
  | .registeringError =>
    match task.origin with
    | .request => s.finish i
    | .command => s.finish i
    | .startup => (s.finish i).addQueuedWorkflowActivation .init
    | .retry => (s.finish i).catchRetry task.activationMode

/-- The awaited call of `add` throws. A failing start of the polls takes the workflow off the active
ones when it has no triggers. Whether the error can be registered makes no difference to the
caller. -/
def failAdd (i : Nat) (task : AddTask) : ManagerState :=
  match task.point with
  | .addingWebhooks => s.goOn i task .clearingWebhooks
  | .startingPolls started =>
    { s.goOn i task .registeringError with
      activeWorkflow := if started.isEmpty then none else s.activeWorkflow }
  | _ => s.goOn i task .registeringError

/-- A deactivation has completed. -/
def completeRemove (i : Nat) : ManagerState :=
  { s with removes := s.removes.eraseIdx i, removed := true }

/-- What follows `clearWebhooks` in `remove`, whether it failed or not. -/
def webhooksCleared (d : Deployment) (i : Nat) : ManagerState :=
  if d.multiMain then
    { s with
      commands := s.commands ++ [.removeTriggersAndPollers]
      removes := s.removes.eraseIdx i }
  else { s with removes := s.removes.set i (.deregistering true) }

/-- `removeWorkflowTriggersAndPollers`: stop the jobs and start to close the triggers. -/
def removeWorkflowTriggersAndPollers (i : Nat) : ManagerState :=
  match s.activeWorkflow with
  | none => s.completeRemove i
  | some triggers =>
    { s with crons := false, removes := s.removes.set i (.removingTriggers triggers) }

/-- The awaited call of a deactivation returns. The triggers in `stuck` are those whose
`closeFunction` threw a `TriggerCloseError`, which is only logged. -/
def proceedRemove (d : Deployment) (i : Nat) (stuck : List Nat) : RemovePoint → ManagerState
  | .clearingWebhooks => { s with webhooks := false }.webhooksCleared d i
  | .deregistering clearsQueue =>
    let s := if clearsQueue then s.removeQueuedWorkflowActivation else s
    s.removeWorkflowTriggersAndPollers i
  | .removingTriggers triggers =>
    { s with
      openTriggers := s.openTriggers.filter fun t => !triggers.contains t || stuck.contains t
      activeWorkflow := none }.completeRemove i

/-- The awaited call of a deactivation throws. Only an error of `clearWebhooks` is caught. -/
def failRemove (d : Deployment) (i : Nat) : RemovePoint → ManagerState
  | .clearingWebhooks => s.webhooksCleared d i
  | _ => { s with removes := s.removes.eraseIdx i }

end ManagerState

/-- What happens between two suspensions. -/
inductive ManagerEvent where
  /-- A service calls `add`. -/
  | request (activationMode : WorkflowActivateMode)
  /-- `activateWorkflow` finds the workflow active. -/
  | startup (activationMode : WorkflowActivateMode)
  /-- A trigger reports an error, and the activation is queued. -/
  | triggerError (activationMode : WorkflowActivateMode)
  | fire (timer : RetryTimer)
  /-- The leader handles the next command. -/
  | deliver
  /-- A webhook of the workflow is stored. -/
  | storeWebhook (add : Nat)
  /-- A trigger node opens a trigger. -/
  | startTrigger (add : Nat)
  /-- A trigger or poll node schedules a job. -/
  | registerCron (add : Nat)
  | proceedAdd (add : Nat)
  | failAdd (add : Nat)
  /-- An activation at startup fails with an authorization error, which is not retried. -/
  | giveUp (add : Nat)
  /-- `remove` is called. -/
  | remove
  | proceedRemove (remove : Nat) (stuck : List Nat)
  | failRemove (remove : Nat)
  deriving DecidableEq, Repr

/-- The state after an event, if it can happen. -/
def managerStep (d : Deployment) (s : ManagerState) : ManagerEvent → Option ManagerState
  | .request activationMode =>
    let s := { s with removed := false }
    if d.multiMain then
      some { s with commands := s.commands ++ [.addWebhooksTriggersAndPollers] }
    else some { s with adds := s.adds ++ [⟨.request, activationMode, .loadingWorkflow⟩] }
  | .startup activationMode =>
    some { s with
      adds := s.adds ++ [⟨.startup, activationMode, .gettingBase⟩], removed := false }
  | .triggerError activationMode =>
    some ({ s with removed := false }.addQueuedWorkflowActivation activationMode)
  | .fire timer =>
    if timer ∈ s.timers then
      let s := { s with timers := s.timers.erase timer }
      if d.multiMain then
        some { s with commands := s.commands ++ [.addWebhooksTriggersAndPollers] }
      else some { s with adds := s.adds ++ [⟨.retry, timer.activationMode, .gettingBase⟩] }
    else none
  | .deliver =>
    match s.commands with
    | [] => none
    | .addWebhooksTriggersAndPollers :: commands =>
      some { s with
        commands := commands, adds := s.adds ++ [⟨.command, .activate, .loadingWorkflow⟩] }
    | .removeTriggersAndPollers :: commands =>
      some { s with commands := commands, removes := s.removes ++ [.deregistering false] }
  | .storeWebhook i =>
    match s.adds[i]? with
    | some ⟨_, _, .addingWebhooks⟩ => some { s with webhooks := true }
    | _ => none
  | .startTrigger i =>
    match s.adds[i]? with
    | some ⟨origin, mode, .startingTriggers started⟩ =>
      some { s.goOn i ⟨origin, mode, .startingTriggers started⟩
          (.startingTriggers (started ++ [s.nextTrigger])) with
        openTriggers := s.openTriggers ++ [s.nextTrigger]
        nextTrigger := s.nextTrigger + 1 }
    | _ => none
  | .registerCron i =>
    match s.adds[i]? with
    | some ⟨_, _, .startingTriggers _⟩ => some { s with crons := true }
    | some ⟨_, _, .startingPolls _⟩ => some { s with crons := true }
    | _ => none
  | .proceedAdd i => (s.adds[i]?).map (s.proceedAdd d i)
  | .failAdd i => (s.adds[i]?).map (s.failAdd i)
  | .giveUp i =>
    match s.adds[i]? with
    | some ⟨.startup, _, .registeringError⟩ => some (s.finish i)
    | _ => none
  | .remove => some { s with removes := s.removes ++ [.clearingWebhooks] }
  | .proceedRemove i stuck => (s.removes[i]?).map (s.proceedRemove d i stuck)
  | .failRemove i => (s.removes[i]?).map (s.failRemove d i)

/-- Nothing of the workflow is registered. -/
structure ManagerState.Inactive (s : ManagerState) : Prop where
  webhooks : s.webhooks = false
  openTriggers : s.openTriggers = []
  crons : s.crons = false
  activeWorkflow : s.activeWorkflow = none

/-- A deactivated workflow stays so, and no retry has raised an error of its own. -/
def ManagerState.DeactivationWins (s : ManagerState) : Prop :=
  (s.removed = true → s.Inactive) ∧ s.crashed = false

end N8n.Activation
