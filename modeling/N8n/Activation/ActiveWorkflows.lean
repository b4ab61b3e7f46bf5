import N8n.Activation.ScheduledTasks

/-!
# Activating workflows in memory

`add` starts the trigger nodes of a workflow, lists the workflow as active, and then starts its
poll nodes; `remove` stops its jobs and closes its triggers. What the functions of a node do when
they are called is part of the node: `TriggerFunction` and `PollFunction`.
-/

namespace N8n.Activation

open Collections

/-- What a trigger function does after it registered its jobs. -/
inductive TriggerResult where
  | throws (message : List Char)
  | noResponse
  | response (closes : Bool)
  deriving DecidableEq, Repr

/-- The jobs a trigger function registers, and its result when all of them were taken. -/
structure TriggerFunction where
  crons : List Cron
  result : TriggerResult
  deriving DecidableEq, Repr

/-- A poll time with the random numbers that are drawn for it. -/
structure PollTime where
  time : TriggerTime
  randomSecond : Nat
  randomMinute : Nat
  deriving DecidableEq, Repr

/-- The job of a poll time. -/
def PollTime.cron (t : PollTime) : Cron :=
  ⟨toCronExpression t.randomSecond t.randomMinute t.time, none⟩

/-- Does the expression ask for a job that runs more often than every minute? -/
def tooShort (expression : List Char) : Bool :=
  ((expression.splitOn ' ').headD []).contains '*'

/-- The poll times of a node, unless reading them fails, the jobs its poll function registers, and
the error it then throws, if any. -/
structure PollFunction where
  pollTimes : Except (List Char) (List PollTime)
  crons : List Cron
  throws : Option (List Char)

/-- A node with the functions of its type. -/
structure ActivationNode where
  name : List Char
  disabled : Bool
  trigger : Option TriggerFunction
  poll : Option PollFunction

structure ActivationWorkflow where
  id : WorkflowId
  nodes : List ActivationNode

namespace ActivationWorkflow

def getTriggerNodes (workflow : ActivationWorkflow) : List ActivationNode :=
  workflow.nodes.filter fun node => !node.disabled && node.trigger.isSome

def getPollNodes (workflow : ActivationWorkflow) : List ActivationNode :=
  workflow.nodes.filter fun node => !node.disabled && node.poll.isSome

end ActivationWorkflow

/-- The error of an activation, with the node that caused it. -/
structure WorkflowActivationError where
  message : List Char
  node : List Char
  deriving DecidableEq, Repr

def WorkflowActivationError.of (message : List Char) (node : ActivationNode) :
    WorkflowActivationError :=
  ⟨"There was a problem activating the workflow: \"".toList ++ message ++ ['"'], node.name⟩

namespace TaskState

section

variable (cronError : List Char → Option (List Char))

/-- Call the trigger function of a node. -/
def runTrigger (workflowId : WorkflowId) (manual : Bool) (node : ActivationNode) (s : TaskState) :
    Except (List Char) (Option TriggerResponse) × TaskState :=
  match node.trigger with
  | none => (.error "Node type does not have a trigger function defined".toList, s)
  | some trigger =>
    match s.registerCrons cronError workflowId trigger.crons with
    | (.error message, s) => (.error message, s)
    | (.ok (), s) =>
      match trigger.result with
      | .throws message => (.error message, s)
      | .noResponse =>
        -- In manual mode the promise of the first data is set on the response.
        if manual then
          (.error
            "Cannot set properties of undefined (setting 'manualTriggerResponse')".toList, s)
        else (.ok none, s)
      | .response false => (.ok (some ⟨none⟩), s)
      | .response true =>
        (.ok (some ⟨some s.nextId⟩),
          { s with
            openTriggers := s.openTriggers ++ [s.nextId]
            nextId := s.nextId + 1 })

/-- Start trigger nodes one after the other and collect their responses. -/
def startTriggers (workflowId : WorkflowId) (manual : Bool) :
    List ActivationNode → List TriggerResponse → TaskState →
      Except WorkflowActivationError (List TriggerResponse) × TaskState
  | [], triggerResponses, s => (.ok triggerResponses, s)
  | triggerNode :: rest, triggerResponses, s =>
    match s.runTrigger cronError workflowId manual triggerNode with
    | (.error message, s) => (.error (.of message triggerNode), s)
    | (.ok none, s) => startTriggers workflowId manual rest triggerResponses s
    | (.ok (some triggerResponse), s) =>
      startTriggers workflowId manual rest (triggerResponses ++ [triggerResponse]) s

/-- Call the poll function of a node. -/
def runPoll (workflowId : WorkflowId) (poll : PollFunction) (s : TaskState) :
    Except (List Char) Unit × TaskState :=
  match s.registerCrons cronError workflowId poll.crons with
  | (.error message, s) => (.error message, s)
  | (.ok (), s) =>
    match poll.throws with
    | some message => (.error message, s)
    | none => (.ok (), s)

/-- Register a job of a node's poll times, unless it would run too often. -/
def registerPollTime (workflowId : WorkflowId) (cron : Cron) (s : TaskState) :
    Except (List Char) Unit × TaskState :=
  if tooShort cron.expression then
    (.error "The polling interval is too short. It has to be at least a minute.".toList, s)
  else s.registerCron cronError workflowId cron

/-- Activate the polling of a node. -/
def activatePolling (workflowId : WorkflowId) (node : ActivationNode) (s : TaskState) :
    Except (List Char) Unit × TaskState :=
  match node.poll with
  | none => (.error "Node type does not have a poll function defined".toList, s)
  | some poll =>
    match poll.pollTimes with
    | .error message => (.error message, s)
    | .ok pollTimes =>
      let crons := pollTimes.map PollTime.cron
      match s.runPoll cronError workflowId poll with
      | (.error message, s) => (.error message, s)
      | (.ok (), s) => forEach (registerPollTime cronError workflowId) crons s

/-- Start poll nodes one after the other. -/
def startPolling (workflowId : WorkflowId) (triggerResponses : List TriggerResponse) :
    List ActivationNode → TaskState → Except WorkflowActivationError Unit × TaskState
  | [], s => (.ok (), s)
  | pollNode :: rest, s =>
    match s.activatePolling cronError workflowId pollNode with
    | (.error message, s) =>
      -- The workflow is not left marked as active when it has no trigger responses.
      (.error (.of message pollNode),
        if triggerResponses = [] then
          { s with activeWorkflows := s.activeWorkflows.delete workflowId }
        else s)
    | (.ok (), s) => startPolling workflowId triggerResponses rest s

/-- Make a workflow active. -/
def add (workflow : ActivationWorkflow) (manual : Bool) (s : TaskState) :
    Except WorkflowActivationError Unit × TaskState :=
  match s.startTriggers cronError workflow.id manual workflow.getTriggerNodes [] with
  | (.error error, s) => (.error error, s)
  | (.ok triggerResponses, s) =>
    let s := { s with activeWorkflows := s.activeWorkflows.set workflow.id triggerResponses }
    s.startPolling cronError workflow.id triggerResponses workflow.getPollNodes

end

def isActive (s : TaskState) (workflowId : WorkflowId) : Bool := s.activeWorkflows.has workflowId

end TaskState

/-- What a close function does: it closes its trigger, or fails with a `TriggerCloseError` or with
another error. -/
inductive CloseOutcome where
  | closed
  | triggerCloseError
  | otherError (message : List Char)
  deriving DecidableEq, Repr

/-- The error of a deactivation. -/
structure WorkflowDeactivationError where
  message : List Char
  workflowId : WorkflowId
  deriving DecidableEq, Repr

namespace TaskState

section

variable (closing : Nat → CloseOutcome)

/-- Close a trigger. -/
def closeTrigger (workflowId : WorkflowId) (response : TriggerResponse) (s : TaskState) :
    Except WorkflowDeactivationError Unit × TaskState :=
  match response.closeFunction with
  | none => (.ok (), s)
  | some trigger =>
    match closing trigger with
    | .closed => (.ok (), { s with openTriggers := s.openTriggers.filter (· ≠ trigger) })
    | .triggerCloseError => (.ok (), s)
    | .otherError message =>
      (.error
        ⟨"Failed to deactivate trigger of workflow ID \"".toList ++ workflowId ++
          "\": \"".toList ++ message ++ ['"'], workflowId⟩, s)

/-- Close triggers one after the other. -/
def closeTriggers (workflowId : WorkflowId) (responses : List TriggerResponse) (s : TaskState) :
    Except WorkflowDeactivationError Unit × TaskState :=
  forEach (closeTrigger closing workflowId) responses s

/-- Make a workflow inactive; the result tells whether it was active. -/
def remove (workflowId : WorkflowId) (s : TaskState) :
    Except WorkflowDeactivationError Bool × TaskState :=
  match s.activeWorkflows.get? workflowId with
  | none => (.ok false, s)
  | some triggerResponses =>
    match (s.deregisterCrons workflowId).closeTriggers closing workflowId triggerResponses with
    | (.error error, s) => (.error error, s)
    | (.ok (), s) =>
      (.ok true, { s with activeWorkflows := s.activeWorkflows.delete workflowId })

end

end TaskState

end N8n.Activation
