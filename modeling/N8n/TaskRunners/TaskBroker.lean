import N8n.Collections.InsertionMap

/-!
# The task broker

`TaskBroker` of `packages/cli/src/task-runners/task-broker/task-broker.service.ts` matches the task
offers of runners with the task requests of requesters. An `async` method runs until it awaits: a
call of `acceptOffer` is an `Attempt` with a phase for each `await`, and the other methods that go
on after an `await` are `Handler`s. `step` is the reaction of the broker to a message, a timer or
the end of an `await`, in any order.

Objects that are shared and changed in place are kept in lists, and lists of them hold their
positions there. A task id is the number of the call of `acceptOffer` that makes it. The data, the
settings and the errors that messages carry are passed on unread and left out.
-/

namespace N8n.TaskRunners

open Collections

/-- An offer of a runner to run a task. -/
structure TaskOffer where
  offerId : String
  runnerId : String
  taskType : String
  /-- How long the offer is valid for in milliseconds, `-1` for one that does not expire. -/
  validFor : Int
  validUntil : Int
  deriving DecidableEq, Repr, Inhabited

/-- A request to run a task. -/
structure TaskRequest where
  requestId : String
  requesterId : String
  taskType : String
  acceptInProgress : Bool := false
  deriving DecidableEq, Repr, Inhabited

/-- A task that a runner has accepted. -/
structure Task where
  taskType : String
  runnerId : String
  requesterId : String
  deriving DecidableEq, Repr

/-- How the promise of `acceptOffer` for the answer of the runner is settled. -/
inductive RunnerAnswer where
  | accepted
  | rejected (reason : String)
  | deferred
  | timedOut
  deriving DecidableEq, Repr

/-- How the promise of `acceptOffer` for the settings of the task is settled. -/
inductive SettingsAnswer where
  | received
  | timedOut
  deriving DecidableEq, Repr

/-- Where a call of `acceptOffer` stands. -/
inductive AcceptPhase where
  /-- Awaits that the runner is told that its offer is accepted. -/
  | messagingRunner
  /-- Awaits the answer of the runner. -/
  | waitingForRunner
  /-- Ended without a task. -/
  | failed
  /-- Awaits that the requester is told that its task is ready. -/
  | messagingRequester
  /-- Awaits the settings of the task. -/
  | waitingForSettings
  /-- Awaits `getRunnerOrFailTask` in `sendTaskSettings`. -/
  | gettingRunner
  /-- Awaits that the runner is sent the settings. -/
  | sendingSettings
  /-- Ended after the task was made. -/
  | ended
  deriving DecidableEq, Repr

/-- A call of `acceptOffer`. -/
structure Attempt where
  offer : Nat
  request : Nat
  phase : AcceptPhase := .messagingRunner
  answer : Option RunnerAnswer := none
  settings : Option SettingsAnswer := none
  deriving DecidableEq, Repr

/-- A method that goes on after an `await`. -/
inductive Handler where
  /-- `taskDoneHandler` or `taskErrorHandler`, which deletes the task after messaging the
  requester. -/
  | finishing (taskId : Nat)
  /-- `handleTaskTimeout`, which calls `taskErrorHandler` after messaging the runner. -/
  | timingOut (taskId : Nat)
  deriving DecidableEq, Repr

/-- The messages to a runner that matter to the life of a task. -/
inductive ToRunner where
  | runnerRegistered
  | taskOfferAccept (offerId : String) (taskId : Nat)
  | taskCancel (taskId : Nat) (reason : String)
  | taskSettings (taskId : Nat)
  deriving DecidableEq, Repr

/-- The messages to a requester that matter to the life of a task. -/
inductive ToRequester where
  | taskReady (requestId : String) (taskId : Nat)
  | taskDone (taskId : Nat)
  | taskError (taskId : Nat)
  deriving DecidableEq, Repr

/-- The messages of a runner. -/
inductive RunnerMessage where
  | taskAccepted (taskId : Nat)
  | taskRejected (taskId : Nat) (reason : String)
  | taskDeferred (taskId : Nat)
  | taskOffer (offerId taskType : String) (validFor : Int)
  | taskDone (taskId : Nat)
  | taskError (taskId : Nat)
  /-- Requests for data or node types and remote calls, which are passed on. -/
  | forwarded (taskId : Nat)
  deriving DecidableEq, Repr

/-- The messages of a requester. -/
inductive RequesterMessage where
  | taskSettings (taskId : Nat)
  | taskCancel (taskId : Nat) (reason : String)
  | taskRequest (requestId taskType : String)
  /-- Responses to forwarded requests, which are passed on to the runner of the task. -/
  | response (taskId : Nat)
  deriving DecidableEq, Repr

/-- `taskRunnersConfig.mode`. -/
inductive TaskRunnerMode where
  | internal
  | external
  deriving DecidableEq, Repr

/-- The state of the broker, with the time of `process.hrtime` in nanoseconds and the messages that
it has sent. -/
structure TaskBroker where
  now : Nat := 0
  knownRunners : List String := []
  requesters : List String := []
  /-- All request objects. -/
  requests : List TaskRequest := []
  /-- All offer objects. -/
  offers : List TaskOffer := []
  pendingTaskRequests : List Nat := []
  pendingTaskOffers : List Nat := []
  /-- The calls of `acceptOffer`. The entry of a call in `runnerAcceptRejects` goes when its
  promise is settled by a message, and a settled promise ignores what comes later. -/
  attempts : List Attempt := []
  tasks : InsertionMap Nat Task := .empty
  /-- The tasks whose `timeout` may still fire. -/
  timers : List Nat := []
  handlers : List Handler := []
  toRunners : List (String × ToRunner) := []
  toRequesters : List (String × ToRequester) := []
  /-- The tasks for which `runner:timed-out-during-task` was emitted. -/
  timedOutDuringTask : List Nat := []

namespace TaskBroker

variable (b : TaskBroker)

/-- The request object at a position. -/
def request (requestRef : Nat) : TaskRequest := b.requests.getD requestRef default

/-- The offer object at a position. -/
def offer (offerRef : Nat) : TaskOffer := b.offers.getD offerRef default

section Messages

/-- `messageRunner(runnerId, message)`. -/
def messageRunner (runnerId : String) (message : ToRunner) : TaskBroker :=
  if runnerId ∈ b.knownRunners then { b with toRunners := b.toRunners ++ [(runnerId, message)] }
  else b

/-- `messageRequester(requesterId, message)`. -/
def messageRequester (requesterId : String) (message : ToRequester) : TaskBroker :=
  if requesterId ∈ b.requesters then
    { b with toRequesters := b.toRequesters ++ [(requesterId, message)] }
  else b

end Messages

section Settling

/-- The offer is expired, as `expireTasks` checks it. -/
def expired (offerRef : Nat) : Bool :=
  (b.offer offerRef).validFor ≠ -1 && (b.offer offerRef).validUntil < b.now

/-- `expireTasks()`. -/
def expireTasks : TaskBroker :=
  { b with pendingTaskOffers := b.pendingTaskOffers.filter fun o => !b.expired o }

/-- Change a request object. -/
def setAcceptInProgress (requestRef : Nat) (acceptInProgress : Bool) : TaskBroker :=
  { b with requests :=
      b.requests.modify requestRef fun r => { r with acceptInProgress := acceptInProgress } }

/-- `acceptOffer(offer, request)` up to its first `await`. -/
def acceptOffer (offerRef requestRef : Nat) : TaskBroker :=
  let taskId := b.attempts.length
  let attempt : Attempt := { offer := offerRef, request := requestRef }
  let b : TaskBroker := { b with attempts := b.attempts ++ [attempt] }
  b.messageRunner (b.offer offerRef).runnerId
    (.taskOfferAccept (b.offer offerRef).offerId taskId)

/-- One round of the loop of `settleTasks`. -/
def settleRequest (requestRef : Nat) : TaskBroker :=
  if (b.request requestRef).acceptInProgress then b
  else
    match b.pendingTaskOffers.find? fun o =>
        (b.offer o).taskType = (b.request requestRef).taskType with
    | none => b
    | some offerRef =>
      let b := b.setAcceptInProgress requestRef true
      let b := { b with pendingTaskOffers := b.pendingTaskOffers.erase offerRef }
      b.acceptOffer offerRef requestRef

/-- `settleTasks()`. -/
def settleTasks : TaskBroker :=
  b.expireTasks.pendingTaskRequests.foldl settleRequest b.expireTasks

/-- `taskRequested(request)`. -/
def taskRequested (request : TaskRequest) : TaskBroker :=
  settleTasks
    { b with
      requests := b.requests ++ [request]
      pendingTaskRequests := b.pendingTaskRequests ++ [b.requests.length] }

/-- `taskOffered(offer)`. -/
def taskOffered (offer : TaskOffer) : TaskBroker :=
  settleTasks
    { b with
      offers := b.offers ++ [offer]
      pendingTaskOffers := b.pendingTaskOffers ++ [b.offers.length] }

end Settling

section Tasks

/-- `cancelTask(taskId, reason)`, which does nothing after its `await`. -/
def cancelTask (taskId : Nat) (reason : String) : TaskBroker :=
  match b.tasks.get? taskId with
  | none => b
  | some task =>
    let b := { b with tasks := b.tasks.delete taskId }
    b.messageRunner task.runnerId (.taskCancel taskId reason)

/-- `failTask(taskId, error)`, which does nothing after its `await`. -/
def failTask (taskId : Nat) : TaskBroker :=
  match b.tasks.get? taskId with
  | none => b
  | some task =>
    let b := { b with tasks := b.tasks.delete taskId }
    b.messageRequester task.requesterId (.taskError taskId)

/-- `taskDoneHandler` and `taskErrorHandler` up to their `await`, with the message that they
send. -/
def finishTask (message : Nat → ToRequester) (taskId : Nat) : TaskBroker :=
  match b.tasks.get? taskId with
  | none => b
  | some task =>
    let b : TaskBroker := { b with
      timers := b.timers.filter (· ≠ taskId)
      handlers := b.handlers ++ [.finishing taskId] }
    b.messageRequester task.requesterId (message taskId)

/-- `taskDoneHandler(taskId, data)`. -/
def taskDoneHandler (taskId : Nat) : TaskBroker := b.finishTask .taskDone taskId

/-- `taskErrorHandler(taskId, error)`. -/
def taskErrorHandler (taskId : Nat) : TaskBroker := b.finishTask .taskError taskId

/-- `handleTaskTimeout(taskId)` up to its `await`, when the timer of the task fires. -/
def handleTaskTimeout (mode : TaskRunnerMode) (taskId : Nat) : TaskBroker :=
  let b := { b with timers := b.timers.filter (· ≠ taskId) }
  match b.tasks.get? taskId with
  | none => b
  | some task =>
    match mode with
    | .internal =>
      let b := { b with timedOutDuringTask := b.timedOutDuringTask ++ [taskId] }
      b.taskErrorHandler taskId
    | .external =>
      let b : TaskBroker := { b with handlers := b.handlers ++ [.timingOut taskId] }
      b.messageRunner task.runnerId (.taskCancel taskId "Task execution timed out")

/-- What a handler does after its `await`. It ends there when the callback fails. -/
def resumeHandler (index : Nat) (ok : Bool) : Option TaskBroker :=
  b.handlers[index]?.map fun handler =>
    let b := { b with handlers := b.handlers.eraseIdx index }
    if ok then
      match handler with
      | .finishing taskId => { b with tasks := b.tasks.delete taskId }
      | .timingOut taskId => b.taskErrorHandler taskId
    else b

/-- `getRunnerOrFailTask(taskId)`: is there a runner of the task? -/
def getRunnerOrFailTask (taskId : Nat) : TaskBroker × Option String :=
  match b.tasks.get? taskId with
  | none => (b, none)
  | some task =>
    if task.runnerId ∈ b.knownRunners then (b, some task.runnerId) else (b.failTask taskId, none)

end Tasks

section Attempts

/-- Change a call of `acceptOffer`. -/
def setAttempt (taskId : Nat) (f : Attempt → Attempt) : TaskBroker :=
  { b with attempts := b.attempts.modify taskId f }

/-- Settle the promise for the answer of the runner. -/
def answerOffer (taskId : Nat) (answer : RunnerAnswer) : TaskBroker :=
  b.setAttempt taskId fun a => if a.answer.isNone then { a with answer := some answer } else a

/-- Settle the promise for the settings of the task, once there is one. -/
def answerSettings (taskId : Nat) (answer : SettingsAnswer) : TaskBroker :=
  b.setAttempt taskId fun a =>
    if a.settings.isNone && (a.phase = .messagingRequester || a.phase = .waitingForSettings) then
      { a with settings := some answer }
    else a

/-- The `catch` after the runner was asked. -/
def failAttempt (taskId requestRef : Nat) (deferred : Bool) : TaskBroker :=
  let b := (b.setAcceptInProgress requestRef false).setAttempt taskId ({ · with phase := .failed })
  if deferred then { b with pendingTaskRequests := b.pendingTaskRequests ++ [requestRef] } else b

/-- What follows when the runner has accepted, up to the next `await`. -/
def taskAccepted (taskId offerRef requestRef : Nat) : TaskBroker :=
  let task : Task :=
    { taskType := (b.offer offerRef).taskType, runnerId := (b.offer offerRef).runnerId
      requesterId := (b.request requestRef).requesterId }
  let b := { b with tasks := b.tasks.set taskId task }
  match b.pendingTaskRequests.findIdx? fun r =>
      (b.request r).requestId = (b.request requestRef).requestId with
  | none => b.setAttempt taskId ({ · with phase := .ended })
  | some requestIndex =>
    let b := { b with pendingTaskRequests := b.pendingTaskRequests.eraseIdx requestIndex }
    let b := b.setAttempt taskId ({ · with phase := .messagingRequester })
    b.messageRequester (b.request requestRef).requesterId
      (.taskReady (b.request requestRef).requestId taskId)

/-- The `catch` after the task was made. -/
def abandonTask (taskId : Nat) (reason : String) : TaskBroker :=
  (b.setAttempt taskId ({ · with phase := .ended })).cancelTask taskId reason

/-- `sendTaskSettings(taskId, settings)` up to its first `await`. If there is no runner, it throws
after that. -/
def sendTaskSettings (taskId : Nat) : TaskBroker :=
  match b.getRunnerOrFailTask taskId with
  | (b, some _) => b.setAttempt taskId ({ · with phase := .gettingRunner })
  | (b, none) => b.abandonTask taskId "Unknown reason"

/-- The rest of `sendTaskSettings` up to its second `await`. -/
def startTask (taskId : Nat) : TaskBroker :=
  match b.tasks.get? taskId with
  | none => b.setAttempt taskId ({ · with phase := .ended })
  | some task =>
    let b := { b with timers := b.timers ++ [taskId] }
    (b.setAttempt taskId ({ · with phase := .sendingSettings })).messageRunner task.runnerId
      (.taskSettings taskId)

/-- What a call of `acceptOffer` does after its `await`, up to the next one. `ok` says whether the
callback that it awaits has succeeded. -/
def resumeAttempt (taskId : Nat) (ok : Bool) : Option TaskBroker := do
  let a ← b.attempts[taskId]?
  match a.phase with
  | .messagingRunner =>
    if ok then some (b.setAttempt taskId ({ · with phase := .waitingForRunner }))
    else some (b.failAttempt taskId a.request false)
  | .waitingForRunner =>
    match ← a.answer with
    | .accepted => some (b.taskAccepted taskId a.offer a.request)
    | .deferred => some (b.failAttempt taskId a.request true)
    | .rejected _ | .timedOut => some (b.failAttempt taskId a.request false)
  | .messagingRequester =>
    if ok then some (b.setAttempt taskId ({ · with phase := .waitingForSettings }))
    else some (b.abandonTask taskId "Unknown reason")
  | .waitingForSettings =>
    match ← a.settings with
    | .received => some (b.sendTaskSettings taskId)
    | .timedOut => some (b.abandonTask taskId "Unknown reason")
  | .gettingRunner => some (b.startTask taskId)
  | .sendingSettings =>
    if ok then some (b.setAttempt taskId ({ · with phase := .ended }))
    else some (b.abandonTask taskId "Unknown reason")
  | .failed | .ended => none

end Attempts

section Connections

/-- `registerRunner(runner, messageCallback)`. -/
def registerRunner (runnerId : String) : TaskBroker :=
  let b := { b with knownRunners := b.knownRunners.insert runnerId }
  b.messageRunner runnerId .runnerRegistered

/-- `deregisterRunner(runnerId, error)`. The tasks of the runner have left
`runnerAcceptRejects`, so that rejecting them there changes nothing. -/
def deregisterRunner (runnerId : String) : TaskBroker :=
  let b := { b with
    knownRunners := b.knownRunners.filter (· ≠ runnerId)
    pendingTaskOffers := b.pendingTaskOffers.filter fun o => (b.offer o).runnerId ≠ runnerId }
  (b.tasks.entries.filter (·.2.runnerId = runnerId)).foldl (fun b e => b.failTask e.1) b

/-- `onRunnerMessage(runnerId, message)` up to its `await`. -/
def onRunnerMessage (runnerId : String) (message : RunnerMessage) : TaskBroker :=
  if runnerId ∉ b.knownRunners then b
  else
    match message with
    | .taskAccepted taskId => b.answerOffer taskId .accepted
    | .taskRejected taskId reason => b.answerOffer taskId (.rejected reason)
    | .taskDeferred taskId => b.answerOffer taskId .deferred
    | .taskOffer offerId taskType validFor =>
      b.taskOffered
        { offerId := offerId, runnerId := runnerId, taskType := taskType, validFor := validFor
          validUntil := if validFor = -1 then 0 else b.now + validFor * 1000000 }
    | .taskDone taskId => b.taskDoneHandler taskId
    | .taskError taskId => b.taskErrorHandler taskId
    | .forwarded _ => b

/-- `onRequesterMessage(requesterId, message)` up to its `await`. -/
def onRequesterMessage (requesterId : String) (message : RequesterMessage) : TaskBroker :=
  match message with
  | .taskSettings taskId => b.answerSettings taskId .received
  | .taskCancel taskId reason => b.cancelTask taskId reason
  | .taskRequest requestId taskType =>
    b.taskRequested { requestId := requestId, requesterId := requesterId, taskType := taskType }
  | .response taskId => (b.getRunnerOrFailTask taskId).1

end Connections

end TaskBroker

/-- What the broker reacts to. -/
inductive BrokerEvent where
  | elapse (duration : Nat)
  | registerRunner (runnerId : String)
  | deregisterRunner (runnerId : String)
  | registerRequester (requesterId : String)
  | deregisterRequester (requesterId : String)
  | runnerMessage (runnerId : String) (message : RunnerMessage)
  | requesterMessage (requesterId : String) (message : RequesterMessage)
  /-- The runner did not answer within two seconds. -/
  | acceptTimeout (taskId : Nat)
  /-- The requester did not send settings within two seconds. -/
  | settingsTimeout (taskId : Nat)
  | taskTimeout (taskId : Nat)
  | resumeAttempt (taskId : Nat) (ok : Bool)
  | resumeHandler (index : Nat) (ok : Bool)
  deriving DecidableEq, Repr

/-- The reaction of the broker to an event. -/
def TaskBroker.step (mode : TaskRunnerMode) (b : TaskBroker) : BrokerEvent → Option TaskBroker
  | .elapse duration => some { b with now := b.now + duration }
  | .registerRunner runnerId => some (b.registerRunner runnerId)
  | .deregisterRunner runnerId => some (b.deregisterRunner runnerId)
  | .registerRequester requesterId =>
    some { b with requesters := b.requesters.insert requesterId }
  | .deregisterRequester requesterId =>
    some { b with requesters := b.requesters.filter (· ≠ requesterId) }
  | .runnerMessage runnerId message => some (b.onRunnerMessage runnerId message)
  | .requesterMessage requesterId message => some (b.onRequesterMessage requesterId message)
  | .acceptTimeout taskId => some (b.answerOffer taskId .timedOut)
  | .settingsTimeout taskId => some (b.answerSettings taskId .timedOut)
  | .taskTimeout taskId =>
    if taskId ∈ b.timers then some (b.handleTaskTimeout mode taskId) else none
  | .resumeAttempt taskId ok => b.resumeAttempt taskId ok
  | .resumeHandler index ok => b.resumeHandler index ok

end N8n.TaskRunners
