import Mathlib.Data.List.Sort
import N8n.Collections.InsertionMap
import N8n.Execution.Status
import N8n.Transition.Runs

/-!
# Waiting executions

`WaitTracker` of `packages/cli/src/wait-tracker.ts` polls the database for executions whose wait
ends soon, sets a timer for each of them and resumes it when the timer fires. Polls and resumptions
suspend at the database, and a resumption also in `ActiveExecutions.add`, where it waits for
capacity before it clears `waitTill`. Times are in milliseconds.
-/

namespace N8n.Waiting

open Collections

/-- A stored execution. -/
structure WaitingExecution where
  waitTill : Option Nat := none
  status : ExecutionStatus := .running
  finished : Bool := false
  workflowId : Option String := some "workflow"
  /-- How often the execution was put into waiting. -/
  waits : Nat := 0
  deriving DecidableEq, Repr

/-- What `getWaitingExecutions` selects of an execution. -/
structure PolledExecution where
  executionId : Nat
  waitTill : Nat
  deriving DecidableEq, Repr

/-- A timer that has not fired and was not cleared. -/
structure Timer where
  id : Nat
  executionId : Nat
  dueAt : Nat
  deriving DecidableEq, Repr

/-- The state of the tracker, with the timers and intervals of the process. -/
structure WaitTracker where
  /-- The timer of each execution. -/
  waitingExecutions : InsertionMap Nat Nat := .empty
  mainTimer : Option Nat := none
  timers : List Timer := []
  intervals : List Nat := []
  /-- The id of the next timer or interval. -/
  nextTimer : Nat := 0

namespace WaitTracker

variable (t : WaitTracker)

/-- `setInterval` in `startTracking()`. -/
def startTracking : WaitTracker :=
  { t with
    mainTimer := some t.nextTimer
    intervals := t.intervals ++ [t.nextTimer]
    nextTimer := t.nextTimer + 1 }

/-- One round of the loop of `getWaitingExecutions()`. -/
def setTimer (now : Nat) (execution : PolledExecution) : WaitTracker :=
  match t.waitingExecutions.get? execution.executionId with
  | some _ => t
  | none =>
    let timer : Timer :=
      { id := t.nextTimer, executionId := execution.executionId
        dueAt := max now execution.waitTill }
    { t with
      waitingExecutions := t.waitingExecutions.set execution.executionId timer.id
      timers := t.timers ++ [timer]
      nextTimer := t.nextTimer + 1 }

/-- `getWaitingExecutions()` after its `await`. -/
def setTimers (now : Nat) (executions : List PolledExecution) : WaitTracker :=
  executions.foldl (fun t execution => t.setTimer now execution) t

/-- `stopExecution(executionId)`. -/
def stopExecution (executionId : Nat) : WaitTracker :=
  match t.waitingExecutions.get? executionId with
  | none => t
  | some timer =>
    { t with
      timers := t.timers.filter (·.id ≠ timer)
      waitingExecutions := t.waitingExecutions.delete executionId }

/-- `stopTracking()`. -/
def stopTracking : WaitTracker :=
  match t.mainTimer with
  | none => t
  | some mainTimer =>
    { t with
      intervals := t.intervals.filter (· ≠ mainTimer)
      timers := t.timers.filter (·.id ∉ t.waitingExecutions.values) }

end WaitTracker

/-- Where a call of `getWaitingExecutions` stands. -/
inductive Poll where
  /-- Awaits the repository. -/
  | querying
  | returned (executions : List PolledExecution)
  deriving DecidableEq, Repr

/-- Where a call of `startExecution` stands. -/
inductive StartPhase where
  /-- Awaits `findSingleExecution`. -/
  | findingExecution
  /-- Awaits `getWorkflowProjectCached`. -/
  | findingProject
  /-- Awaits `throttle` in `ActiveExecutions.add`. -/
  | throttled
  /-- Awaits `updateExistingExecution` in `ActiveExecutions.add`. -/
  | updating
  deriving DecidableEq, Repr

/-- A call of `startExecution`. -/
structure Start where
  executionId : Nat
  phase : StartPhase := .findingExecution
  deriving DecidableEq, Repr

/-- The database, the tracker and its suspended calls. -/
structure WaitState where
  now : Nat := 0
  /-- The id of an execution is its position. -/
  executions : List WaitingExecution := []
  tracker : WaitTracker := {}
  /-- `startTracking` was called, and `stopTracking` not since then. -/
  tracking : Bool := false
  polls : List Poll := []
  starts : List Start := []
  /-- The calls of `WorkflowRunner.run`, each with the wait of the execution at that moment. -/
  runs : List (Nat × Nat) := []

/-- What happens in the process and in the database. -/
inductive WaitEvent where
  | elapse (duration : Nat)
  | createExecution (workflowId : Option String)
  | putIntoWaiting (executionId waitTill : Nat)
  | finish (executionId : Nat) (status : ExecutionStatus) (finished : Bool)
  | startTracking
  | stopTracking
  | stopExecution (executionId : Nat)
  /-- `startExecution` is called from elsewhere, for the parent of an execution that has ended. -/
  | startExecution (executionId : Nat)
  | intervalFires (interval : Nat)
  | timerFires (timer : Nat)
  /-- The repository answers a poll. -/
  | query (poll : Nat)
  /-- A poll goes on with the answer. -/
  | returnPoll (poll : Nat)
  | failPoll (poll : Nat)
  /-- A call of `startExecution` goes on after its `await`. -/
  | goOn (start : Nat)
  | failStart (start : Nat)
  deriving DecidableEq, Repr

namespace WaitState

variable (s : WaitState)

/-- A stored execution. -/
def execution (executionId : Nat) : WaitingExecution := s.executions.getD executionId {}

/-- Change a stored execution. -/
def update (executionId : Nat) (f : WaitingExecution → WaitingExecution) : WaitState :=
  { s with executions := s.executions.modify executionId f }

/-- `getWaitingExecutions` of the repository. -/
def getWaitingExecutions : List PolledExecution :=
  let found := (List.range s.executions.length).filterMap fun executionId =>
    match (s.execution executionId).waitTill with
    | none => none
    | some waitTill =>
      if waitTill ≤ s.now + 70000 ∧ (s.execution executionId).status ≠ .crashed then
        some { executionId := executionId, waitTill := waitTill : PolledExecution }
      else none
  found.insertionSort fun e e' => e.waitTill ≤ e'.waitTill

/-- `startExecution(executionId)` up to its first `await`. -/
def startExecution (executionId : Nat) : WaitState :=
  { s with
    tracker := { s.tracker with
      waitingExecutions := s.tracker.waitingExecutions.delete executionId }
    starts := s.starts ++ [{ executionId := executionId }] }

/-- The checks of `startExecution` on the execution that it finds. -/
def checkExecution : Option WaitingExecution → Except String Unit
  | none => .error "Execution does not exist."
  | some execution =>
    if execution.finished then
      .error "The execution did succeed and can so not be started again."
    else if execution.workflowId.isNone then .error "Only saved workflows can be resumed."
    else .ok ()

/-- A call of `startExecution` suspends again. -/
def suspend (start : Nat) (call : Start) (phase : StartPhase) : WaitState :=
  { s with starts := s.starts.set start { call with phase := phase } }

/-- `WorkflowRunner.run(data, false, false, executionId)` up to the `throttle` of
`ActiveExecutions.add`. -/
def run (executionId : Nat) : WaitState :=
  { s with runs := s.runs ++ [(executionId, (s.execution executionId).waits)] }

/-- What a call of `startExecution` does after its `await`. -/
def goOn (start : Nat) : Option WaitState := do
  let call ← s.starts[start]?
  match call.phase with
  | .findingExecution =>
    match checkExecution s.executions[call.executionId]? with
    | .ok () => some (s.suspend start call .findingProject)
    | .error _ => some { s with starts := s.starts.eraseIdx start }
  | .findingProject => some ((s.run call.executionId).suspend start call .throttled)
  | .throttled => some (s.suspend start call .updating)
  | .updating =>
    let s := { s with starts := s.starts.eraseIdx start }
    some (s.update call.executionId ({ · with waitTill := none, status := .running }))

/-- The state after an event. -/
def step (s : WaitState) : WaitEvent → Option WaitState
  | .elapse duration => some { s with now := s.now + duration }
  | .createExecution workflowId =>
    let execution : WaitingExecution := { workflowId := workflowId }
    some { s with executions := s.executions ++ [execution] }
  | .putIntoWaiting executionId waitTill =>
    if (s.executions[executionId]?.any (·.status = .running)) = true then
      some (s.update executionId fun execution =>
        { execution with
          waitTill := some waitTill, status := .waiting, waits := execution.waits + 1 })
    else none
  | .finish executionId status finished =>
    if status.isInProgress ∨ status = .waiting then none
    else
      some (s.update executionId fun execution =>
        { execution with
          -- a crashed execution keeps its `waitTill`
          waitTill := if status = .crashed then execution.waitTill else none
          status := status, finished := finished })
  | .startTracking =>
    some { s with
      tracker := s.tracker.startTracking, tracking := true, polls := s.polls ++ [.querying] }
  | .stopTracking => some { s with tracker := s.tracker.stopTracking, tracking := false }
  | .stopExecution executionId => some { s with tracker := s.tracker.stopExecution executionId }
  | .startExecution executionId => some (s.startExecution executionId)
  | .intervalFires interval =>
    if interval ∈ s.tracker.intervals then some { s with polls := s.polls ++ [.querying] }
    else none
  | .timerFires timer =>
    match s.tracker.timers.find? fun t => t.id = timer && t.dueAt ≤ s.now with
    | none => none
    | some t =>
      let tracker := { s.tracker with timers := s.tracker.timers.filter (·.id ≠ timer) }
      some ({ s with tracker := tracker }.startExecution t.executionId)
  | .query poll =>
    match s.polls[poll]? with
    | some .querying =>
      some { s with polls := s.polls.set poll (.returned s.getWaitingExecutions) }
    | _ => none
  | .returnPoll poll =>
    match s.polls[poll]? with
    | some (.returned executions) =>
      some { s with
        polls := s.polls.eraseIdx poll, tracker := s.tracker.setTimers s.now executions }
    | _ => none
  | .failPoll poll => some { s with polls := s.polls.eraseIdx poll }
  | .goOn start => s.goOn start
  | .failStart start => some { s with starts := s.starts.eraseIdx start }

end WaitState

end N8n.Waiting
