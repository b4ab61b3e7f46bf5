import Mathlib.Logic.Function.Basic
import N8n.Concurrency.Limit
import N8n.Execution.Status
import N8n.Workflow.Types

/-!
# Active executions

`ActiveExecutions.add` starts an execution under the limits of `ConcurrencyControlService`: it
creates or updates the row of the execution, waits for a slot in between, and at its end hands the
slot's release to the settling of a promise. The calls that are under way go on when the database
answers or a slot becomes free. `held` follows who has a slot, and `releasedTwice` collects the
releases of slots that were not held.
-/

namespace N8n.Concurrency

open Collections

/-- The types of queues. -/
inductive ConcurrencyQueueType where
  | production
  | evaluation
  deriving DecidableEq, Repr

/-- The settings of `ConcurrencyControlService`. It is not constructed with a limit of `0`. -/
structure ConcurrencySettings where
  /-- `executions.mode` is `regular`, and not `queue`. -/
  regular : Bool
  limit : ConcurrencyQueueType → Int
  limit_ne_zero : ∀ type, limit type ≠ 0

namespace ConcurrencySettings

variable (c : ConcurrencySettings)

/-- The limit that the service keeps: every limit below `-1` becomes `-1`. -/
def limits (type : ConcurrencyQueueType) : Int :=
  if c.limit type < -1 then -1 else c.limit type

def isEnabled : Bool :=
  !(c.limits .production = -1 ∧ c.limits .evaluation = -1) && c.regular

/-- `getQueue(mode)`: the type of the queue, if there is one. -/
def getQueue : WorkflowExecuteMode → Option ConcurrencyQueueType
  | .error | .integrated | .cli | .internal | .manual | .retry => none
  | .webhook | .trigger => if 0 < c.limits .production then some .production else none
  | .evaluation => if 0 < c.limits .evaluation then some .evaluation else none

/-- The queue by which `throttle` and `release` limit executions of a mode. -/
def queueOf (mode : WorkflowExecuteMode) : Option ConcurrencyQueueType :=
  if c.isEnabled then c.getQueue mode else none

end ConcurrencySettings

/-- What a call of `add` awaits. -/
inductive AddPhase where
  /-- `createNewExecution`. -/
  | creating
  /-- The promise of `throttle`. -/
  | throttled (executionId : String)
  /-- `setRunning` or `updateExistingExecution`. -/
  | persisting (executionId : String)
  deriving DecidableEq, Repr

/-- The execution whose row the call writes. -/
def AddPhase.rowOf : AddPhase → Option String
  | .persisting executionId => some executionId
  | .creating | .throttled _ => none

/-- A call of `add` that is under way. -/
structure AddCall where
  mode : WorkflowExecuteMode
  phase : AddPhase
  deriving DecidableEq, Repr

/-- An execution that was added. `settled` tells whether its `postExecutePromise` is, and
`removed` whether the callback of that promise has run. -/
structure IExecutingWorkflowData where
  executionId : String
  mode : WorkflowExecuteMode
  status : ExecutionStatus
  settled : Bool
  removed : Bool
  deriving DecidableEq, Repr

/-- The state. A call and the execution object that it makes have the call's number;
`activeExecutions` refers to the objects by number. -/
structure ActiveExecutions where
  queues : ConcurrencyQueueType → ConcurrencyQueue Ticket
  calls : InsertionMap Nat AddCall
  executions : InsertionMap Nat IExecutingWorkflowData
  activeExecutions : InsertionMap String Nat
  issued : Nat
  held : List (ConcurrencyQueueType × Nat)
  releasedTwice : List Nat

/-- What happens to the active executions. -/
inductive ExecutionEvent where
  | add (mode : WorkflowExecuteMode) (executionId : Option String)
  /-- `createNewExecution` answers with an id, or fails. -/
  | created (serial : Nat) (executionId : Option String)
  /-- `setRunning` or `updateExistingExecution` answers, or fails. -/
  | persisted (serial : Nat) (ok : Bool)
  | finalizeExecution (executionId : String)
  | stopExecution (executionId : String)
  | setStatus (executionId : String) (status : ExecutionStatus)
  /-- The callback of a settled promise runs. -/
  | callback (serial : Nat)
  deriving DecidableEq, Repr

namespace ActiveExecutions

variable (c : ConcurrencySettings)

def initial : ActiveExecutions where
  queues type := .create (c.limits type)
  calls := .empty
  executions := .empty
  activeExecutions := .empty
  issued := 0
  held := []
  releasedTwice := []

/-- `throttle({ mode, executionId })`, up to the point at which the call is let through. -/
def throttle (s : ActiveExecutions) (serial : Nat) (mode : WorkflowExecuteMode)
    (executionId : String) : ActiveExecutions :=
  match c.queueOf mode with
  | none => { s with calls := s.calls.set serial ⟨mode, .persisting executionId⟩ }
  | some type =>
    let (queue, waits, _) := (s.queues type).enqueue executionId ⟨executionId, serial⟩
    { s with
      queues := Function.update s.queues type queue
      calls := s.calls.set serial
        ⟨mode, if waits then .throttled executionId else .persisting executionId⟩
      held := if waits then s.held else s.held ++ [(type, serial)] }

/-- A waiting call of `throttle` is let through. -/
def letThrough (type : ConcurrencyQueueType) (s : ActiveExecutions) (ticket : Ticket) :
    ActiveExecutions :=
  { s with
    calls := match s.calls.get? ticket.serial with
      | some call => s.calls.set ticket.serial { call with phase := .persisting ticket.executionId }
      | none => s.calls
    held := s.held ++ [(type, ticket.serial)] }

/-- `release({ mode })`, for the execution of the given number. -/
def release (s : ActiveExecutions) (serial : Nat) (mode : WorkflowExecuteMode) :
    ActiveExecutions :=
  match c.queueOf mode with
  | none => s
  | some type =>
    let (queue, effects) := (s.queues type).dequeue
    (resolved effects).foldl (letThrough type)
      { s with
        queues := Function.update s.queues type queue
        held := s.held.erase (type, serial)
        releasedTwice :=
          if (type, serial) ∈ s.held then s.releasedTwice else s.releasedTwice ++ [serial] }

/-- The last part of `add`, after which the call is over. -/
def register (s : ActiveExecutions) (serial : Nat) (mode : WorkflowExecuteMode)
    (executionId : String) : ActiveExecutions :=
  { s with
    calls := s.calls.delete serial
    executions := s.executions.set serial ⟨executionId, mode, .running, false, false⟩
    activeExecutions := s.activeExecutions.set executionId serial }

/-- The object of an active execution. -/
def getExecution (s : ActiveExecutions) (executionId : String) :
    Option (Nat × IExecutingWorkflowData) := do
  let serial ← s.activeExecutions.get? executionId
  let execution ← s.executions.get? serial
  return (serial, execution)

/-- Change an execution object. -/
def setExecution (s : ActiveExecutions) (serial : Nat) (execution : IExecutingWorkflowData) :
    ActiveExecutions :=
  { s with executions := s.executions.set serial execution }

/-- Settle the `postExecutePromise` of an execution, if it is not settled yet. -/
def settle (s : ActiveExecutions) (serial : Nat) (execution : IExecutingWorkflowData) :
    ActiveExecutions :=
  s.setExecution serial { execution with settled := true }

/-- `delete this.activeExecutions[executionId]`. -/
def removeActive (s : ActiveExecutions) (executionId : String) : ActiveExecutions :=
  { s with activeExecutions := s.activeExecutions.delete executionId }

/-- The callback of a settled promise: the slot is released and the execution is removed, unless it
waits. -/
def runCallback (s : ActiveExecutions) (serial : Nat) (execution : IExecutingWorkflowData) :
    ActiveExecutions :=
  let s := release c (s.setExecution serial { execution with removed := true }) serial
    execution.mode
  if execution.status = .waiting then s else s.removeActive execution.executionId

/-- The state after an event. -/
def step (s : ActiveExecutions) : ExecutionEvent → Option ActiveExecutions
  | .add mode none =>
    some { s with calls := s.calls.set s.issued ⟨mode, .creating⟩, issued := s.issued + 1 }
  | .add mode (some executionId) =>
    some (throttle c { s with issued := s.issued + 1 } s.issued mode executionId)
  | .created serial result =>
    match s.calls.get? serial, result with
    | some ⟨_, .creating⟩, none => some { s with calls := s.calls.delete serial }
    | some ⟨mode, .creating⟩, some executionId =>
      if c.regular then some (throttle c s serial mode executionId)
      else some (s.register serial mode executionId)
    | _, _ => none
  | .persisted serial ok =>
    match s.calls.get? serial with
    | some ⟨mode, .persisting executionId⟩ =>
      if ok then some (s.register serial mode executionId)
      else some { s with calls := s.calls.delete serial }
    | _ => none
  | .finalizeExecution executionId =>
    match s.getExecution executionId with
    | some (serial, execution) => some (s.settle serial execution)
    | none => some s
  | .stopExecution executionId =>
    match s.getExecution executionId with
    | some (serial, execution) =>
      if execution.status = .waiting then some (s.removeActive executionId)
      else some (s.settle serial execution)
    | none => some s
  | .setStatus executionId status =>
    match s.getExecution executionId with
    | some (serial, execution) => some (s.setExecution serial { execution with status := status })
    | none => some s
  | .callback serial =>
    match s.executions.get? serial with
    | some execution =>
      if execution.settled ∧ execution.removed = false then
        some (runCallback c s serial execution)
      else none
    | none => none

/-- No call of `add` is under way, no execution is active apart from those that wait with their
callback done, and no settled promise has its callback left to run. -/
structure Idle (s : ActiveExecutions) : Prop where
  notStarting : s.calls.entries = []
  notActive : ∀ executionId serial execution,
    s.getExecution executionId = some (serial, execution) → execution.removed = true
  calledBack : ∀ serial execution, s.executions.get? serial = some execution →
    execution.settled = true → execution.removed = true

/-- No slot was released twice, and when nothing is active or starting every slot is released and
the capacities are at their limits. -/
structure CapacityConserved (s : ActiveExecutions) : Prop where
  releasedOnce : s.releasedTwice = []
  backAtLimit : s.Idle → s.held = [] ∧ ∀ type, (s.queues type).capacity = c.limits type

/-- The execution object may lose its entry: its callback has run, or is going to and leaves the
entry alone, or nothing is going to settle it and it has no slot. -/
def MayDrop (execution : IExecutingWorkflowData) : Prop :=
  execution.removed = true ∨ execution.settled = true ∧ execution.status = .waiting ∨
    c.queueOf execution.mode = none ∧ execution.settled = false

/-- A new entry may be made under the id. -/
def MayReplace (s : ActiveExecutions) (executionId : String) : Prop :=
  ∀ entry ∈ s.getExecution executionId, MayDrop c entry.2

/-- The condition on an event: no query fails while the call has a slot, and no entry is replaced
or deleted whose execution still has to release its slot. -/
def KeepsSlots (s : ActiveExecutions) : ExecutionEvent → Prop
  | .created _ (some executionId) => c.regular = false → MayReplace c s executionId
  | .persisted serial true => ∀ call ∈ s.calls.get? serial,
      ∀ executionId ∈ call.phase.rowOf, MayReplace c s executionId
  | .persisted serial false => ∀ call ∈ s.calls.get? serial, c.queueOf call.mode = none
  | .stopExecution executionId => ∀ entry ∈ s.getExecution executionId,
      entry.2.status = .waiting → MayDrop c entry.2
  | .add _ _ | .created _ none | .finalizeExecution _ | .setStatus _ _ | .callback _ => True

instance (execution : IExecutingWorkflowData) : Decidable (MayDrop c execution) :=
  inferInstanceAs (Decidable (_ ∨ _ ∧ _ ∨ _ ∧ _))

instance (s : ActiveExecutions) (executionId : String) : Decidable (MayReplace c s executionId) :=
  inferInstanceAs (Decidable (∀ entry ∈ s.getExecution executionId, MayDrop c entry.2))

instance (s : ActiveExecutions) : (e : ExecutionEvent) → Decidable (KeepsSlots c s e)
  | .created _ (some executionId) =>
    inferInstanceAs (Decidable (c.regular = false → MayReplace c s executionId))
  | .persisted serial true => inferInstanceAs (Decidable (∀ call ∈ s.calls.get? serial,
      ∀ executionId ∈ call.phase.rowOf, MayReplace c s executionId))
  | .persisted serial false =>
    inferInstanceAs (Decidable (∀ call ∈ s.calls.get? serial, c.queueOf call.mode = none))
  | .stopExecution executionId => inferInstanceAs (Decidable (∀ entry ∈ s.getExecution executionId,
      entry.2.status = .waiting → MayDrop c entry.2))
  | .add _ _ | .created _ none | .finalizeExecution _ | .setStatus _ _ | .callback _ =>
    .isTrue trivial

end ActiveExecutions

end N8n.Concurrency
