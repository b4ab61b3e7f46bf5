import N8n.Transition.Runs

/-!
# The collection of insights

The events of finished executions are buffered, and flushes of the buffer save them to the database.
A flush takes all the buffered events, saves the metadata of their workflows and inserts the events;
if it fails, it puts them back. A shutdown waits for the flushes in progress and for one of its own.
See `shutdown`, `handleWorkflowExecuteAfter`, `saveInsightsMetadataAndRaw` and `flushEvents` of
`packages/cli/src/modules/insights/insights-collection.service.ts`. An insertion of rows that fails
inserts none.
-/

namespace N8n.Insights

/-- `TypeUnit`. -/
inductive TypeUnit where
  | timeSavedMin
  | runtimeMs
  | success
  | failure
  deriving DecidableEq, Repr

inductive ExecutionStatus where
  | success
  | crashed
  | error
  | canceled
  | new
  | running
  | unknown
  | waiting
  deriving DecidableEq, Repr

inductive WorkflowExecuteMode where
  | cli
  | error
  | retry
  | trigger
  | webhook
  | evaluation
  | integrated
  | internal
  | manual
  deriving DecidableEq, Repr

def shouldSkipStatus : ExecutionStatus → Bool
  | .success | .crashed | .error => false
  | .canceled | .new | .running | .unknown | .waiting => true

def shouldSkipMode : WorkflowExecuteMode → Bool
  | .cli | .error | .retry | .trigger | .webhook | .evaluation => false
  -- sub workflows
  | .integrated => true
  -- error workflows
  | .internal => true
  | .manual => true

/-- `WorkflowExecuteAfterContext`, with the time of the call. -/
structure WorkflowExecuteAfterContext where
  workflowId : List Char
  workflowName : List Char
  timeSavedPerExecution : Option Rat
  status : ExecutionStatus
  mode : WorkflowExecuteMode
  startedAt : Int
  stoppedAt : Option Int
  now : Int
  deriving DecidableEq

/-- `BufferedInsight`. A set holds an object once, and `serial` tells the objects apart. -/
structure BufferedInsight where
  serial : Nat
  workflowId : List Char
  workflowName : List Char
  timestamp : Int
  type : TypeUnit
  value : Rat
  deriving DecidableEq

/-- A row of `sharedWorkflow` for the owner, with the name of its project. -/
structure SharedWorkflow where
  workflowId : List Char
  projectId : List Char
  projectName : List Char
  deriving DecidableEq

/-- `InsightsMetadata` that is to be upserted. -/
structure MetadataToUpsert where
  projectId : List Char
  projectName : List Char
  workflowId : List Char
  workflowName : List Char
  deriving DecidableEq

/-- `InsightsMetadata`, with the id that the database gave it. -/
structure InsightsMetadata extends MetadataToUpsert where
  metaId : Nat
  deriving DecidableEq

/-- A row of `insightsRaw`: it has the type, the value and the timestamp of its event. -/
structure InsightsRaw where
  metaId : Nat
  event : BufferedInsight
  deriving DecidableEq

/-- Where a flush waits, with its live data. -/
inductive SavePoint where
  | findingSharedWorkflows
  | upsertingMetadata (metadataToUpsert : List MetadataToUpsert)
  | findingMetadata (metadataToUpsert : List MetadataToUpsert)
  | inserting (events : List InsightsRaw)
  deriving DecidableEq

/-- A flush in progress. -/
structure Flush where
  id : Nat
  bufferedInsightsToFlush : List BufferedInsight
  point : SavePoint
  deriving DecidableEq

/-- A call of `shutdown`: the events collected before it, the number of the first flush that is
begun after it, the flushes it awaits, and whether it resolved. -/
structure Shutdown where
  collected : List BufferedInsight
  begun : Nat
  awaited : List Nat
  resolved : Bool
  deriving DecidableEq

/-- The service and the stored rows. `handlers` are the flushes that calls of
`handleWorkflowExecuteAfter` await; the last three fields record what happened. -/
structure State where
  cachedMetadata : List (List Char × InsightsMetadata)
  bufferedInsights : List BufferedInsight
  flushTimer : Bool
  isAsynchronouslySavingInsights : Bool
  flushesInProgress : List Flush
  nextFlush : Nat
  handlers : List Nat
  shutdowns : List Shutdown
  stored : List InsightsRaw
  collected : List BufferedInsight
  failed : List Flush
  deriving DecidableEq

/-- A service that was just created. -/
def started : State :=
  { cachedMetadata := [], bufferedInsights := [], flushTimer := false,
    isAsynchronouslySavingInsights := true, flushesInProgress := [], nextFlush := 0, handlers := [],
    shutdowns := [], stored := [], collected := [], failed := [] }

/-- `set.add(event)` for a list of events. -/
def addAll (set events : List BufferedInsight) : List BufferedInsight :=
  events.foldl (fun set event => if event ∈ set then set else set ++ [event]) set

/-- The events of an execution; the first one gets the number `serial`. -/
def newInsights (serial : Nat) (ctx : WorkflowExecuteAfterContext) : List BufferedInsight :=
  let status := if ctx.status = .success then TypeUnit.success else .failure
  let insight (offset : Nat) (type : TypeUnit) (value : Rat) : BufferedInsight :=
    { serial := serial + offset, workflowId := ctx.workflowId, workflowName := ctx.workflowName,
      timestamp := ctx.now, type, value }
  let runTime :=
    match ctx.stoppedAt with
    | some stoppedAt => [insight 1 .runtimeMs ((stoppedAt - ctx.startedAt : Int) : Rat)]
    | none => []
  let timeSaved :=
    match ctx.timeSavedPerExecution with
    | some timeSaved =>
      if status = .success ∧ timeSaved ≠ 0 then
        [insight (1 + runTime.length) .timeSavedMin timeSaved]
      else []
    | none => []
  insight 0 status 1 :: runTime ++ timeSaved

/-- `workflowIdNames`: the last name of a workflow counts. -/
def workflowIdNames (events : List BufferedInsight) (workflowId : List Char) :
    Option (List Char) :=
  (events.reverse.find? fun event => decide (event.workflowId = workflowId)).map (·.workflowName)

/-- The metadata that is not in the cache, or has a different project or workflow name there. -/
def metadataToUpsert (cachedMetadata : List (List Char × InsightsMetadata))
    (events : List BufferedInsight) (sharedWorkflows : List SharedWorkflow) :
    List MetadataToUpsert :=
  sharedWorkflows.filterMap fun workflow =>
    let workflowName := workflowIdNames events workflow.workflowId
    let upToDate :=
      match cachedMetadata.lookup workflow.workflowId with
      | some cached =>
        decide (cached.projectId = workflow.projectId ∧
          cached.projectName = workflow.projectName ∧ some cached.workflowName = workflowName)
      | none => false
    if upToDate then none
    else
      some { projectId := workflow.projectId, projectName := workflow.projectName,
             workflowId := workflow.workflowId, workflowName := workflowName.getD [] }

/-- The rows for the events, if there is metadata for all of them. -/
def insightsRawOf (cachedMetadata : List (List Char × InsightsMetadata))
    (events : List BufferedInsight) : Option (List InsightsRaw) :=
  events.mapM fun event =>
    (cachedMetadata.lookup event.workflowId).map fun metadata =>
      { metaId := metadata.metaId, event }

namespace State

/-- `flushEvents()` up to its first wait, and the flush it begins. -/
def flushEvents (s : State) : State × Option Nat :=
  if s.bufferedInsights = [] then ({ s with flushTimer := true }, none)
  else
    let flush : Flush :=
      { id := s.nextFlush, bufferedInsightsToFlush := s.bufferedInsights,
        point := .findingSharedWorkflows }
    ({ s with
        flushTimer := false
        bufferedInsights := []
        flushesInProgress := s.flushesInProgress ++ [flush]
        nextFlush := s.nextFlush + 1 }, some s.nextFlush)

/-- If the buffer is full, flush the events asynchronously. -/
def flushIfFull (flushBatchSize : Nat) (s : State) : State :=
  if flushBatchSize ≤ s.bufferedInsights.length then s.flushEvents.1 else s

/-- `handleWorkflowExecuteAfter(ctx)` up to its first wait. -/
def handleWorkflowExecuteAfter (flushBatchSize : Nat) (s : State)
    (ctx : WorkflowExecuteAfterContext) : State :=
  if shouldSkipStatus ctx.status || shouldSkipMode ctx.mode then s
  else
    let insights := newInsights s.collected.length ctx
    let buffered :=
      { s with
        bufferedInsights := addAll s.bufferedInsights insights
        collected := s.collected ++ insights }
    if s.isAsynchronouslySavingInsights then buffered.flushIfFull flushBatchSize
    else
      let (flushing, flush) := buffered.flushEvents
      { flushing with handlers := flushing.handlers ++ flush.toList }

/-- `shutdown()` up to its wait. -/
def shutdown (s : State) : State :=
  let stopped := { s with flushTimer := false, isAsynchronouslySavingInsights := false }
  let (flushing, flush) := stopped.flushEvents
  { flushing with
    shutdowns := flushing.shutdowns ++
      [{ collected := s.collected, begun := s.nextFlush,
         awaited := s.flushesInProgress.map Flush.id ++ flush.toList, resolved := false }] }

/-- The flush goes on to another point. -/
def moveTo (s : State) (id : Nat) (point : SavePoint) : State :=
  { s with
    flushesInProgress := s.flushesInProgress.map fun flush =>
      if flush.id = id then { flush with point } else flush }

/-- The end of a flush, which deletes itself and schedules the next one. -/
def finish (s : State) (id : Nat) : State :=
  { s with
    flushTimer := true
    flushesInProgress := s.flushesInProgress.eraseP fun flush => decide (flush.id = id) }

/-- The end of a flush whose save failed: the events are put back. -/
def saveFailed (s : State) (flush : Flush) : State :=
  { s.finish flush.id with
    bufferedInsights := addAll s.bufferedInsights flush.bufferedInsightsToFlush
    failed := s.failed ++ [flush] }

/-- The flush in progress with the id. -/
def flush? (s : State) (id : Nat) : Option Flush :=
  s.flushesInProgress.find? fun flush => decide (flush.id = id)

/-- The cache with the metadata that was read. -/
def cacheMetadata (s : State) (upsertMetadata : List InsightsMetadata) : State :=
  { s with
    cachedMetadata := upsertMetadata.foldl
      (fun cache (metadata : InsightsMetadata) => (metadata.workflowId, metadata) :: cache)
      s.cachedMetadata }

/-- Insert the rows of a flush, if the cache has metadata for all of them. -/
def insertEvents (s : State) (flush : Flush) : State :=
  match insightsRawOf s.cachedMetadata flush.bufferedInsightsToFlush with
  | some events => s.moveTo flush.id (.inserting events)
  | none => s.saveFailed flush

end State

/-- What happens to the service: a call, a timer, an answer of the database with what it found, or a
promise that is resolved. -/
inductive Event where
  | startFlushingTimer
  | handleWorkflowExecuteAfter (ctx : WorkflowExecuteAfterContext)
  | resumeHandler (flush : Nat)
  | flushTimer
  | shutdown
  | shutdownResolves (i : Nat)
  | foundSharedWorkflows (flush : Nat) (sharedWorkflows : List SharedWorkflow)
  | upsertedMetadata (flush : Nat)
  | foundMetadata (flush : Nat) (upsertMetadata : List InsightsMetadata)
  | inserted (flush : Nat)
  | saveFailed (flush : Nat)

/-- The state after an event. -/
def step (flushBatchSize : Nat) (s : State) : Event → Option State
  | .startFlushingTimer =>
    some { s with isAsynchronouslySavingInsights := true, flushTimer := true }
  | .handleWorkflowExecuteAfter ctx => some (s.handleWorkflowExecuteAfter flushBatchSize ctx)
  | .resumeHandler id =>
    if id ∈ s.handlers ∧ s.flush? id = none then
      some (State.flushIfFull flushBatchSize { s with handlers := s.handlers.erase id })
    else none
  | .flushTimer =>
    if s.flushTimer then some (State.flushEvents { s with flushTimer := false }).1 else none
  | .shutdown => some s.shutdown
  | .shutdownResolves i => do
    let shutdown ← s.shutdowns[i]?
    if shutdown.awaited.all fun id => (s.flush? id).isNone then
      some { s with shutdowns := s.shutdowns.set i { shutdown with resolved := true } }
    else none
  | .foundSharedWorkflows id sharedWorkflows => do
    let flush ← s.flush? id
    match flush.point with
    | .findingSharedWorkflows =>
      some (s.moveTo id (.upsertingMetadata
        (metadataToUpsert s.cachedMetadata flush.bufferedInsightsToFlush sharedWorkflows)))
    | _ => none
  | .upsertedMetadata id => do
    let flush ← s.flush? id
    match flush.point with
    | .upsertingMetadata metadataToUpsert =>
      some (s.moveTo id (.findingMetadata metadataToUpsert))
    | _ => none
  | .foundMetadata id upsertMetadata => do
    let flush ← s.flush? id
    match flush.point with
    | .findingMetadata _ => some ((s.cacheMetadata upsertMetadata).insertEvents flush)
    | _ => none
  | .inserted id => do
    let flush ← s.flush? id
    match flush.point with
    | .inserting events => some { s.finish id with stored := s.stored ++ events }
    | _ => none
  | .saveFailed id => do
    let flush ← s.flush? id
    some (s.saveFailed flush)

end N8n.Insights
