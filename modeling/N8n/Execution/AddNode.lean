import N8n.Execution.Data
import N8n.Workflow.ConnectedNodes

/-!
# Delivering data to the inputs of a node

`addNodeToBeExecuted` of `packages/core/src/execution-engine/workflow-execute.ts`, which a node
that ran calls for each connection of its outputs. A node with one main input goes to the stack;
a node with several waits in an entry of `waitingExecution` until no slot of the entry is `null`.
The first entry also forces the other nodes before the waiting one onto the stack, outside the
execution order `v1`.
-/

namespace N8n.Execution

open Collections

variable {ι : Type}

/-- The arguments of `addNodeToBeExecuted`. Nothing but `null` stands for `nodeSuccessData` when a
node returned no data. -/
structure Delivery (ι : Type) where
  connectionData : IConnection
  outputIndex : Nat
  parentNodeName : String
  nodeSuccessData : Option (List (Slot (List ι)))
  runIndex : Nat
  deriving DecidableEq, Repr

namespace Delivery

/-- `index || undefined`. -/
def orUndefined (index : Nat) : Option Nat := if index = 0 then none else some index

/-- The source that the delivery writes. -/
def sourceData (d : Delivery ι) : ISourceData where
  previousNode := d.parentNodeName
  previousNodeOutput := orUndefined d.outputIndex
  previousNodeRun := orUndefined d.runIndex

/-- What the delivery writes into the data of its input. -/
def dataSlot (d : Delivery ι) : Slot (List ι) :=
  match d.nodeSuccessData with
  | none => .null
  | some outputs => readSlot outputs d.outputIndex

/-- What the delivery writes into the sources of its input. -/
def sourceSlot (d : Delivery ι) : Slot ISourceData :=
  match d.nodeSuccessData with
  | none => .null
  | some _ => .data d.sourceData

end Delivery

/-- `forceInputNodeExecution(workflow)`. -/
def forceInputNodeExecution (w : Workflow) : Bool := w.executionOrder ≠ some .v1

/-- `nodeExecutionStack[enqueueFn](item)`. -/
def enqueue (w : Workflow) (stack : List (IExecuteData ι)) (item : IExecuteData ι) :
    List (IExecuteData ι) :=
  if w.executionOrder = some .v1 then item :: stack else stack ++ [item]

/-- `connectionsByDestinationNode[nodeName].main`, of which a property is read. -/
def mainInputs (w : Workflow) (nodeName : String) : Except ExecutionError NodeInputConnections :=
  match (w.connectionsByDestinationNode.get? nodeName).bind (·.get? .main) with
  | none => .error .typeError
  | some inputs => .ok inputs

/-- `main[index] ?? []`. -/
def inputConnections (inputs : NodeInputConnections) (index : Nat) : List IConnection :=
  (inputs[index]?.join).getD []

/-- The data that a run of a node left on a connection: `get(runData, [node, runIndex, …])`. -/
def incomingData (runData : IRunData ι) (connection : IConnection) (runIndex : Nat) :
    Slot (List ι) :=
  match (((runData.get? connection.node).bind (·[runIndex]?)).bind (·.data)).bind
      (·.get? .main) with
  | none => .undefined
  | some slots => readSlot slots connection.index

/-- `incomingConnectionIsEmpty(runData, inputConnections, runIndex)`. -/
def incomingConnectionIsEmpty (runData : IRunData ι) (runIndex : Nat) :
    List IConnection → Except ExecutionError Bool
  | [] => .ok true
  | connection :: rest =>
    match incomingData runData connection runIndex with
    | .null => .error .typeError
    | .data items =>
      if items.length ≠ 0 then .ok false
      else incomingConnectionIsEmpty runData runIndex rest
    | _ => incomingConnectionIsEmpty runData runIndex rest

/-- `prepareWaitingToExecution(nodeName, numberOfConnections, runIndex)`. -/
def prepareWaitingToExecution (s : IRunExecutionData ι) (nodeName : String)
    (numberOfConnections runIndex : Nat) : IRunExecutionData ι :=
  let sources := s.waitingExecutionSource.getD .empty
  let nodeWaiting := (s.waitingExecution.get? nodeName).getD .empty
  let nodeWaitingSource := (sources.get? nodeName).getD .empty
  { s with
    waitingExecution := s.waitingExecution.set nodeName
      (nodeWaiting.set runIndex (ofMain (List.replicate numberOfConnections .null)))
    waitingExecutionSource := some (sources.set nodeName
      (nodeWaitingSource.set runIndex (ofMain (List.replicate numberOfConnections .null)))) }

/-- `waitingExecution[nodeName]` becomes `{}` when it is undefined. -/
def openWaiting (s : IRunExecutionData ι) (nodeName : String) : IRunExecutionData ι :=
  let sources := s.waitingExecutionSource.getD .empty
  if s.waitingExecution.has nodeName then { s with waitingExecutionSource := some sources }
  else
    { s with
      waitingExecution := s.waitingExecution.set nodeName .empty
      waitingExecutionSource := some (sources.set nodeName .empty) }

/-- The run index of the first entry that has no data for an input yet. -/
def findMissingInput (index : Nat) :
    List (Nat × ITaskDataConnections ι) → Except ExecutionError (Option Nat)
  | [] => .ok none
  | (runIndex, entry) :: rest =>
    match entry.get? .main with
    | none => .error .typeError
    | some slots =>
      if (readSlot slots index).falsy then .ok (some runIndex)
      else findMissingInput index rest

/-- `entries[nodeName][runIndex].main[index] = slot`, in the waiting data and in the sources. -/
def writeEntry {α : Type} (waiting : InsertionMap String (IndexMap (InsertionMap NodeConnectionType
    (List (Slot α))))) (nodeName : String) (runIndex index : Nat) (slot : Slot α) :
    Except ExecutionError (InsertionMap String (IndexMap (InsertionMap NodeConnectionType
      (List (Slot α))))) :=
  match waiting.get? nodeName with
  | none => .error .typeError
  | some entries =>
    match entries.get? runIndex with
    | none => .error .typeError
    | some entry =>
      match entry.get? .main with
      | none => .error .typeError
      | some slots =>
        .ok (waiting.set nodeName
          (entries.set runIndex (entry.set .main (writeSlot slots index slot))))

/-- `entries[nodeName][runIndex].main`. -/
def readEntry {α : Type} (waiting : InsertionMap String (IndexMap (InsertionMap NodeConnectionType
    (List (Slot α))))) (nodeName : String) (runIndex : Nat) :
    Except ExecutionError (List (Slot α)) :=
  match ((waiting.get? nodeName).bind (·.get? runIndex)).bind (·.get? .main) with
  | none => .error .typeError
  | some slots => .ok slots

/-- Delete an entry, and the node when no entry is left for it. -/
def deleteEntry {ν : Type} (waiting : InsertionMap String (IndexMap ν)) (nodeName : String)
    (runIndex : Nat) (last : Bool) : InsertionMap String (IndexMap ν) :=
  let entries := ((waiting.get? nodeName).getD .empty).delete runIndex
  if last then waiting.delete nodeName else waiting.set nodeName entries

/-- No more entries are left for the node once one is deleted. -/
def isLastEntry (s : IRunExecutionData ι) (nodeName : String) (runIndex : Nat) : Bool :=
  (((s.waitingExecution.get? nodeName).getD .empty).delete runIndex).size = 0

/-- Move a waiting entry to the stack. -/
def moveToStack (w : Workflow) (s : IRunExecutionData ι) (nodeName : String) (runIndex : Nat) :
    IRunExecutionData ι :=
  let entry := (((s.waitingExecution.get? nodeName).bind (·.get? runIndex))).getD .empty
  let source := (s.waitingExecutionSource.bind (·.get? nodeName)).bind (·.get? runIndex)
  let last := isLastEntry s nodeName runIndex
  { s with
    nodeExecutionStack := enqueue w s.nodeExecutionStack
      { node := w.nodes.get? nodeName, data := entry, source := source }
    waitingExecution := deleteEntry s.waitingExecution nodeName runIndex last
    waitingExecutionSource :=
      s.waitingExecutionSource.map (deleteEntry · nodeName runIndex last) }

/-- The names of the nodes on the stack. -/
def executionStackNodes (stack : List (IExecuteData ι)) : Except ExecutionError (List String) :=
  stack.mapM fun stackData =>
    match stackData.node with
    | none => .error .typeError
    | some node => .ok node.name

/-- The nodes that the outputs of a node lead to. -/
def checkOutputNodes (w : Workflow) (parentNodeName : String) :
    Except ExecutionError (List String) :=
  match w.connectionsBySourceNode.get? parentNodeName with
  | none => .error .typeError
  | some ofNode => .ok ((((ofNode.get? .main).getD []).flatMap (·.getD [])).map (·.node))

/-- The search for the node to force among the nodes before an input, from the input's own node:
it ends at a node that will be added anyway, that is on the stack, or that ran. -/
def findNodeToAdd (runData : IRunData ι) (outputNodes stackNodes : List String)
    (inputNode : String) : List String → Option String → Option String
  | [], nodeToAdd => nodeToAdd
  | parentNode :: rest, nodeToAdd =>
    if inputNode ≠ parentNode ∧ parentNode ∈ outputNodes then none
    else if parentNode ∈ stackNodes then none
    else if runData.has parentNode then nodeToAdd
    else findNodeToAdd runData outputNodes stackNodes inputNode rest (some parentNode)

/-- `nodeSuccessData[outputIndex].length === 0`. -/
def outputIsEmpty (d : Delivery ι) : Except ExecutionError Bool :=
  match d.dataSlot with
  | .data items => .ok (items.length = 0)
  | _ => .error .typeError

/-- The node to force for an input that no other branch provides, if any. -/
def forcedNode (w : Workflow) (runData : IRunData ι) (d : Delivery ι)
    (outputNodes stackNodes : List String) (inputNode : String) :
    Except ExecutionError (Option String) := do
  let parentNodes := inputNode :: (w.getParentNodes inputNode).reverse
  let nodeToAdd :=
    findNodeToAdd runData outputNodes stackNodes inputNode parentNodes (some inputNode)
  -- without a node to add, the parents of a node called `undefined` are asked for
  if d.parentNodeName ∈ w.getParentNodes (nodeToAdd.getD "undefined") then
    if ← outputIsEmpty d then return none
  return nodeToAdd

/-- The node has no incoming data, so that it runs on an empty item. -/
def needsEmptyItem (w : Workflow) (runData : IRunData ι) (runIndex : Nat) (nodeToAdd : String) :
    Except ExecutionError Bool :=
  if w.connectionsByDestinationNode.has nodeToAdd then do
    let inputs ← mainInputs w nodeToAdd
    incomingConnectionIsEmpty runData runIndex (inputConnections inputs 0)
  else .ok true

/-- The item that forces a node: a single empty item at its first input. -/
def forcedItem (w : Workflow) (emptyItem : ι) (d : Delivery ι) (nodeToAdd : String) :
    IExecuteData ι where
  node := w.getNode nodeToAdd
  data := ofMain [.data [emptyItem]]
  source := some (ofMain [.data d.sourceData])

/-- The node that one round of the loop over the nodes before a waiting one forces, if any. -/
def nodeToForce (w : Workflow) (runData : IRunData ι) (d : Delivery ι)
    (outputNodes stackNodes : List String) (inputNode : String) :
    Except ExecutionError (Option String) := do
  -- a node that the parent leads to will run anyway, unless its incoming data is empty
  if inputNode ∈ outputNodes then
    let inputs ← mainInputs w inputNode
    let isEmpty ← incomingConnectionIsEmpty runData d.runIndex (inputConnections inputs 0)
    if !isEmpty then return none
  if inputNode ∈ stackNodes then return none
  if runData.has inputNode then return none
  if !forceInputNodeExecution w then return none
  match ← forcedNode w runData d outputNodes stackNodes inputNode with
  | none => return none
  | some nodeToAdd =>
    if ← needsEmptyItem w runData d.runIndex nodeToAdd then return some nodeToAdd
    else return none

/-- One round of the loop over the nodes before a waiting one. -/
def forceInput (w : Workflow) (emptyItem : ι) (runData : IRunData ι) (d : Delivery ι)
    (outputNodes : List String) (stack : List (IExecuteData ι)) (inputData : IConnection) :
    Except ExecutionError (List (IExecuteData ι)) := do
  if inputData.node = d.parentNodeName then return stack
  let stackNodes ← executionStackNodes stack
  match ← nodeToForce w runData d outputNodes stackNodes inputData.node with
  | none => return stack
  | some nodeToAdd => return enqueue w stack (forcedItem w emptyItem d nodeToAdd)

/-- The loop over the nodes before a node, unless it waited before. -/
def forceInputs (w : Workflow) (emptyItem : ι) (s : IRunExecutionData ι) (d : Delivery ι)
    (inputs : NodeInputConnections) (nodeWasWaiting : Bool) :
    Except ExecutionError (List (IExecuteData ι)) := do
  if nodeWasWaiting then return s.nodeExecutionStack
  let outputNodes ← checkOutputNodes w d.parentNodeName
  (inputs.flatMap (·.getD [])).foldlM (forceInput w emptyItem s.runData d outputNodes)
    s.nodeExecutionStack

/-- Write the entry of a node that still misses data: the same slots in a new object. -/
def keepWaiting (s : IRunExecutionData ι) (d : Delivery ι) (numberOfConnections runIndex : Nat) :
    Except ExecutionError (IRunExecutionData ι) := do
  let nodeName := d.connectionData.node
  let slots ← readEntry s.waitingExecution nodeName runIndex
  let connectionDataArray := writeSlot slots d.connectionData.index d.dataSlot
  let waitingExecutionSource ← readEntry (s.waitingExecutionSource.getD .empty) nodeName runIndex
  let prepared := prepareWaitingToExecution s nodeName numberOfConnections runIndex
  let entries := (prepared.waitingExecution.get? nodeName).getD .empty
  let sources := prepared.waitingExecutionSource.getD .empty
  let sourceEntries := (sources.get? nodeName).getD .empty
  return { prepared with
    waitingExecution :=
      prepared.waitingExecution.set nodeName (entries.set runIndex (ofMain connectionDataArray))
    waitingExecutionSource := some
      (sources.set nodeName (sourceEntries.set runIndex (ofMain waitingExecutionSource))) }

/-- The choice of the entry that a delivery writes: the first one without data for the input, or
a new one under the number of entries. -/
def chooseEntry (s : IRunExecutionData ι) (d : Delivery ι) (numberOfConnections : Nat) :
    Except ExecutionError (IRunExecutionData ι × Nat) := do
  let nodeName := d.connectionData.node
  let entries := (s.waitingExecution.get? nodeName).getD .empty
  match ← findMissingInput d.connectionData.index entries.entries with
  | some waitingNodeIndex => return (s, waitingNodeIndex)
  | none =>
    let waitingNodeIndex := entries.size
    return (prepareWaitingToExecution s nodeName numberOfConnections waitingNodeIndex,
      waitingNodeIndex)

/-- Write the data and the source of a delivery into a waiting entry. -/
def writeDelivery (s : IRunExecutionData ι) (d : Delivery ι) (runIndex : Nat) :
    Except ExecutionError (IRunExecutionData ι) := do
  let nodeName := d.connectionData.node
  let index := d.connectionData.index
  let waiting ← writeEntry s.waitingExecution nodeName runIndex index d.dataSlot
  let sources ←
    writeEntry (s.waitingExecutionSource.getD .empty) nodeName runIndex index d.sourceSlot
  return { s with waitingExecution := waiting, waitingExecutionSource := some sources }

/-- A delivery to a node with several main inputs. -/
def addWaitingNode (w : Workflow) (emptyItem : ι) (s : IRunExecutionData ι) (d : Delivery ι)
    (inputs : NodeInputConnections) : Except ExecutionError (IRunExecutionData ι) := do
  let nodeName := d.connectionData.node
  let nodeWasWaiting := s.waitingExecution.has nodeName
  let (chosen, waitingNodeIndex) ← chooseEntry (openWaiting s nodeName) d inputs.length
  let written ← writeDelivery chosen d waitingNodeIndex
  let slots ← readEntry written.waitingExecution nodeName waitingNodeIndex
  if slots.all (!·.isNull) then return moveToStack w written nodeName waitingNodeIndex
  let stack ← forceInputs w emptyItem written d inputs nodeWasWaiting
  keepWaiting { written with nodeExecutionStack := stack } d inputs.length waitingNodeIndex

/-- A delivery to a node with one main input, which can run at once. -/
def addReadyNode (w : Workflow) (s : IRunExecutionData ι) (d : Delivery ι) : IRunExecutionData ι :=
  let nulls := List.replicate (d.connectionData.index + 1) .null
  let item : IExecuteData ι :=
    { node := w.nodes.get? d.connectionData.node
      data := ofMain (writeSlot nulls d.connectionData.index d.dataSlot)
      source := some (ofMain [.data d.sourceData]) }
  { s with nodeExecutionStack := enqueue w s.nodeExecutionStack item }

/-- `addNodeToBeExecuted(workflow, connectionData, outputIndex, parentNodeName, nodeSuccessData,
runIndex)`. -/
def addNodeToBeExecuted (w : Workflow) (emptyItem : ι) (s : IRunExecutionData ι)
    (d : Delivery ι) : Except ExecutionError (IRunExecutionData ι) := do
  let inputs ← mainInputs w d.connectionData.node
  if inputs.length > 1 then addWaitingNode w emptyItem s d inputs
  else return addReadyNode w s d

end N8n.Execution
