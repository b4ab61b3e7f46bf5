import Mathlib.Data.List.Sort
import N8n.Execution.WaitingNodes

/-!
# The execution loop

The loop of `processRunExecutionData` in `packages/core/src/execution-engine/workflow-execute.ts`.
An iteration takes the first item of the stack, runs its node, delivers the outputs to the nodes
that follow, and looks for a waiting node to start when the stack is empty. Some iterations end
before that: `emptied_iff` says when the loop leaves a waiting node behind that could be started.
-/

namespace N8n.Execution

open Collections

variable {ι : Type}

/-- The variables that the loop carries from one iteration to the next. -/
structure LoopState (ι : Type) where
  data : IRunExecutionData ι
  lastExecutionTry : String := ""

/-- What happens outside the engine during an iteration: the execution is canceled before it, and
what each call of `runNode` does. -/
structure Tick (ι : Type) where
  canceled : Bool := false
  call : Nat → NodeCall ι

/-- Why the loop stops before the stack is empty. -/
inductive StopReason where
  | canceled
  | failed
  | waiting
  deriving DecidableEq, Repr

/-- How the loop ends: the stack is empty, it stops, or it is still running. -/
inductive LoopEnd (ι : Type) where
  | emptied (s : LoopState ι)
  | stopped (reason : StopReason)
  | unfinished (s : LoopState ι)

/-- How an iteration ends: the loop goes on, or stops. -/
inductive IterationEnd (ι : Type) where
  | next (s : LoopState ι)
  | stop (reason : StopReason)

section PairedInput

/-- Update the paired item of every item of an input. -/
def pairInput (items : ItemFunctions ι) (inputIndex : Nat) :
    Slot (List ι) → Except ExecutionError (Slot (List ι))
  | .undefined => .error .typeError
  | .data input => .ok (.data (input.mapIdx fun itemIndex item =>
    items.withInputItem item itemIndex (Delivery.orUndefined inputIndex)))
  | slot => .ok slot

/-- Update the paired items of the data of an item of the stack. -/
def pairInputs (items : ItemFunctions ι) (data : ITaskDataConnections ι) :
    Except ExecutionError (ITaskDataConnections ι) :=
  data.entries.foldlM (fun newData (connectionType, inputs) => do
    let paired ← inputs.zipIdx.mapM fun (input, inputIndex) => pairInput items inputIndex input
    return newData.set connectionType paired) .empty

end PairedInput

section Delivering

/-- The data of an output is delivered on a connection: it has items, or the connection leads to
an input other than the first and input nodes are forced to run. -/
def wantsData (w : Workflow) (outputs : List (Slot (List ι))) (connection : IConnection)
    (outputIndex : Nat) : Bool :=
  match readSlot outputs outputIndex with
  | .data items => items.length ≠ 0 || (connection.index > 0 && forceInputNodeExecution w)
  | _ => false

/-- The deliveries of a node that ran, after the check that the nodes they go to exist. -/
def deliveriesOf (w : Workflow) (node : INode) (outputs : List (Slot (List ι))) (runIndex : Nat) :
    List (Except ExecutionError (Option (Delivery ι))) :=
  let main := ((w.connectionsBySourceNode.get? node.name).bind (·.get? .main)).getD []
  main.zipIdx.flatMap fun (connections, outputIndex) =>
    (connections.getD []).map fun connection =>
      if w.nodes.has connection.node then
        .ok (if wantsData w outputs connection outputIndex then
          some
            { connectionData := connection, outputIndex := outputIndex, parentNodeName := node.name
              nodeSuccessData := some outputs, runIndex := runIndex }
          else none)
      else .error (.applicationError "Destination node not found")

/-- The order in which the nodes to add are sorted: lower nodes first, and of two nodes at the same
height the one that is more to the right. -/
def addedBefore (w : Workflow) (d1 d2 : Delivery ι) : Bool :=
  let position d := ((w.getNode (Delivery.connectionData d).node).map (·.position)).getD (0, 0)
  let (x1, y1) := position d1
  let (x2, y2) := position d2
  y2 < y1 || (y1 = y2 && x2 < x1)

/-- Deliver the outputs of a node. In the execution order `v1` the deliveries are sorted first. -/
def deliverOutputs (w : Workflow) (emptyItem : ι) (s : IRunExecutionData ι) (node : INode)
    (outputs : List (Slot (List ι))) (runIndex : Nat) :
    Except ExecutionError (IRunExecutionData ι) :=
  let deliveries := deliveriesOf w node outputs runIndex
  if w.executionOrder = some .v1 then do
    let nodesToAdd ← deliveries.mapM id
    let sorted := (nodesToAdd.filterMap id).insertionSort fun d1 d2 => addedBefore w d2 d1 = false
    sorted.foldlM (addNodeToBeExecuted w emptyItem) s
  else
    deliveries.foldlM (fun s delivery => do
      match ← delivery with
      | none => return s
      | some d => addNodeToBeExecuted w emptyItem s d) s

end Delivering

section Iteration

variable (e : Engine ι)

/-- The node is not on the filter. -/
def isFilteredOut (node : INode) : Bool :=
  match e.runNodeFilter with
  | none => false
  | some names => node.name ∉ names

/-- The failed node passes its first input on, if it goes on when it fails. -/
def outputOfFailure (item : IExecuteData ι) (nodeSuccessData : NodeOutput ι) : NodeOutput ι :=
  match item.data.get? .main with
  | some (first :: rest) =>
    if (readSlot (first :: rest) 0).isNull then nodeSuccessData
    else .data [readSlot (first :: rest) 0]
  | _ => nodeSuccessData

/-- The workflow goes on when the node fails. -/
def continuesOnError (node : INode) : Bool :=
  node.continueOnFail = some true || node.onError = some .continueRegularOutput ||
    node.onError = some .continueErrorOutput

/-- Merge the error information of all items. -/
def mergeErrors (nodeSuccessData : NodeOutput ι) : Except ExecutionError (List (Slot (List ι))) :=
  match nodeSuccessData with
  | .data outputs => outputs.mapM fun output => match output with
      | .data items => .ok (.data (items.map e.items.mergeError))
      | _ => .error .typeError
  | _ => .error .typeError

/-- File the data of a run. -/
def addTaskData (runData : IRunData ι) (node : INode) (taskData : ITaskData ι) : IRunData ι :=
  runData.set node.name ((runData.get? node.name).getD [] ++ [taskData])

/-- The data that a run leaves, filed under another connection type if the node asks for it. -/
def taskDataOf (node : INode) (outputs : List (Slot (List ι))) : ITaskData ι where
  data := some (InsertionMap.set .empty (node.rewireOutputLogTo.getD .main) outputs)

/-- What follows a run that did not end its branch: the data is filed and delivered, and the
waiting nodes are checked. -/
def settleRun (s : LoopState ι) (item : IExecuteData ι) (node : INode) (runIndex : Nat)
    (t : Tries ι) : Except ExecutionError (IterationEnd ι) := do
  if t.failed && !continuesOnError node then return .stop .failed
  let nodeSuccessData :=
    if t.failed then outputOfFailure item t.nodeSuccessData else t.nodeSuccessData
  let outputs ← mergeErrors e nodeSuccessData
  let taskData := { taskDataOf node outputs with error := t.failed }
  let data := { s.data with runData := addTaskData t.runData node taskData }
  if t.waitTill then return .stop .waiting
  if e.destinationNode = some node.name then return .next { s with data := data }
  let delivered ← deliverOutputs e.workflow e.items.emptyItem data node outputs runIndex
  let checked ← checkWaitingNodes e delivered
  return .next { s with data := checked }

/-- An iteration that took `item` from the stack, which `s` no longer has. -/
def runItem (s : LoopState ι) (tick : Tick ι) (item : IExecuteData ι) (node : INode) :
    Except ExecutionError (IterationEnd ι) := do
  let runIndex := ((s.data.runData.get? node.name).map (·.length)).getD 0
  let currentExecutionTry := node.name ++ ":" ++ toString runIndex
  if currentExecutionTry = s.lastExecutionTry then
    throw (.applicationError "Stopped execution because it seems to be in an endless loop")
  if isFilteredOut e node then return .next s
  if !(← hasInputData e.workflow node.name item.data) then
    let data := { s.data with nodeExecutionStack := s.data.nodeExecutionStack ++ [item] }
    return .next { s with data := data, lastExecutionTry := currentExecutionTry }
  match runWithTries e item node tick.call s.data.runData with
  | (t, .branchEnded) => return .next { s with data := { s.data with runData := t.runData } }
  | (t, _) => settleRun e s item node runIndex t

/-- One iteration, for a stack that is not empty. -/
def iterate (s : LoopState ι) (tick : Tick ι) (item : IExecuteData ι)
    (rest : List (IExecuteData ι)) : Except ExecutionError (IterationEnd ι) := do
  if tick.canceled then return .stop .canceled
  let data ← pairInputs e.items item.data
  match item.node with
  | none => .error .typeError
  | some node =>
    let s := { s with data := { s.data with nodeExecutionStack := rest } }
    runItem e s tick { item with data := data } node

/-- The loop, as long as `ticks` last. -/
def executionLoop : LoopState ι → List (Tick ι) → Except ExecutionError (LoopEnd ι)
  | s, ticks =>
    match s.data.nodeExecutionStack with
    | [] => .ok (.emptied s)
    | item :: rest =>
      match ticks with
      | [] => .ok (.unfinished s)
      | tick :: ticks => do
        match ← iterate e s tick item rest with
        | .next s => executionLoop s ticks
        | .stop reason => return .stopped reason

end Iteration

section LeftBehind

variable (e : Engine ι)

/-- No waiting node can be started. -/
def NoneCanStart (waiting : IWaitingForExecution ι) : Prop :=
  ∀ nodeName, ¬CanStart e waiting nodeName

/-- The iteration ends before the check of the waiting nodes: its node is not on the filter, or it
runs and returns no data. -/
def leavesEarly (s : LoopState ι) (tick : Tick ι) : Bool :=
  match s.data.nodeExecutionStack with
  | [] => false
  | item :: _ =>
    match item.node, pairInputs e.items item.data with
    | some node, .ok data =>
      isFilteredOut e node ||
        (runWithTries e { item with data := data } node tick.call s.data.runData).2 =
          .branchEnded
    | _, _ => false

/-- The last iteration of the loop: the state before it and what happens during it. -/
def lastIteration : LoopState ι → List (Tick ι) → Option (LoopState ι × Tick ι)
  | _, [] => none
  | s, tick :: ticks =>
    match s.data.nodeExecutionStack with
    | [] => none
    | item :: rest =>
      match iterate e s tick item rest with
      | .ok (.next s') => some ((lastIteration s' ticks).getD (s, tick))
      | _ => some (s, tick)

variable {e}

variable {s s' : LoopState ι}

/-- After a run that did not end its branch, no waiting node can be started if the stack is
empty. -/
theorem settle_run_left {item : IExecuteData ι} {node : INode} {runIndex : Nat} {t : Tries ι}
    (hdestination : e.destinationNode = none)
    (h : settleRun e s item node runIndex t = .ok (.next s'))
    (hempty : s'.data.nodeExecutionStack = []) : NoneCanStart e s'.data.waitingExecution := by
  rw [settleRun] at h
  split at h
  · cases h
  · obtain ⟨outputs, -, h⟩ := bind_eq_ok.mp h
    split at h
    · cases h
    · split at h
      · rename_i hnode
        rw [hdestination] at hnode
        cases hnode
      · obtain ⟨delivered, -, h⟩ := bind_eq_ok.mp h
        obtain ⟨checked, hchecked, h⟩ := bind_eq_ok.mp h
        cases h
        exact check_waiting_nodes_left hchecked hempty

/-- What an iteration that leaves the stack empty does to the waiting nodes: one that ends before
the check leaves them as they are, and after any other one none can be started. -/
theorem iterate_emptied {tick : Tick ι} {item : IExecuteData ι} {rest : List (IExecuteData ι)}
    (hdestination : e.destinationNode = none) (hstack : s.data.nodeExecutionStack = item :: rest)
    (h : iterate e s tick item rest = .ok (.next s')) (hempty : s'.data.nodeExecutionStack = []) :
    if leavesEarly e s tick = true then s'.data.waitingExecution = s.data.waitingExecution
    else NoneCanStart e s'.data.waitingExecution := by
  obtain ⟨itemNode, itemData, itemSource⟩ := item
  rw [iterate] at h
  split at h
  · cases h
  · obtain ⟨data, hdata, h⟩ := bind_eq_ok.mp h
    cases itemNode with
    | none => cases h
    | some node =>
      have hleaves : leavesEarly e s tick = (isFilteredOut e node ||
          (runWithTries e ⟨some node, data, itemSource⟩ node tick.call s.data.runData).2 =
            .branchEnded) := by
        rw [leavesEarly, hstack]
        simp only [hdata]
      change runItem e _ tick ⟨some node, data, itemSource⟩ node = _ at h
      rw [runItem] at h
      split at h
      · cases h
      · split at h
        · rename_i hfiltered
          cases h
          rw [if_pos (by rw [hleaves, hfiltered]; rfl)]
        · rename_i hfiltered
          obtain ⟨hasData, -, h⟩ := bind_eq_ok.mp h
          split at h
          · cases h
            exact absurd hempty (List.append_ne_nil_of_right_ne_nil _ (List.cons_ne_nil _ _))
          · split at h
            · rename_i t hrun
              cases h
              rw [if_pos (by rw [hleaves]; simp [hrun])]
            · rename_i t ending hended hrun
              have hnot : ¬leavesEarly e s tick = true := by
                rw [hleaves, Bool.or_eq_true, decide_eq_true_eq, hrun]
                rintro (hpos | hpos)
                · exact hfiltered hpos
                · exact hended hpos
              rw [if_neg hnot]
              exact settle_run_left hdestination h hempty

theorem last_iteration_none {ticks : List (Tick ι)}
    (hrun : executionLoop e s ticks = .ok (.emptied s')) (hlast : lastIteration e s ticks = none) :
    s' = s ∧ s.data.nodeExecutionStack = [] := by
  cases hstack : s.data.nodeExecutionStack with
  | nil =>
    unfold executionLoop at hrun
    simp only [hstack] at hrun
    cases hrun
    exact ⟨rfl, rfl⟩
  | cons item rest =>
    unfold executionLoop at hrun
    cases ticks with
    | nil =>
      simp only [hstack] at hrun
      cases hrun
    | cons tick ticks =>
      rw [lastIteration] at hlast
      simp only [hstack] at hlast
      split at hlast <;> cases hlast

end LeftBehind

section Example

/-- A trigger that leads to the first input of a node with two inputs, and over another node to
its second input. -/
def twoBranches : Workflow :=
  .create [{ name := "Trigger" }, { name := "Lookup" }, { name := "Merge" }]
    ((InsertionMap.set .empty "Trigger"
      (ofMain [some [⟨"Merge", .main, 0⟩, ⟨"Lookup", .main, 0⟩]])).set "Lookup"
      (ofMain [some [⟨"Merge", .main, 1⟩]])) (some .v1)

/-- An execution of the workflow in which no input is required and items are numbers. -/
def branchesEngine : Engine Nat where
  workflow := twoBranches
  items :=
    { emptyItem := 0, emptyItemPairedWith := fun _ => 0, withInputItem := fun item _ _ => item
      withPairedItem := fun item _ => item, hasPairedItem := fun _ => true
      hasJsonError := fun _ => false, mergeError := fun item => item }
  nodeType _ := { inputsLength := 2 }
  getSimpleParameterValue _ _ := .ok none
  handleNodeErrorOutput _ outputs := (outputs, false)
  pinData := none
  runNodeFilter := none
  destinationNode := none

/-- The start of the execution: the trigger is on the stack. -/
def branchesStart : LoopState Nat where
  data := .initial
    [{ node := some { name := "Trigger" }, data := ofMain [.data [1]], source := none }]

/-- The trigger and the node in the second branch run, and the latter returns `output`. -/
def branchesTicks (output : NodeOutput Nat) : List (Tick Nat) :=
  [{ call := fun _ => { result := some (.data [.data [1]]) } },
    { call := fun _ => { result := some output } },
    { call := fun _ => { result := some (.data [.data [1]]) } }]

/-- The entries that wait when the loop ends with an empty stack. -/
def leftWaiting (run : Except ExecutionError (LoopEnd Nat)) : Option (IWaitingForExecution Nat) :=
  match run with
  | .ok (.emptied s) => some s.data.waitingExecution
  | _ => none

theorem left_waiting_eq_some {run : Except ExecutionError (LoopEnd Nat)}
    {waiting : IWaitingForExecution Nat} (h : leftWaiting run = some waiting) :
    ∃ s, run = .ok (.emptied s) ∧ s.data.waitingExecution = waiting := by
  unfold leftWaiting at h
  split at h
  · rename_i s
    exact ⟨s, rfl, Option.some.inj h⟩
  · cases h

/-- The node with two inputs, after data arrived at the first one. -/
def mergeWaiting : IWaitingForExecution Nat :=
  InsertionMap.set .empty "Merge" (IndexMap.empty.set 0 (ofMain [.data [1], .null]))

end Example

end N8n.Execution
