import N8n.Execution.InputData

/-!
# Running a node

The part of an iteration of the execution loop that runs one node, with its retries: `runNode` may
throw, return data or return nothing, and `assignPairedItems` and `alwaysOutputData` complete what
it returns. What a node does is not known here: each call of `runNode` has an arbitrary result.
-/

namespace N8n.Execution

open Collections

variable {ι : Type}

/-- What the engine does with single items. -/
structure ItemFunctions (ι : Type) where
  /-- `{ json: {} }`. -/
  emptyItem : ι
  /-- `{ json: {}, pairedItem }`, for pairs of an item and an input. -/
  emptyItemPairedWith : List (Nat × Nat) → ι
  /-- `{ ...item, pairedItem: { item: itemIndex, input } }`. -/
  withInputItem : ι → Nat → Option Nat → ι
  /-- `item.pairedItem = { item: itemIndex }`. -/
  withPairedItem : ι → Nat → ι
  /-- `item.pairedItem !== undefined`. -/
  hasPairedItem : ι → Bool
  /-- `item.json.error !== undefined`. -/
  hasJsonError : ι → Bool
  /-- Merge the error information of an item into its `json`. -/
  mergeError : ι → ι

/-- The inputs that a node requires: certain ones, or a certain number. -/
inductive RequiredInputs where
  | indexes (inputs : List Nat)
  | count (inputs : Nat)
  deriving DecidableEq, Repr

/-- The property `requiredInputs` of a node type, which may be an expression. -/
inductive RequiredInputsProperty where
  | expression (text : String)
  | value (inputs : RequiredInputs)
  deriving DecidableEq, Repr

/-- The description of a node type. -/
structure INodeTypeDescription where
  /-- `inputs.length`. -/
  inputsLength : Nat
  requiredInputs : Option RequiredInputsProperty := none
  deriving DecidableEq, Repr

/-- What an execution of a workflow depends on and does not change. -/
structure Engine (ι : Type) where
  workflow : Workflow
  items : ItemFunctions ι
  /-- `workflow.nodeTypes.getByNameAndVersion(…).description`. -/
  nodeType : INode → INodeTypeDescription
  /-- `workflow.expression.getSimpleParameterValue(…)`. -/
  getSimpleParameterValue : INode → String → Except ExecutionError (Option RequiredInputs)
  /-- `handleNodeErrorOutput(…)`, which moves items that report errors to the last output: the
  outputs that it leaves behind, and whether it throws. -/
  handleNodeErrorOutput : IExecuteData ι → List (Slot (List ι)) → List (Slot (List ι)) × Bool
  pinData : Option (IPinData ι)
  runNodeFilter : Option (List String)
  destinationNode : Option String

/-- What a node returns: `undefined`, `null` or its outputs. -/
abbrev NodeOutput (ι : Type) := Slot (List (Slot (List ι)))

/-- A call of `runNode`: what it returns, if it does not throw, whether it makes the execution
wait, and what it adds to the run data, as nodes that run other nodes do. -/
structure NodeCall (ι : Type) where
  result : Option (NodeOutput ι)
  waitTill : Bool := false
  addRuns : IRunData ι → IRunData ι := id

section PairedItems

variable (items : ItemFunctions ι)

/-- Pair the items of one output, up to the first one that cannot be. -/
def pairItems (isSingleInputAndOutput isSameNumberOfItems : Bool) : List ι → Nat → List ι × Bool
  | [], _ => ([], false)
  | item :: rest, index =>
    if items.hasPairedItem item then
      let (rest', stopped) :=
        pairItems isSingleInputAndOutput isSameNumberOfItems rest (index + 1)
      (item :: rest', stopped)
    else if isSingleInputAndOutput || isSameNumberOfItems then
      let pairedIndex := if isSingleInputAndOutput then 0 else index
      let (rest', stopped) :=
        pairItems isSingleInputAndOutput isSameNumberOfItems rest (index + 1)
      (items.withPairedItem item pairedIndex :: rest', stopped)
    else (item :: rest, true)

/-- The loop of `assignPairedItems` over the outputs, and whether it throws. -/
def pairOutputs (isSingleInputAndOutput isSameNumberOfItems : Bool) :
    List (Slot (List ι)) → List (Slot (List ι)) × Bool
  | [] => ([], false)
  | .null :: rest =>
    let (rest', threw) := pairOutputs isSingleInputAndOutput isSameNumberOfItems rest
    (.null :: rest', threw)
  | .data output :: rest =>
    let (output', stopped) := pairItems items isSingleInputAndOutput isSameNumberOfItems output 0
    if stopped then (.data output' :: rest, false)
    else
      let (rest', threw) := pairOutputs isSingleInputAndOutput isSameNumberOfItems rest
      (.data output' :: rest', threw)
  | slot :: rest => (slot :: rest, true)

/-- `array?.length`. -/
def slotLength {α : Type} : Slot (List α) → Option Nat
  | .data items => some items.length
  | _ => none

/-- `assignPairedItems(nodeSuccessData, executionData)`: what it returns, or leaves behind when it
throws. -/
def assignPairedItems (main : Option (List (Slot (List ι)))) : NodeOutput ι → NodeOutput ι × Bool
  | .data [] => (.data [], false)
  | .data (output :: outputs) =>
    match main with
    | none => (.data (output :: outputs), true)
    | some main =>
      let firstLength := slotLength (readSlot main 0)
      let isSingleInputAndOutput := main.length = 1 && firstLength = some 1
      if outputs = [] && main.length = 1 && (slotLength output).isNone then
        (.data (output :: outputs), true)
      else
        let isSameNumberOfItems :=
          outputs = [] && main.length = 1 && firstLength = slotLength output
        let (paired, threw) :=
          pairOutputs items isSingleInputAndOutput isSameNumberOfItems (output :: outputs)
        (.data paired, threw)
  | _ => (.null, false)

end PairedItems

/-- `nodeSuccessData?.[0]?.[0]`. -/
def firstItem : NodeOutput ι → Option ι
  | .data (.data (item :: _) :: _) => some item
  | _ => none

/-- All items of the inputs, as pairs of an item and an input. -/
def inputPairs (main : List (Slot (List ι))) : List (Nat × Nat) :=
  main.zipIdx.flatMap fun (slot, inputIndex) =>
    (List.range ((slotLength slot).getD 0)).map fun itemIndex => (itemIndex, inputIndex)

/-- The output of a node that always outputs data. Without main inputs it throws. -/
def outputAlways (items : ItemFunctions ι) (node : INode) (main : Option (List (Slot (List ι))))
    (nodeSuccessData : NodeOutput ι) : NodeOutput ι × Bool :=
  if (firstItem nodeSuccessData).isNone && node.alwaysOutputData = some true then
    match main with
    | none => (nodeSuccessData, true)
    | some main =>
      let outputs := nodeSuccessData.toOption.getD []
      (.data (writeSlot outputs 0 (.data [items.emptyItemPairedWith (inputPairs main)])), false)
  else (nodeSuccessData, false)

/-- The variables of the loop over the tries. `failed` says that `executionError` is set. -/
structure Tries (ι : Type) where
  nodeSuccessData : NodeOutput ι
  failed : Bool
  waitTill : Bool
  runData : IRunData ι
  calls : Nat

/-- How the loop over the tries ends: a try succeeds, the branch of the workflow ends because a
node returned no data, or all tries fail. -/
inductive TriesEnd where
  | success
  | branchEnded
  | failure
  deriving DecidableEq, Repr

section Tries

variable (e : Engine ι) (item : IExecuteData ι) (node : INode) (call : Nat → NodeCall ι)

/-- One call of `runNode`, and whether it throws. -/
def callNode (t : Tries ι) : Tries ι × Bool :=
  let c := call t.calls
  let t := { t with
    calls := t.calls + 1, waitTill := t.waitTill || c.waitTill, runData := c.addRuns t.runData }
  match c.result with
  | none => (t, true)
  | some nodeSuccessData => ({ t with nodeSuccessData := nodeSuccessData }, false)

/-- The calls that follow in the same try as long as the first item reports an error and `left`
tries are left: how many are left then, and whether the last call threw. -/
def callAgain : Nat → Tries ι → Tries ι × Nat × Bool
  | 0, t => (t, 0, false)
  | left + 1, t =>
    if (firstItem t.nodeSuccessData).any e.items.hasJsonError then
      match callNode call t with
      | (t, true) => (t, left + 1, true)
      | (t, false) => callAgain left t
    else (t, left + 1, false)

/-- `pinData[executionNode.name]`, unless the node is disabled. -/
def pinnedData : Option (List ι) :=
  if node.disabled = some true then none else e.pinData.bind (·.get? node.name)

/-- What follows the calls of `runNode` in a try, with whether it throws. -/
def completeOutput (nodeSuccessData : NodeOutput ι) : NodeOutput ι × Bool :=
  let main := item.data.get? .main
  let (paired, threw) := assignPairedItems e.items main nodeSuccessData
  if threw then (paired, true) else outputAlways e.items node main paired

/-- The data of a try: pinned data, or what `runNode` returns, with the items that report errors
moved to the error output. -/
def produceOutput (left : Nat) (t : Tries ι) : Tries ι × Nat × Bool :=
  match pinnedData e node with
  | some nodePinData => ({ t with nodeSuccessData := .data [.data nodePinData] }, left, false)
  | none =>
    let (t, threw) := callNode call t
    let (t, left, threw) := if threw then (t, left, true) else callAgain e call left t
    match threw, t.nodeSuccessData with
    | false, .data outputs =>
      if node.onError = some .continueErrorOutput then
        let (outputs, threw) := e.handleNodeErrorOutput item outputs
        ({ t with nodeSuccessData := .data outputs }, left, threw)
      else (t, left, false)
    | threw, _ => (t, left, threw)

/-- The loop over the tries, at most `rounds` of them, with `left` tries left after the next. -/
def runTries : Nat → Nat → Tries ι → Tries ι × TriesEnd
  | 0, _, t => (t, .failure)
  | rounds + 1, left, t =>
    let (t, left, threw) := produceOutput e item node call left { t with failed := false }
    let (nodeSuccessData, threw) :=
      if threw then (t.nodeSuccessData, true) else completeOutput e item node t.nodeSuccessData
    let t := { t with nodeSuccessData := nodeSuccessData, failed := threw }
    if threw then
      match left with
      | 0 => (t, .failure)
      | left + 1 => runTries rounds left t
    else if nodeSuccessData.isNull && !t.waitTill then (t, .branchEnded)
    else (t, .success)

end Tries

/-- The number of tries of a node. -/
def maxTries (node : INode) : Nat :=
  if node.retryOnFail = some true then
    let maxTries := match node.maxTries with
      | none | some 0 => 3
      | some maxTries => maxTries
    (min 5 (max 2 maxTries)).toNat
  else 1

/-- Run a node with its tries. -/
def runWithTries (e : Engine ι) (item : IExecuteData ι) (node : INode) (call : Nat → NodeCall ι)
    (runData : IRunData ι) : Tries ι × TriesEnd :=
  runTries e item node call (maxTries node) (maxTries node - 1)
    { nodeSuccessData := .null, failed := false, waitTill := false, runData := runData, calls := 0 }

end N8n.Execution
