import N8n.Execution.Data
import N8n.Graph.UnanimousSearch

/-!
# Following the links of items

`getPairedItem` of `packages/workflow/src/workflow-data-proxy.ts` goes back from an item to the
items it came from, until it gets to the destination node. `Reaches` is what following the recorded
links means. `get_paired_item_eq_run` shows that the function is a search whose branches must agree.
-/

namespace N8n.PairedItems

open Collections Execution N8n.Graph

/-! ## The data that item links are followed in

The part of `WorkflowDataProxy` that paired items use: the runs of the nodes with the items they
left, the links of the items, and the `ExpressionError`s of
`packages/workflow/src/workflow-data-proxy.ts`. An index that a link gives is an arbitrary integer.
-/

/-- The `type` of an `ExpressionError`. -/
inductive ExpressionErrorType where
  | noExecutionData
  | noNodeExecutionData
  | noInputConnection
  | internal
  | pairedItemInvalidInfo
  | pairedItemNoInfo
  | pairedItemMultipleMatches
  | pairedItemNoConnection
  | pairedItemIntermediateNodes
  deriving DecidableEq, Repr

/-- What a function node shows instead of an error's own texts. -/
structure FunctionOverrides where
  message : Option String := none
  description : Option String := none
  deriving DecidableEq, Repr

/-- The context that an error is created with. An `itemIndex` that is given may be undefined. -/
structure ExpressionErrorOptions where
  causeDetailed : Option String := none
  description : Option String := none
  descriptionKey : Option String := none
  descriptionTemplate : Option String := none
  functionality : Option String := none
  itemIndex : Option (Option Int) := none
  messageTemplate : Option String := none
  nodeCause : Option String := none
  type : Option ExpressionErrorType := none
  moreInfoLink : Bool := false
  functionOverrides : Option FunctionOverrides := none
  deriving DecidableEq, Repr

/-- An `ExpressionError` with the entries of its `context`. -/
structure ExpressionError where
  message : String
  description : Option String
  functionality : Option String
  causeDetailed : Option String
  descriptionKey : Option String
  descriptionTemplate : Option String
  itemIndex : Option Int
  messageTemplate : Option String
  nodeCause : Option String
  runIndex : Int
  type : Option ExpressionErrorType
  deriving DecidableEq, Repr

/-- The exceptions of the proxy. -/
inductive ProxyException where
  | expressionError (error : ExpressionError)
  | applicationError (message : String)
  /-- Reading a property of `undefined` or `null`. -/
  | typeError
  /-- The call stack is used up. -/
  | rangeError
  deriving DecidableEq, Repr

/-- A link to an item. A value that is no link reads as one without any property. -/
structure IPairedItemData where
  item : Option Int := none
  input : Option Int := none
  sourceOverwrite : Option ISourceData := none
  deriving DecidableEq, Repr

/-- An element of `pairedItem`. -/
inductive PairedItemEntry where
  | number (item : Int)
  | object (data : IPairedItemData)
  deriving DecidableEq, Repr

/-- The property `pairedItem` of an item. -/
inductive PairedItem where
  | undefined
  | null
  | single (entry : PairedItemEntry)
  | array (entries : List PairedItemEntry)
  deriving DecidableEq, Repr

/-- An item. `===` compares objects and not their contents: `ref` tells two items with the same
contents apart. -/
structure INodeExecutionData where
  ref : Nat
  pairedItem : PairedItem := .undefined
  deriving DecidableEq, Repr

/-- What a run of a node has left, and where the data of its inputs came from. -/
structure ITaskData where
  data : Option (ITaskDataConnections INodeExecutionData)
  source : List (Option ISourceData)
  deriving DecidableEq, Repr

/-- The runs of the nodes. A run may be missing. -/
abbrev IRunData := InsertionMap String (List (Option ITaskData))

/-- The state of a `WorkflowDataProxy` as far as paired items depend on it. -/
structure WorkflowDataProxy where
  workflow : Workflow
  pinData : Option (IPinData INodeExecutionData)
  /-- The answers of `workflow.hasPath`, which searches in both directions. -/
  hasPath : String → String → Bool
  /-- `runExecutionData?.resultData?.runData`. -/
  runData : Option IRunData
  runIndex : Int
  itemIndex : Int
  activeNodeName : String
  connectionInputData : List INodeExecutionData
  mode : WorkflowExecuteMode
  /-- `executeData?.source`. -/
  source : Option ITaskDataConnectionsSource
  contextNodeName : String

/-- The methods that find a paired item. -/
inductive PairedItemMethod where
  | pairedItem
  | itemMatching
  | item
  | getPairedItem
  deriving DecidableEq, Repr

/-- The name of a method. -/
def PairedItemMethod.toString : PairedItemMethod → String
  | pairedItem => "pairedItem"
  | itemMatching => "itemMatching"
  | item => "item"
  | getPairedItem => "$getPairedItem"

/-- `SCRIPTING_NODE_TYPES`. -/
def scriptingNodeTypes : List String :=
  ["n8n-nodes-base.function", "n8n-nodes-base.functionItem", "n8n-nodes-base.code",
    "n8n-nodes-base.aiTransform"]

/-- Read an element of an array at any index. -/
def elementAt {α : Type} (l : List α) (index : Int) : Option α :=
  if index < 0 then none else l[index.toNat]?

theorem element_at_eq_none_iff {α : Type} {l : List α} {index : Int} :
    elementAt l index = none ↔ index < 0 ∨ l.length ≤ index := by
  unfold elementAt
  split
  · simp_all
  · rename_i hnonneg
    rw [List.getElem?_eq_none_iff]
    omega

namespace WorkflowDataProxy

variable (p : WorkflowDataProxy)

/-- `isScriptingNode(nodeName, workflow)`. -/
def isScriptingNode (nodeName : String) : Bool :=
  (p.workflow.getNode nodeName).any fun node => node.type ∈ scriptingNodeTypes

/-- `getPinDataIfManualExecution(workflow, nodeName, mode)`. -/
def getPinDataIfManualExecution (nodeName : String) : Option (List INodeExecutionData) :=
  if p.mode = .manual then p.pinData.bind (·.get? nodeName) else none

/-- `new ExpressionError(message, { runIndex, itemIndex, ...context })`. -/
def expressionError (message : String) (context : ExpressionErrorOptions) : ProxyException :=
  .expressionError
    { message
      description := context.description
      functionality := context.functionality
      causeDetailed := context.causeDetailed
      descriptionKey := context.descriptionKey
      descriptionTemplate := context.descriptionTemplate
      itemIndex := context.itemIndex.getD (some p.itemIndex)
      messageTemplate := context.messageTemplate
      nodeCause := context.nodeCause
      runIndex := p.runIndex
      type := context.type }

/-- The link that is appended to a description. -/
def moreInfoLink : String :=
  " <a target=\"_blank\" href=\"https://docs.n8n.io/data/data-mapping/data-item-linking/" ++
    "item-linking-errors/\">More info</a>"

/-- The texts of an error that a function node shows in its own words. -/
def overrideTexts (message : String) (context : ExpressionErrorOptions) :
    String × ExpressionErrorOptions :=
  match context.functionOverrides with
  | none => (message, context)
  | some overrides =>
    if p.isScriptingNode p.activeNodeName then
      (overrides.message.getD message,
        { context with
          description := overrides.description.or context.description
          messageTemplate := none })
    else (message, context)

/-- The texts of an error that pinned data of the node at its cause changes. -/
def pinnedTexts (message : String) (context : ExpressionErrorOptions) :
    String × ExpressionErrorOptions :=
  match context.nodeCause.filter (· ≠ "") with
  | none => (message, context)
  | some nodeName =>
    let pinned := (p.getPinDataIfManualExecution nodeName).isSome
    let (message, context) :=
      if pinned then
        ("Unpin '" ++ nodeName ++ "' to execute",
          { context with messageTemplate := none, descriptionKey := some "pairedItemPinned" })
      else (message, context)
    if context.moreInfoLink && (pinned || p.isScriptingNode nodeName) then
      -- appending to a description that is undefined spells that out
      (message,
        { context with
          description := some (context.description.getD "undefined" ++ moreInfoLink)
          descriptionTemplate := context.descriptionTemplate.map (· ++ moreInfoLink) })
    else (message, context)

/-- `createExpressionError(message, context)`. -/
def createExpressionError (message : String) (context : ExpressionErrorOptions) : ProxyException :=
  let (message, context) := p.overrideTexts message context
  let (message, context) := p.pinnedTexts message context
  p.expressionError message context

/-- `createInvalidPairedItemError({ nodeName })`. -/
def createInvalidPairedItemError (nodeName : String) : ProxyException :=
  p.createExpressionError "Can't get data for expression"
    { messageTemplate := some "Expression info invalid"
      functionality := some "pairedItem"
      functionOverrides := some { message := some "Can't get data" }
      nodeCause := some nodeName
      descriptionKey := some "pairedItemInvalidInfo"
      type := some .pairedItemInvalidInfo }

/-- `createMissingPairedItemError(nodeCause, usedMethodName)`. -/
def createMissingPairedItemError (nodeCause : String) (usedMethodName : PairedItemMethod) :
    ProxyException :=
  let message :=
    if (p.getPinDataIfManualExecution nodeCause).isSome then
      "Using the " ++ usedMethodName.toString ++
        " method doesn't work with pinned data in this scenario. Please unpin '" ++ nodeCause ++
        "' and try again."
    else
      "Paired item data for " ++ usedMethodName.toString ++ " from node '" ++ nodeCause ++
        "' is unavailable. Ensure '" ++ nodeCause ++ "' is providing the required output."
  p.expressionError message
    { functionality := some "pairedItem"
      descriptionKey := some (if p.isScriptingNode nodeCause then "pairedItemNoInfoCodeNode"
        else "pairedItemNoInfo")
      nodeCause := some nodeCause
      causeDetailed := some ("Missing pairedItem data (node '" ++ nodeCause ++
        "' probably didn't supply it)")
      type := some .pairedItemNoInfo }

/-- `createNodeReferenceError(nodeCause)`. -/
def createNodeReferenceError (nodeCause : String) : ProxyException :=
  p.createExpressionError "Error finding the referenced node"
    { messageTemplate := some ("Make sure the node you referenced is spelled correctly and is a " ++
        "parent of this node")
      functionality := some "pairedItem"
      descriptionKey := some (if p.isScriptingNode nodeCause then "pairedItemNoConnectionCodeNode"
        else "pairedItemNoConnection")
      type := some .pairedItemNoConnection
      moreInfoLink := true
      nodeCause := some nodeCause }

/-- How an index that may be undefined is spelled in a text. -/
def showIndex : Option Int → String
  | none => "undefined"
  | some index => toString index

/-- `createBranchNotFoundError(node, item, cause)`. -/
def createBranchNotFoundError (node : String) (item : Option Int) (cause : Option String) :
    ProxyException :=
  p.createExpressionError "Branch not found"
    { messageTemplate := some "Paired item references non-existent branch"
      functionality := some "pairedItem"
      nodeCause := cause
      functionOverrides := some { message := some "Invalid branch reference" }
      description := some ("Item " ++ showIndex item ++ " in node " ++ node ++
        " references a branch that doesn't exist.")
      type := some .pairedItemInvalidInfo }

/-- `createPairedItemNotFound(destNode, cause)`. -/
def createPairedItemNotFound (destNode : String) (cause : Option String) : ProxyException :=
  p.createExpressionError "Paired item resolution failed"
    { messageTemplate := some "Unable to find paired item source"
      functionality := some "pairedItem"
      nodeCause := cause
      functionOverrides := some { message := some "Data not found" }
      description := some ("Could not trace back to node '" ++ destNode ++ "'")
      type := some .pairedItemNoInfo
      moreInfoLink := true }

/-- `createPairedItemMultipleItemsFound(destNode, itemIndex)`. -/
def createPairedItemMultipleItemsFound (destNode : String) (itemIndex : Option Int) :
    ProxyException :=
  p.createExpressionError "Multiple matches found"
    { messageTemplate := some ("Multiple matching items for item [" ++ showIndex itemIndex ++ "]")
      functionality := some "pairedItem"
      functionOverrides := some { message := some "Multiple matches" }
      nodeCause := some destNode
      descriptionKey := some (if p.isScriptingNode destNode then "pairedItemMultipleMatchesCodeNode"
        else "pairedItemMultipleMatches")
      type := some .pairedItemMultipleMatches }

/-- `getTaskData(source)`: the run of the node, or its pinned data as a run without sources. -/
def getTaskData (source : ISourceData) : Option ITaskData :=
  let task := do
    let runs ← (← p.runData).get? source.previousNode
    (runs[source.previousNodeRun.getD 0]?).join
  task.or ((p.getPinDataIfManualExecution source.previousNode).map fun pinData =>
    { data := some (ofMain [.data pinData]), source := [] })

/-- `getNodeOutput(taskData, source, nodeCause)`. -/
def getNodeOutput (taskData : Option ITaskData) (source : ISourceData)
    (nodeCause : Option String) : Except ProxyException (List INodeExecutionData) :=
  let outputIndex := source.previousNodeOutput.getD 0
  let outputs := do
    let main ← (← (← taskData).data).get? .main
    (readSlot main outputIndex).toOption
  match outputs with
  | some outputs => .ok outputs
  | none => .error (p.createExpressionError "Can’t get data for expression"
      { messageTemplate := some "Missing output data"
        functionOverrides := some { message := some "Missing output" }
        nodeCause
        description := some ("Expected output #" ++ toString outputIndex ++ " from node " ++
          source.previousNode)
        type := some .internal })

/-- The error is an `ExpressionError`. -/
def Documented (e : ProxyException) : Prop := ∃ error, e = .expressionError error

theorem create_expression_error_documented (message : String) (context : ExpressionErrorOptions) :
    Documented (p.createExpressionError message context) := ⟨_, rfl⟩

end WorkflowDataProxy

/-! ## Following the links of items -/

/-- What is passed as `initialPairedItem`: a value of `pairedItem`, which has to be a link. -/
abbrev PairedItemArgument := PairedItemEntry ⊕ List PairedItemEntry

/-- The arguments of a call that change from call to call. -/
structure PairedItemCall where
  incomingSourceData : Option ISourceData
  initialPairedItem : PairedItemArgument
  nodeBeforeLast : Option String := none
  deriving DecidableEq, Repr

/-- The properties of a value that is taken for a link. An array has none of them. -/
def IPairedItemData.ofArgument : PairedItemArgument → IPairedItemData
  | .inl (.number item) => { item := some item }
  | .inl (.object data) => data
  | .inr _ => {}

/-- `normalizeInputs(pairedItem, sourceData)`. -/
def normalizeInputs (pairedItem : PairedItemArgument) (sourceData : Option ISourceData) :
    IPairedItemData × Option ISourceData :=
  let pairedItem := IPairedItemData.ofArgument pairedItem
  (pairedItem, pairedItem.sourceOverwrite.or sourceData)

/-- `normalizePairedItem(paired)`. -/
def normalizePairedItem (paired : PairedItem) : List IPairedItemData :=
  let pairedItems : List PairedItemEntry :=
    match paired with
    | .undefined | .null => []
    | .single entry => [entry]
    | .array entries => entries
  pairedItems.map fun
    | .number item => { item := some item }
    | .object data => data

namespace PairedItemCall

/-- The link that a call follows. -/
def pairedItem (call : PairedItemCall) : IPairedItemData :=
  (normalizeInputs call.initialPairedItem call.incomingSourceData).1

/-- The run and output that a call looks at. -/
def sourceData (call : PairedItemCall) : Option ISourceData :=
  (normalizeInputs call.initialPairedItem call.incomingSourceData).2

end PairedItemCall

namespace WorkflowDataProxy

variable (p : WorkflowDataProxy)

/-- The call that goes on with a link of an item, if the input that the link names is one of the
run that left the item. -/
def nextCall (sourceArray : List (Option ISourceData)) (previousNode : String)
    (nextPairedItem : IPairedItemData) : Option PairedItemCall :=
  let inputIndex := nextPairedItem.input.getD 0
  if sourceArray.length ≤ inputIndex then none
  else some
    { incomingSourceData :=
        nextPairedItem.sourceOverwrite.or (elementAt sourceArray inputIndex).join
      initialPairedItem := .inl (.object { nextPairedItem with input := some inputIndex })
      nodeBeforeLast := some previousNode }

/-- The end of `getPairedItem`, from the results of the links on, with its last two errors. -/
def matchResults (results : List (Except ProxyException (Option INodeExecutionData)))
    (noMatch multipleMatches : ProxyException) :
    Except ProxyException (Option INodeExecutionData) :=
  if results.all (·.toOption.isNone) then
    -- `results[0].error`
    match results with
    | .error error :: _ => .error error
    | _ => .error .typeError
  else
    match results.filterMap Except.toOption with
    | [] => .error noMatch
    | first :: rest => if rest.any (· ≠ first) then .error multipleMatches else .ok first

/-- `getPairedItem(destinationNodeName, incomingSourceData, initialPairedItem, usedMethodName,
nodeBeforeLast)`, with a bound on the depth of the calls. The result is `none` where the source
returns `undefined`. -/
def getPairedItem (destinationNodeName : String) (usedMethodName : PairedItemMethod) :
    Nat → PairedItemCall → Except ProxyException (Option INodeExecutionData)
  | 0, _ => .error .rangeError
  | fuel + 1, call =>
    let (pairedItem, sourceData) := normalizeInputs call.initialPairedItem call.incomingSourceData
    match sourceData with
    | none => .error (p.createPairedItemNotFound destinationNodeName call.nodeBeforeLast)
    | some sourceData =>
      let taskData := p.getTaskData sourceData
      match p.getNodeOutput taskData sourceData call.nodeBeforeLast with
      | .error error => .error error
      | .ok outputData =>
        let item := pairedItem.item.bind (elementAt outputData)
        let sourceArray := (taskData.map (·.source)).getD []
        if sourceData.previousNode = destinationNodeName then
          if pairedItem.item.any fun index => (outputData.length : Int) ≤ index then
            .error (p.createInvalidPairedItemError sourceData.previousNode)
          else .ok item
        else
          match item with
          -- `item.pairedItem` of an item that is not there
          | none => .error .typeError
          | some item =>
            let nextPairedItems := normalizePairedItem item.pairedItem
            if nextPairedItems.length = 0 then
              .error (p.createMissingPairedItemError sourceData.previousNode usedMethodName)
            else
              let nextCalls :=
                nextPairedItems.filterMap (nextCall sourceArray sourceData.previousNode)
              matchResults
                (nextCalls.map (getPairedItem destinationNodeName usedMethodName fuel))
                (if sourceArray.length = 0 then
                  p.createNodeReferenceError destinationNodeName
                else
                  p.createBranchNotFoundError sourceData.previousNode pairedItem.item
                    call.nodeBeforeLast)
                (p.createPairedItemMultipleItemsFound destinationNodeName pairedItem.item)

section Links

variable (destinationNodeName : String)

/-- The output that a call looks at. -/
def outputOf (call : PairedItemCall) : Option (List INodeExecutionData) := do
  let source ← call.sourceData
  (p.getNodeOutput (p.getTaskData source) source call.nodeBeforeLast).toOption

/-- The item that a call stands at. -/
def itemAt (call : PairedItemCall) : Option INodeExecutionData := do
  let outputData ← p.outputOf call
  let item ← call.pairedItem.item
  elementAt outputData item

/-- The calls for the links of the item that a call stands at, as far as they name an input of the
run that left the item. -/
def linksFrom (call : PairedItemCall) : List PairedItemCall :=
  match call.sourceData, p.itemAt call with
  | some source, some item =>
    (normalizePairedItem item.pairedItem).filterMap
      (nextCall (((p.getTaskData source).map (·.source)).getD []) source.previousNode)
  | _, _ => []

/-- A call looks at the destination node. -/
def AtDestination (call : PairedItemCall) : Prop :=
  call.sourceData.map (·.previousNode) = some destinationNodeName

instance (call : PairedItemCall) : Decidable (AtDestination destinationNodeName call) :=
  inferInstanceAs (Decidable (_ = _))

/-- Following the recorded links leads to an item of the destination node. -/
inductive Reaches : PairedItemCall → INodeExecutionData → Prop where
  | here {call : PairedItemCall} {item : INodeExecutionData}
      (hdest : AtDestination destinationNodeName call) (hitem : p.itemAt call = some item) :
      Reaches call item
  | follow {call next : PairedItemCall} {item : INodeExecutionData}
      (hdest : ¬ AtDestination destinationNodeName call) (hlink : next ∈ p.linksFrom call)
      (hreach : Reaches next item) : Reaches call item

/-- The calls of `getPairedItem` that a call makes, with the depth that is left to each. -/
inductive Calls : Nat → PairedItemCall → Nat → PairedItemCall → Prop where
  | self {fuel : Nat} {call : PairedItemCall} : Calls fuel call fuel call
  | follow {fuel m : Nat} {call next x : PairedItemCall}
      (hdest : ¬ AtDestination destinationNodeName call) (hlink : next ∈ p.linksFrom call)
      (hcall : Calls fuel next m x) : Calls (fuel + 1) call m x

/-- The only item of the destination node that following the recorded links leads to. -/
def Only (call : PairedItemCall) (item : INodeExecutionData) : Prop :=
  p.Reaches destinationNodeName call item ∧
    ∀ other, p.Reaches destinationNodeName call other → other = item

/-- Some links agree on the only item that each of them leads to, and another one, which leads to
several items, leads to a different one. -/
def Swallows (call : PairedItemCall) : Prop :=
  ¬ AtDestination destinationNodeName call ∧
    ∃ item, (∃ next ∈ p.linksFrom call, p.Only destinationNodeName next item) ∧
      (∀ next ∈ p.linksFrom call, ∀ other, p.Only destinationNodeName next other → other = item) ∧
      ∃ next ∈ p.linksFrom call, ∃ other, p.Reaches destinationNodeName next other ∧ other ≠ item

end Links

section Search

variable (destinationNodeName : String) (usedMethodName : PairedItemMethod)

/-- What a call finds before it makes further calls. -/
def visit (call : PairedItemCall) :
    Visit PairedItemCall (Option INodeExecutionData) ProxyException :=
  match call.sourceData with
  | none => .failed (p.createPairedItemNotFound destinationNodeName call.nodeBeforeLast)
  | some source =>
    match p.getNodeOutput (p.getTaskData source) source call.nodeBeforeLast with
    | .error error => .failed error
    | .ok outputData =>
      if source.previousNode = destinationNodeName then
        if call.pairedItem.item.any fun index => (outputData.length : Int) ≤ index then
          .failed (p.createInvalidPairedItemError source.previousNode)
        else .found (p.itemAt call)
      else
        match p.itemAt call with
        | none => .failed .typeError
        | some item =>
          if (normalizePairedItem item.pairedItem).length = 0 then
            .failed (p.createMissingPairedItemError source.previousNode usedMethodName)
          else .branch (p.linksFrom call)

/-- The search that `getPairedItem` is. -/
def search : UnanimousSearch PairedItemCall (Option INodeExecutionData) ProxyException where
  visit := p.visit destinationNodeName usedMethodName
  exhausted := .rangeError
  noBranch := .typeError
  ambiguous call := p.createPairedItemMultipleItemsFound destinationNodeName call.pairedItem.item

end Search

end WorkflowDataProxy

namespace WorkflowDataProxy

variable {p : WorkflowDataProxy} {destinationNodeName : String} {usedMethodName : PairedItemMethod}

/-- The end of `getPairedItem` asks whether all links failed, and then no link is without a
match. -/
theorem match_results_eq (results : List (Except ProxyException (Option INodeExecutionData)))
    (noMatch multipleMatches : ProxyException) :
    matchResults results noMatch multipleMatches =
      UnanimousSearch.agree .typeError multipleMatches results := by
  unfold matchResults UnanimousSearch.agree
  by_cases hall : results.all (·.toOption.isNone) = true
  · have hnil : results.filterMap Except.toOption = [] := by
      rw [List.filterMap_eq_nil_iff]
      simpa using hall
    rw [if_pos hall, hnil]
    cases results with
    | nil => rfl
    | cons result rest =>
      cases result with
      | error e => rfl
      | ok v => simp [Except.toOption] at hall
  · rw [if_neg hall]
    cases hmatched : results.filterMap Except.toOption with
    | nil =>
      rw [List.filterMap_eq_nil_iff] at hmatched
      exact absurd (by simpa using hmatched) hall
    | cons first rest => rfl

variable {call : PairedItemCall}

theorem output_of_eq {source : ISourceData} (hsource : call.sourceData = some source) :
    p.outputOf call =
      (p.getNodeOutput (p.getTaskData source) source call.nodeBeforeLast).toOption := by
  simp [outputOf, hsource]

theorem item_at_eq {outputData : List INodeExecutionData}
    (houtput : p.outputOf call = some outputData) :
    p.itemAt call = call.pairedItem.item.bind (elementAt outputData) := by
  simp [itemAt, houtput]

theorem links_from_eq {source : ISourceData} {item : INodeExecutionData}
    (hsource : call.sourceData = some source) (hitem : p.itemAt call = some item) :
    p.linksFrom call = (normalizePairedItem item.pairedItem).filterMap
      (nextCall (((p.getTaskData source).map (·.source)).getD []) source.previousNode) := by
  rw [linksFrom, hsource, hitem]

theorem get_paired_item_eq_run (fuel : Nat) (call : PairedItemCall) :
    p.getPairedItem destinationNodeName usedMethodName fuel call =
      (p.search destinationNodeName usedMethodName).run fuel call := by
  induction fuel generalizing call with
  | zero => rfl
  | succ fuel ih =>
    have hrec : p.getPairedItem destinationNodeName usedMethodName fuel =
        (p.search destinationNodeName usedMethodName).run fuel := funext ih
    rw [getPairedItem, UnanimousSearch.run]
    dsimp only [search]
    rw [visit, hrec]
    change (match call.sourceData with | none => _ | some sourceData => _) = _
    cases hsource : call.sourceData with
    | none => rfl
    | some source =>
      dsimp only
      cases houtput : p.getNodeOutput (p.getTaskData source) source call.nodeBeforeLast with
      | error e => rfl
      | ok outputData =>
        have hitem : p.itemAt call = call.pairedItem.item.bind (elementAt outputData) :=
          item_at_eq (by rw [output_of_eq hsource, houtput]; rfl)
        dsimp only
        change (if _ then _ else (match call.pairedItem.item.bind (elementAt outputData) with
          | none => _ | some item => _)) = _
        rw [← hitem]
        by_cases hdest : source.previousNode = destinationNodeName
        · rw [if_pos hdest, if_pos hdest]
          by_cases hpast :
              (call.pairedItem.item.any fun index => (outputData.length : Int) ≤ index) = true
          · rw [if_pos hpast]
            exact if_pos hpast
          · rw [if_neg hpast, hitem]
            exact if_neg hpast
        · rw [if_neg hdest, if_neg hdest]
          cases hat : p.itemAt call with
          | none => rfl
          | some item =>
            dsimp only
            by_cases hempty : (normalizePairedItem item.pairedItem).length = 0
            · rw [if_pos hempty, if_pos hempty]
            · rw [if_neg hempty, if_neg hempty, ← links_from_eq hsource hat]
              exact match_results_eq _ _ _

end WorkflowDataProxy

end N8n.PairedItems
