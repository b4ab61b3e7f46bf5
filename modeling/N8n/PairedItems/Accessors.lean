import N8n.PairedItems.FollowedLinks

/-!
# The accessors of paired items

`$getPairedItem` and the properties `pairedItem`, `itemMatching` and `item` of `$(nodeName)`, which
find the current item and follow its links. `request_meets_iff` says exactly when they return the
only item that the links lead to or throw an `ExpressionError`. Where there is no input data, the
properties of a pinned node read its pinned data by index and follow no link.
-/

namespace N8n

open Collections

namespace Workflow

open PairedItems

/-- The targets of the connections of a node that are not of type `main`. -/
def nonMainTargets (nodeConnections : INodeConnections) : List IConnection :=
  (nodeConnections.entries.filter (·.1 ≠ .main)).flatMap fun (_, connections) =>
    connections.flatMap (·.getD [])

/-- `getParentMainInputNode(node, visitedNodes)`. Once the bound is used up every node of the
workflow has been visited. -/
def getParentMainInputNode (w : Workflow) : Nat → INode → List String → Except ProxyException INode
  | 0, node, _ => .ok node
  | fuel + 1, node, visitedNodes =>
    if node.name ∈ visitedNodes then .ok node
    else
      let target := (w.connectionsBySourceNode.get? node.name).bind fun nodeConnections =>
        (nonMainTargets nodeConnections).find? (·.node ≠ "")
      match target with
      | none => .ok node
      | some connection =>
        match w.getNode connection.node with
        | none => .error (.applicationError ("Node \"" ++ connection.node ++ "\" not found"))
        | some returnNode =>
          getParentMainInputNode w fuel returnNode (visitedNodes ++ [node.name])

theorem parent_main_input_node_error {w : Workflow} {fuel : Nat} {node : INode}
    {visitedNodes : List String} {e : ProxyException}
    (h : w.getParentMainInputNode fuel node visitedNodes = .error e) :
    ∃ message, e = .applicationError message := by
  induction fuel generalizing node visitedNodes with
  | zero => cases h
  | succ fuel ih =>
    rw [getParentMainInputNode] at h
    split at h
    · cases h
    · dsimp only at h
      split at h
      · cases h
      · split at h
        · cases h
          exact ⟨_, rfl⟩
        · exact ih h

end Workflow

namespace PairedItems

open Execution

/-- The properties of `$(nodeName)` that find a paired item. -/
inductive ItemProperty where
  | pairedItem
  | itemMatching
  | item
  deriving DecidableEq, Repr

/-- The method that a property stands for. -/
def ItemProperty.method : ItemProperty → PairedItemMethod
  | pairedItem => .pairedItem
  | itemMatching => .itemMatching
  | item => .item

/-- What `pairedItemMethod` has found before it follows links: an item of the pinned data, which is
the answer, or the current item with its index. -/
inductive AccessorStart where
  | pinned (item : Option INodeExecutionData)
  | current (input : INodeExecutionData) (itemIndex : Int)
  deriving DecidableEq, Repr

namespace WorkflowDataProxy

variable (p : WorkflowDataProxy)

/-- The node that has to be connected to the referenced one. -/
def contextNode : Except ProxyException String :=
  match p.workflow.getNode p.activeNodeName with
  | none => .ok p.contextNodeName
  | some activeNode =>
    (p.workflow.getParentMainInputNode p.workflow.nodes.entries.length activeNode []).map (·.name)

/-- `ensureNodeExecutionData()` does not throw. -/
def hasNodeExecutionData (nodeName : String) : Bool :=
  p.runData.any (·.has nodeName) || (p.getPinDataIfManualExecution nodeName).isSome

/-- The index of the current item. `item` is called without one. -/
def currentIndex (property : ItemProperty) (itemIndex : Option Int) : Except ProxyException Int :=
  match property, itemIndex with
  | .item, _ | .pairedItem, none => .ok p.itemIndex
  | .itemMatching, none =>
    .error (p.createExpressionError "Missing item index for .itemMatching()"
      { itemIndex := some none })
  | .pairedItem, some index | .itemMatching, some index => .ok index

/-- The error for a current item that is not there. -/
def createIntermediateNodesError (nodeName : String) (itemIndex : Int) : ProxyException :=
  let description := "Some intermediate nodes between ‘<strong>" ++ nodeName ++
    "</strong>‘ and  ‘<strong>" ++ p.activeNodeName ++ "</strong>‘ have not executed yet."
  p.createExpressionError "Can’t get data for expression"
    { messageTemplate := some "Can’t get data for expression under ‘%%PARAMETER%%’ field"
      functionality := some "pairedItem"
      functionOverrides := some
        { description := some description, message := some "Can’t get data" }
      description := some description
      causeDetailed := some
        ("pairedItem can't be found when intermediate nodes between ‘<strong>" ++ nodeName ++
          "</strong>‘ and  ‘<strong>" ++ p.activeNodeName ++ "</strong> have not executed yet.")
      itemIndex := some (some itemIndex)
      type := some .pairedItemIntermediateNodes }

/-- `pairedItemMethod` once it has its index, up to the current item. -/
def currentItem (nodeName : String) (itemIndex : Int) : Except ProxyException AccessorStart :=
  let pinnedData :=
    if p.connectionInputData.length = 0 then p.getPinDataIfManualExecution nodeName else none
  match pinnedData with
  | some pinnedData => .ok (.pinned (elementAt pinnedData itemIndex))
  | none =>
    match elementAt p.connectionInputData itemIndex with
    | none => .error (p.createIntermediateNodesError nodeName itemIndex)
    | some input => .ok (.current input itemIndex)

/-- `$(nodeName)` and the property, up to the current item. -/
def accessorStart (nodeName : String) (property : ItemProperty) (itemIndex : Option Int) :
    Except ProxyException AccessorStart :=
  if nodeName = "" then
    .error (p.createExpressionError "When calling $(), please specify a node" {})
  else if (p.workflow.getNode nodeName).isNone then .error (p.createNodeReferenceError nodeName)
  else
    match p.contextNode with
    | .error error => .error error
    | .ok contextNode =>
      if !p.hasPath nodeName contextNode then .error (p.createNodeReferenceError nodeName)
      else if !p.hasNodeExecutionData nodeName then
        .error (p.expressionError "No execution data available"
          { messageTemplate := some ("Execute node \"" ++ nodeName ++ "\" for preview")
            nodeCause := some nodeName })
      else
        match p.currentIndex property itemIndex with
        | .error error => .error error
        | .ok index => p.currentItem nodeName index

/-- The value of `pairedItem` that is taken for a link, if it has properties. -/
def argumentOf : PairedItem → Option PairedItemArgument
  | .undefined | .null => none
  | .single entry => some (.inl entry)
  | .array entries => some (.inr entries)

/-- The error for a current item without a source. -/
def createMissingSourceError (itemIndex : Int) : ProxyException :=
  p.createExpressionError "Can’t get data for expression"
    { messageTemplate := some "Can’t get data for expression under ‘%%PARAMETER%%’ field"
      functionality := some "pairedItem"
      functionOverrides := some { message := some "Can’t get data" }
      description := some "Apologies, this is an internal error. See details for more information"
      causeDetailed := some "Missing sourceData (probably an internal error)"
      itemIndex := some (some itemIndex) }

/-- The call that follows a link of the current item, from the source of the input it names, or of
the first input. A value that is `null` has no property `input`. -/
def callFrom (itemIndex : Int) (pairedItem : Option PairedItemArgument) :
    Except ProxyException PairedItemCall :=
  match p.source with
  | none => .error (p.createMissingSourceError itemIndex)
  | some source =>
    match source.get? .main, pairedItem with
    | some main, some pairedItem =>
      let input := (IPairedItemData.ofArgument pairedItem).input.getD 0
      let sourceAt (index : Int) := (elementAt main index).bind Slot.toOption
      .ok { incomingSourceData := (sourceAt input).or (sourceAt 0)
            initialPairedItem := pairedItem }
    | _, _ => .error .typeError

/-- The call that follows the links of the current item. -/
def startCall (property : ItemProperty) (input : INodeExecutionData) (itemIndex : Int) :
    Except ProxyException PairedItemCall :=
  if input.pairedItem = .undefined then
    .error (p.createMissingPairedItemError p.activeNodeName property.method)
  else p.callFrom itemIndex (argumentOf input.pairedItem)

/-- `$(nodeName).pairedItem(itemIndex)`, `$(nodeName).itemMatching(itemIndex)` and
`$(nodeName).item`, with the depth that is left for calls of `getPairedItem`. -/
def pairedItemAccessor (fuel : Nat) (nodeName : String) (property : ItemProperty)
    (itemIndex : Option Int) : Except ProxyException (Option INodeExecutionData) :=
  match p.accessorStart nodeName property itemIndex with
  | .error error => .error error
  | .ok (.pinned item) => .ok item
  | .ok (.current input index) =>
    match p.startCall property input index with
    | .error error => .error error
    | .ok call => p.getPairedItem nodeName property.method fuel call

end WorkflowDataProxy

/-- A request for a paired item: a call of `$getPairedItem`, or of one of the accessors. -/
inductive Request where
  | getPairedItem (destinationNodeName : String) (usedMethodName : PairedItemMethod)
      (call : PairedItemCall)
  | accessor (nodeName : String) (property : ItemProperty) (itemIndex : Option Int)
  deriving DecidableEq, Repr

namespace Request

/-- The node whose item is asked for. -/
def destinationNodeName : Request → String
  | getPairedItem destinationNodeName _ _ => destinationNodeName
  | accessor nodeName _ _ => nodeName

/-- The method that errors name. -/
def usedMethodName : Request → PairedItemMethod
  | getPairedItem _ usedMethodName _ => usedMethodName
  | accessor _ property _ => property.method

end Request

namespace WorkflowDataProxy

variable (p : WorkflowDataProxy)

/-- The answer to a request. -/
def answer (fuel : Nat) : Request → Except ProxyException (Option INodeExecutionData)
  | .getPairedItem destinationNodeName usedMethodName call =>
    p.getPairedItem destinationNodeName usedMethodName fuel call
  | .accessor nodeName property itemIndex => p.pairedItemAccessor fuel nodeName property itemIndex

/-- A request follows the links from here, the current item for an accessor. -/
inductive Follows : Request → PairedItemCall → Prop where
  | getPairedItem {destinationNodeName : String} {usedMethodName : PairedItemMethod}
      {call : PairedItemCall} :
      Follows (.getPairedItem destinationNodeName usedMethodName call) call
  | accessor {nodeName : String} {property : ItemProperty} {itemIndex : Option Int}
      {input : INodeExecutionData} {index : Int} {call : PairedItemCall}
      (hstart : p.accessorStart nodeName property itemIndex = .ok (.current input index))
      (hcall : p.startCall property input index = .ok call) :
      Follows (.accessor nodeName property itemIndex) call

/-- An accessor without input data reads the pinned data of its node. -/
inductive ReadsPinned : Request → Option INodeExecutionData → Prop where
  | accessor {nodeName : String} {property : ItemProperty} {itemIndex : Option Int}
      {pinnedData : List INodeExecutionData} {index : Int} (hinput : p.connectionInputData = [])
      (hpinned : p.getPinDataIfManualExecution nodeName = some pinnedData)
      (hindex : p.currentIndex property itemIndex = .ok index) :
      ReadsPinned (.accessor nodeName property itemIndex) (elementAt pinnedData index)

/-- A request is answered by the only item of the node that the recorded links lead to, or by an
`ExpressionError`, and so is every call it makes; without input data, by the pinned item. -/
structure RequestMeets (fuel : Nat) (request : Request) : Prop where
  value : ∀ result, p.answer fuel request = .ok result →
    p.ReadsPinned request result ∨ ∃ call item, p.Follows request call ∧ result = some item ∧
      p.Only request.destinationNodeName call item
  error : ∀ e, p.answer fuel request = .error e → Documented e
  calls : ∀ call, p.Follows request call →
    ∀ m x, p.Calls request.destinationNodeName fuel call m x →
      p.Meets request.destinationNodeName request.usedMethodName m x

/-- What keeps a request from being answered so: a defect of a link on the way, or, for an accessor,
a connection to a node that does not exist on the way to the context node, or a current item
without a link or without a source of type `main`. -/
inductive RequestDefect (fuel : Nat) : Request → Prop where
  | link {request : Request} {call x : PairedItemCall} {m : Nat} (hfollows : p.Follows request call)
      (hcall : p.Calls request.destinationNodeName fuel call m x)
      (hdefect : p.LinkDefect request.destinationNodeName m x) : RequestDefect fuel request
  | contextNode {nodeName : String} {property : ItemProperty} {itemIndex : Option Int}
      {e : ProxyException} (hname : nodeName ≠ "") (hnode : (p.workflow.getNode nodeName).isSome)
      (hcontext : p.contextNode = .error e) :
      RequestDefect fuel (.accessor nodeName property itemIndex)
  | currentItem {nodeName : String} {property : ItemProperty} {itemIndex : Option Int}
      {input : INodeExecutionData} {index : Int} {source : ITaskDataConnectionsSource}
      (hstart : p.accessorStart nodeName property itemIndex = .ok (.current input index))
      (hpaired : input.pairedItem ≠ .undefined) (hsource : p.source = some source)
      (hmissing : input.pairedItem = .null ∨ source.get? .main = none) :
      RequestDefect fuel (.accessor nodeName property itemIndex)

variable {p} {nodeName : String} {property : ItemProperty} {itemIndex : Option Int}
  {input : INodeExecutionData} {index : Int}

variable {e : ProxyException}

theorem current_index_error (h : p.currentIndex property itemIndex = .error e) : Documented e := by
  unfold currentIndex at h
  split at h
  · cases h
  · cases h
  · cases h
    exact ⟨_, rfl⟩
  · cases h
  · cases h

theorem current_item_error (h : p.currentItem nodeName index = .error e) : Documented e := by
  unfold currentItem at h
  dsimp only at h
  split at h
  · cases h
  · split at h
    · cases h
      exact ⟨_, rfl⟩
    · cases h

theorem current_item_pinned {item : Option INodeExecutionData}
    (h : p.currentItem nodeName index = .ok (.pinned item)) :
    p.connectionInputData = [] ∧ ∃ pinnedData,
      p.getPinDataIfManualExecution nodeName = some pinnedData ∧
        item = elementAt pinnedData index := by
  unfold currentItem at h
  dsimp only at h
  split at h
  · rename_i pinnedData hpinned
    split at hpinned
    · rename_i hempty
      cases h
      exact ⟨List.eq_nil_of_length_eq_zero hempty, pinnedData, hpinned, rfl⟩
    · cases hpinned
  · split at h <;> cases h

/-- What the accessor has done before it gets to the current item: it has thrown an
`ExpressionError` or what the walk to the context node throws, or it knows the index. -/
theorem accessor_start_cases (p : WorkflowDataProxy) (nodeName : String) (property : ItemProperty)
    (itemIndex : Option Int) :
    (∃ e, p.accessorStart nodeName property itemIndex = .error e ∧ Documented e) ∨
      (∃ e, nodeName ≠ "" ∧ (p.workflow.getNode nodeName).isSome ∧ p.contextNode = .error e ∧
        p.accessorStart nodeName property itemIndex = .error e) ∨
      ∃ index, p.currentIndex property itemIndex = .ok index ∧
        p.accessorStart nodeName property itemIndex = p.currentItem nodeName index := by
  unfold accessorStart
  split
  · exact .inl ⟨_, rfl, _, rfl⟩
  · rename_i hname
    split
    · exact .inl ⟨_, rfl, _, rfl⟩
    · rename_i hnode
      have hsome : (p.workflow.getNode nodeName).isSome := by
        simpa [Option.isSome_iff_ne_none] using hnode
      cases hcontext : p.contextNode with
      | error e => exact .inr (.inl ⟨e, hname, hsome, rfl, rfl⟩)
      | ok contextNode =>
        dsimp only
        split
        · exact .inl ⟨_, rfl, _, rfl⟩
        · split
          · exact .inl ⟨_, rfl, _, rfl⟩
          · cases hindex : p.currentIndex property itemIndex with
            | error e => exact .inl ⟨e, rfl, current_index_error hindex⟩
            | ok index => exact .inr (.inr ⟨index, rfl, rfl⟩)

theorem context_node_error (h : p.contextNode = .error e) : ¬ Documented e := by
  unfold contextNode at h
  split at h
  · cases h
  · rename_i activeNode _
    cases hparent : p.workflow.getParentMainInputNode p.workflow.nodes.entries.length
        activeNode [] with
    | ok node => simp [hparent, Except.map] at h
    | error e' =>
      obtain ⟨message, rfl⟩ := Workflow.parent_main_input_node_error hparent
      rw [hparent] at h
      cases h
      rintro ⟨_, h⟩
      cases h

theorem call_from_cases (p : WorkflowDataProxy) (index : Int)
    (pairedItem : Option PairedItemArgument) :
    (p.source = none ∧ ∃ e, p.callFrom index pairedItem = .error e ∧ Documented e) ∨
      ∃ source, p.source = some source ∧
        ((p.callFrom index pairedItem = .error .typeError ∧
          (pairedItem = none ∨ source.get? .main = none)) ∨
        ∃ call, p.callFrom index pairedItem = .ok call ∧ pairedItem ≠ none ∧
          source.get? .main ≠ none) := by
  unfold callFrom
  cases p.source with
  | none => exact .inl ⟨rfl, _, rfl, _, rfl⟩
  | some source =>
    refine .inr ⟨source, rfl, ?_⟩
    dsimp only
    cases source.get? .main with
    | none => exact .inl ⟨rfl, .inr rfl⟩
    | some main =>
      cases pairedItem with
      | none => exact .inl ⟨rfl, .inl rfl⟩
      | some pairedItem => exact .inr ⟨_, rfl, by simp, by simp⟩

/-- The links of the current item are followed, or an `ExpressionError` is thrown, or the item has
no link or no source of type `main` and a `TypeError` is thrown. -/
theorem start_call_cases (p : WorkflowDataProxy) (property : ItemProperty)
    (input : INodeExecutionData) (index : Int) :
    (∃ e, p.startCall property input index = .error e ∧ Documented e ∧
      (input.pairedItem = .undefined ∨ p.source = none)) ∨
      input.pairedItem ≠ .undefined ∧ ∃ source, p.source = some source ∧
        ((p.startCall property input index = .error .typeError ∧
          (input.pairedItem = .null ∨ source.get? .main = none)) ∨
        ∃ call, p.startCall property input index = .ok call ∧ input.pairedItem ≠ .null ∧
          source.get? .main ≠ none) := by
  unfold startCall
  split
  · rename_i hundefined
    exact .inl ⟨_, rfl, ⟨_, rfl⟩, .inl hundefined⟩
  · rename_i hundefined
    have hnull : argumentOf input.pairedItem = none ↔ input.pairedItem = .null := by
      cases hpaired : input.pairedItem <;> simp_all [argumentOf]
    obtain ⟨hsource, e, he, hdoc⟩ | h := call_from_cases p index (argumentOf input.pairedItem)
    · exact .inl ⟨e, he, hdoc, .inr hsource⟩
    · simp only [ne_eq, hnull] at h
      exact .inr ⟨hundefined, h⟩

variable {fuel : Nat} {request : Request}

variable (fuel) in
theorem answer_of_follows {call : PairedItemCall} (h : p.Follows request call) :
    p.answer fuel request =
      p.getPairedItem request.destinationNodeName request.usedMethodName fuel call := by
  cases h with
  | getPairedItem => rfl
  | accessor hstart hcall =>
    simp only [answer, pairedItemAccessor, hstart, hcall]
    rfl

/-- A request follows links, unless it is answered by an `ExpressionError` or by a pinned item, or
has a defect. -/
theorem answer_cases (p : WorkflowDataProxy) (fuel : Nat) (request : Request) :
    (∃ e, p.answer fuel request = .error e ∧ Documented e) ∨
      (∃ result, p.answer fuel request = .ok result ∧ p.ReadsPinned request result) ∨
      (∃ call, p.Follows request call) ∨ p.RequestDefect fuel request := by
  cases request with
  | getPairedItem destinationNodeName usedMethodName call =>
    exact .inr (.inr (.inl ⟨call, .getPairedItem⟩))
  | accessor nodeName property itemIndex =>
    obtain ⟨e, he, hdoc⟩ | ⟨e, hname, hnode, hcontext, he⟩ | ⟨index, hindex, hstart⟩ :=
      accessor_start_cases p nodeName property itemIndex
    · exact .inl ⟨e, by simp only [answer, pairedItemAccessor, he], hdoc⟩
    · exact .inr (.inr (.inr (.contextNode hname hnode hcontext)))
    · cases hitem : p.currentItem nodeName index with
      | error e =>
        have he := hstart.trans hitem
        exact .inl ⟨e, by simp only [answer, pairedItemAccessor, he], current_item_error hitem⟩
      | ok start =>
        have hstart := hstart.trans hitem
        cases start with
        | pinned item =>
          obtain ⟨hinput, pinnedData, hpinned, rfl⟩ := current_item_pinned hitem
          exact .inr (.inl ⟨_, by simp only [answer, pairedItemAccessor, hstart],
            .accessor hinput hpinned hindex⟩)
        | current input i =>
          obtain ⟨e, he, hdoc, -⟩ |
            ⟨hpaired, source, hsource, ⟨-, hmissing⟩ | ⟨call, hcall, -⟩⟩ :=
            start_call_cases p property input i
          · exact .inl ⟨e, by simp only [answer, pairedItemAccessor, hstart, he], hdoc⟩
          · exact .inr (.inr (.inr (.currentItem hstart hpaired hsource hmissing)))
          · exact .inr (.inr (.inl ⟨call, .accessor hstart hcall⟩))

theorem accessor_start_context (hname : nodeName ≠ "")
    (hnode : (p.workflow.getNode nodeName).isSome) (hcontext : p.contextNode = .error e) :
    p.accessorStart nodeName property itemIndex = .error e := by
  have hnone : (p.workflow.getNode nodeName).isNone = false := by simp [hnode]
  simp [accessorStart, hname, hnone, hcontext]

theorem start_call_missing {source : ITaskDataConnectionsSource}
    (hpaired : input.pairedItem ≠ .undefined) (hsource : p.source = some source)
    (hmissing : input.pairedItem = .null ∨ source.get? .main = none) :
    p.startCall property input index = .error .typeError := by
  obtain ⟨_, _, _, hundefined | hnone⟩ | ⟨-, source', hsource', ⟨he, -⟩ | ⟨_, _, hnull, hmain⟩⟩ :=
    start_call_cases p property input index
  · exact absurd hundefined hpaired
  · cases hsource.symm.trans hnone
  · exact he
  · cases hsource.symm.trans hsource'
    exact absurd hmissing (not_or.mpr ⟨hnull, hmain⟩)

/-- A request and every call it makes are answered as they should be exactly if the request has no
defect. -/
theorem request_meets_iff (p : WorkflowDataProxy) (fuel : Nat) (request : Request) :
    p.RequestMeets fuel request ↔ ¬ p.RequestDefect fuel request := by
  constructor
  · intro hmeets hdefect
    cases hdefect with
    | link hfollows hcall hdefect =>
      exact (calls_meet_iff _).mp (hmeets.calls _ hfollows) _ _ hcall hdefect
    | contextNode hname hnode hcontext =>
      refine context_node_error hcontext (hmeets.error _ ?_)
      simp only [answer, pairedItemAccessor, accessor_start_context hname hnode hcontext]
    | currentItem hstart hpaired hsource hmissing =>
      obtain ⟨_, h⟩ := hmeets.error .typeError (by
        simp only [answer, pairedItemAccessor, hstart,
          start_call_missing hpaired hsource hmissing])
      cases h
  · intro hdefect
    have hcalls : ∀ call, p.Follows request call →
        ∀ m x, p.Calls request.destinationNodeName fuel call m x →
          p.Meets request.destinationNodeName request.usedMethodName m x :=
      fun call hfollows => (calls_meet_iff _).mpr fun m x hcall hlink =>
        hdefect (.link hfollows hcall hlink)
    obtain ⟨e, he, hdoc⟩ | ⟨result, hok, hpinned⟩ | ⟨call, hfollows⟩ | h :=
      answer_cases p fuel request
    · refine ⟨fun result hok => ?_, fun e' he' => ?_, hcalls⟩
      · cases he.symm.trans hok
      · cases he.symm.trans he'
        exact hdoc
    · refine ⟨fun result' hok' => .inl ?_, fun e he => ?_, hcalls⟩
      · cases hok.symm.trans hok'
        exact hpinned
      · cases hok.symm.trans he
    · have hself := hcalls call hfollows fuel call .self
      have hanswer := answer_of_follows fuel hfollows
      refine ⟨fun result hok => ?_, fun e he => hself.error e (hanswer.symm.trans he), hcalls⟩
      obtain ⟨item, hitem, honly⟩ := hself.value result (hanswer.symm.trans hok)
      exact .inr ⟨call, item, hfollows, hitem, honly⟩
    · exact absurd h hdefect

/-- A link past the items of the node before: `D` asks for the item of `A`, the item of `C` links to
the item `3` of `B`, which has left one item only. -/
def danglingLink : WorkflowDataProxy where
  workflow := Workflow.create [{ name := "A" }, { name := "B" }, { name := "C" }, { name := "D" }]
    ((((.empty : IConnections).set
      "A" (ofMain [some [{ node := "B", type := .main, index := 0 }]])).set
      "B" (ofMain [some [{ node := "C", type := .main, index := 0 }]])).set
      "C" (ofMain [some [{ node := "D", type := .main, index := 0 }]])) none
  pinData := none
  hasPath _ _ := true
  runData := some ((((.empty : IRunData).set "A"
    [some { data := some (ofMain [.data [{ ref := 0 }]]), source := [] }]).set "B"
    [some { data := some (ofMain [.data [{ ref := 1, pairedItem := .single (.number 0) }]])
            source := [some { previousNode := "A" }] }]).set "C"
    [some { data := some (ofMain [.data [{ ref := 2, pairedItem := .single (.number 3) }]])
            source := [some { previousNode := "B" }] }])
  runIndex := 0
  itemIndex := 0
  activeNodeName := "D"
  connectionInputData := [{ ref := 3, pairedItem := .single (.object { item := some 0 }) }]
  mode := .manual
  source := some (ofMain [.data { previousNode := "C" }])
  contextNodeName := "D"

/-- `$('A').item` throws a `TypeError`. -/
theorem dangling_link_type_error : ¬ danglingLink.RequestMeets 10 (.accessor "A" .item none) := by
  intro h
  obtain ⟨_, h⟩ := h.error .typeError (by decide +kernel)
  cases h

end WorkflowDataProxy

end PairedItems

end N8n
