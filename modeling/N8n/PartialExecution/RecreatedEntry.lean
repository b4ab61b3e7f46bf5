import N8n.Execution.Feeding
import N8n.PartialExecution.GraphInvariant
import N8n.PartialExecution.SourceDataGroups

/-!
# Waiting entries of a partial execution

`recreateNodeExecutionStack` leaves the inputs that a waiting entry misses undefined, where the
engine writes `null`. The engine takes an entry without `null` for complete, so that the first
delivery to a recreated entry moves it to the stack: the entry behaves like one of the engine
exactly when it misses no more than one input.
-/

namespace N8n.PartialExecution

open Collections Execution

/-! ## Recreating the execution stack

`recreateNodeExecutionStack` of
`partial-execution-utils/recreate-node-execution-stack.ts` makes the stack and the waiting
entries that a partial execution starts with out of the data of earlier runs.
-/

section

variable {ι : Type}

/-- Write a slot of an entry, with whatever objects on the way to it are missing. -/
def addWaiting {α : Type} (waiting : InsertionMap String (IndexMap (InsertionMap NodeConnectionType
    (List (Slot α))))) (nodeName : String) (runIndex : Nat) (inputType : NodeConnectionType)
    (inputIndex : Nat) (slot : Slot α) :
    InsertionMap String (IndexMap (InsertionMap NodeConnectionType (List (Slot α)))) :=
  let waitingObject := (waiting.get? nodeName).getD .empty
  let taskDataConnections := (waitingObject.get? runIndex).getD .empty
  let dataList := (taskDataConnections.get? inputType).getD []
  waiting.set nodeName (waitingObject.set runIndex
    (taskDataConnections.set inputType (writeSlot dataList inputIndex slot)))

/-- `addWaitingExecution(waitingExecution, nodeName, runIndex, inputType, inputIndex,
executionData)`. -/
def addWaitingExecution (waitingExecution : IWaitingForExecution ι) (nodeName : String)
    (runIndex : Nat) (inputType : NodeConnectionType) (inputIndex : Nat)
    (executionData : Slot (List ι)) : IWaitingForExecution ι :=
  addWaiting waitingExecution nodeName runIndex inputType inputIndex executionData

/-- `addWaitingExecutionSource(waitingExecutionSource, nodeName, runIndex, inputType, inputIndex,
sourceData)`. -/
def addWaitingExecutionSource (waitingExecutionSource : IWaitingForExecutionSource)
    (nodeName : String) (runIndex : Nat) (inputType : NodeConnectionType) (inputIndex : Nat)
    (sourceData : Slot ISourceData) : IWaitingForExecutionSource :=
  addWaiting waitingExecutionSource nodeName runIndex inputType inputIndex sourceData

/-- What `recreateNodeExecutionStack` returns. -/
structure RecreatedData (ι : Type) where
  nodeExecutionStack : List (IExecuteData ι)
  waitingExecution : IWaitingForExecution ι
  waitingExecutionSource : IWaitingForExecutionSource

namespace RecreatedData

/-- The data before the first start node. -/
def initial : RecreatedData ι := ⟨[], .empty, .empty⟩

/-- `nodeExecutionStack.push(executeData)`. -/
def push (r : RecreatedData ι) (executeData : IExecuteData ι) : RecreatedData ι :=
  { r with nodeExecutionStack := r.nodeExecutionStack ++ [executeData] }

end RecreatedData

/-- The data of a connection of a complete group, with the index of its run: pinned data, or the
first data of any run. -/
def connectionData (runData : IRunData ι) (pinData : IPinData ι) (connection : GraphConnection) :
    Except GraphError (Option (List ι × Nat)) :=
  match pinData.get? connection.fromNode.name with
  | some data => .ok (some (data, 0))
  | none =>
    if runData.has connection.fromNode.name then
      getIncomingDataFromAnyRun runData connection.fromNode.name connection.type
        connection.outputIndex
    else .error .assertion

/-- Push the data of a connection, if there is any, and its source. -/
def pushConnection (runData : IRunData ι) (pinData : IPinData ι)
    (incoming : List (Slot (List ι)) × List (Slot ISourceData)) (connection : GraphConnection) :
    Except GraphError (List (Slot (List ι)) × List (Slot ISourceData)) := do
  let found ← connectionData runData pinData connection
  let source : ISourceData :=
    { previousNode := connection.fromNode.name
      previousNodeOutput := some connection.outputIndex
      previousNodeRun := some ((found.map (·.2)).getD 0) }
  return (incoming.1 ++ (found.map (Slot.data ·.1)).toList, incoming.2 ++ [.data source])

/-- A complete group puts the node on the stack. -/
def pushGroup (runData : IRunData ι) (pinData : IPinData ι) (startNode : INode)
    (r : RecreatedData ι) (connections : List GraphConnection) :
    Except GraphError (RecreatedData ι) := do
  let (incomingData, incomingSourceData) ←
    connections.foldlM (pushConnection runData pinData) ([], [])
  return r.push
    { node := some startNode, data := ofMain incomingData,
      source := some (ofMain incomingSourceData) }

/-- Enter the data of a connection of an incomplete group into a waiting entry. -/
def waitConnection (runData : IRunData ι) (nodeName : String) (nextRunIndex : Nat)
    (r : RecreatedData ι) (connection : GraphConnection) : Except GraphError (RecreatedData ι) := do
  match ← getIncomingDataFromAnyRun runData connection.fromNode.name connection.type
      connection.outputIndex with
  | none => return r
  | some (data, _) =>
    let source : ISourceData :=
      { previousNode := connection.fromNode.name
        previousNodeOutput := some connection.outputIndex
        previousNodeRun := some nextRunIndex }
    return { r with
      waitingExecution := addWaitingExecution r.waitingExecution nodeName nextRunIndex
        connection.type connection.inputIndex (.data data)
      waitingExecutionSource := addWaitingExecutionSource r.waitingExecutionSource nodeName
        nextRunIndex connection.type connection.inputIndex (.data source) }

/-- The run index of the next waiting entry of a node. -/
def nextRunIndex (r : RecreatedData ι) (nodeName : String) : Nat :=
  ((r.waitingExecution.get? nodeName).map (·.size)).getD 0

/-- An incomplete group makes the node wait. -/
def waitGroup (runData : IRunData ι) (startNode : INode) (r : RecreatedData ι)
    (connections : List GraphConnection) : Except GraphError (RecreatedData ι) :=
  connections.foldlM (waitConnection runData startNode.name (nextRunIndex r startNode.name)) r

/-- One group of a start node. -/
def addGroup (runData : IRunData ι) (pinData : IPinData ι) (startNode : INode)
    (r : RecreatedData ι) (sourceData : SourceConnectionGroup) :
    Except GraphError (RecreatedData ι) :=
  if sourceData.complete then pushGroup runData pinData startNode r sourceData.connections
  else waitGroup runData startNode r sourceData.connections

/-- One start node. -/
def addStartNode (localeCompare : String → String → Int) (emptyItem : ι) (graph : DirectedGraph)
    (runData : IRunData ι) (pinData : IPinData ι) (r : RecreatedData ι) (startNode : INode) :
    Except GraphError (RecreatedData ι) := do
  let parentConnections ← graph.getDirectParentConnections startNode
  if parentConnections.filter (·.type = .main) = [] then
    return r.push
      { node := some startNode, data := ofMain [.data [emptyItem]], source := none }
  else
    (getSourceDataGroups localeCompare graph startNode runData pinData).foldlM
      (addGroup runData pinData startNode) r

/-- `recreateNodeExecutionStack(graph, startNodes, runData, pinData)`. -/
def recreateNodeExecutionStack (localeCompare : String → String → Int) (emptyItem : ι)
    (graph : DirectedGraph) (startNodes : List INode) (runData : IRunData ι)
    (pinData : IPinData ι) : Except GraphError (RecreatedData ι) :=
  if graph.getNodes.any (·.disabled = some true) then .error .assertion
  else startNodes.foldlM (addStartNode localeCompare emptyItem graph runData pinData) .initial

end

/-! ## Waiting entries of a partial execution -/

variable {ι : Type}

section Recreated

theorem entry_at_add_waiting {α : Type} (waiting : InsertionMap String (IndexMap (InsertionMap
    NodeConnectionType (List (Slot α))))) (nodeName other : String) (k k' : Nat)
    (inputType : NodeConnectionType) (inputIndex : Nat) (slot : Slot α) :
    entryAt (addWaiting waiting nodeName k inputType inputIndex slot) other k' =
      if other = nodeName ∧ k' = k then
        let entry := (entryAt waiting nodeName k).getD .empty
        some (entry.set inputType (writeSlot ((entry.get? inputType).getD []) inputIndex slot))
      else entryAt waiting other k' := by
  have hobject :
      ∀ j, ((waiting.get? nodeName).getD .empty).get? j = entryAt waiting nodeName j := by
    intro j
    rw [entryAt]
    cases waiting.get? nodeName <;> rfl
  rw [addWaiting, entryAt, InsertionMap.get_set]
  by_cases hnode : other = nodeName
  · rw [if_pos hnode, Option.bind_some, IndexMap.get_set, hobject, hobject, hnode]
    by_cases hk : k' = k <;> simp [hk]
  · rw [if_neg hnode, if_neg fun h => hnode h.1]
    rfl

/-- The recreated entries have no `null`, and their main inputs come with sources. -/
def SparseEntries (r : RecreatedData ι) : Prop :=
  ∀ nodeName k entry, entryAt r.waitingExecution nodeName k = some entry →
    (∀ slots, entry.get? .main = some slots → ∀ slot ∈ slots,
      slot = .hole ∨ ∃ items, slot = .data items) ∧
    ((entry.get? .main).isSome = true → ∃ source sourceSlots,
      entryAt r.waitingExecutionSource nodeName k = some source ∧
        source.get? .main = some sourceSlots)

theorem sparse_add_waiting {r : RecreatedData ι} (hr : SparseEntries r) (nodeName : String)
    (k : Nat)
    (inputType : NodeConnectionType) (inputIndex : Nat) (items : List ι) (source : ISourceData) :
    SparseEntries { r with
      waitingExecution := addWaitingExecution r.waitingExecution nodeName k inputType inputIndex
        (.data items)
      waitingExecutionSource := addWaitingExecutionSource r.waitingExecutionSource nodeName k
        inputType inputIndex (.data source) } := by
  intro other k' entry hentry
  change entryAt (addWaiting _ _ _ _ _ _) _ _ = _ at hentry
  show _ ∧ (_ → ∃ source sourceSlots, entryAt (addWaiting _ _ _ _ _ _) _ _ = _ ∧ _)
  rw [entry_at_add_waiting] at hentry ⊢
  by_cases hhit : other = nodeName ∧ k' = k
  · rw [if_pos hhit] at hentry ⊢
    cases hentry
    have hold : ∀ slots, ((entryAt r.waitingExecution nodeName k).getD .empty).get? .main =
        some slots → (∀ slot ∈ slots, slot = .hole ∨ ∃ items, slot = .data items) ∧
          ∃ sourceSlots, ((entryAt r.waitingExecutionSource nodeName k).getD .empty).get? .main =
            some sourceSlots := by
      intro slots hslots
      cases hat : entryAt r.waitingExecution nodeName k with
      | none =>
        rw [hat] at hslots
        cases hslots
      | some entry =>
        rw [hat, Option.getD_some] at hslots
        obtain ⟨source, sourceSlots, hsource, hsources⟩ :=
          (hr nodeName k entry hat).2 (by rw [hslots]; rfl)
        exact ⟨(hr nodeName k entry hat).1 slots hslots, sourceSlots,
          by rw [hsource]; exact hsources⟩
    by_cases htype : NodeConnectionType.main = inputType
    · subst htype
      refine ⟨fun slots hslots slot hslot => ?_,
        fun _ => ⟨_, _, rfl, InsertionMap.get_set_same _ _ _⟩⟩
      rw [InsertionMap.get_set_same] at hslots
      cases hslots
      rcases mem_write_slot hslot with hmem | hnew | hhole
      · cases hmain : ((entryAt r.waitingExecution nodeName k).getD .empty).get? .main with
        | none =>
          rw [hmain] at hmem
          cases hmem
        | some slots =>
          rw [hmain] at hmem
          exact (hold slots hmain).1 slot hmem
      · exact .inr ⟨items, hnew⟩
      · exact .inl hhole
    · rw [InsertionMap.get_set_other _ _ htype]
      refine ⟨fun slots hslots => (hold slots hslots).1, fun hsome => ?_⟩
      obtain ⟨slots, hslots⟩ := Option.isSome_iff_exists.mp hsome
      obtain ⟨sourceSlots, hsources⟩ := (hold slots hslots).2
      exact ⟨_, sourceSlots, rfl, by rw [InsertionMap.get_set_other _ _ htype]; exact hsources⟩
  · rw [if_neg hhit] at hentry ⊢
    exact hr other k' entry hentry

theorem wait_connection_sparse {runData : IRunData ι} {nodeName : String} {k : Nat}
    {r r' : RecreatedData ι} {connection : GraphConnection} (hr : SparseEntries r)
    (h : waitConnection runData nodeName k r connection = .ok r') : SparseEntries r' := by
  rw [waitConnection] at h
  obtain ⟨found, -, h⟩ := bind_eq_ok.mp h
  cases found with
  | none =>
    cases h
    exact hr
  | some found =>
    cases h
    exact sparse_add_waiting hr _ _ _ _ _ _

theorem add_group_sparse {runData : IRunData ι} {pinData : IPinData ι} {startNode : INode}
    {r r' : RecreatedData ι} {group : SourceConnectionGroup} (hr : SparseEntries r)
    (h : addGroup runData pinData startNode r group = .ok r') : SparseEntries r' := by
  rw [addGroup] at h
  split at h
  · rw [pushGroup] at h
    obtain ⟨incoming, -, h⟩ := bind_eq_ok.mp h
    cases h
    exact hr
  · exact foldlM_keeps SparseEntries
      (fun _ _ _ _ hb hstep => wait_connection_sparse hb hstep) hr h

theorem recreated_sparse {localeCompare : String → String → Int} {emptyItem : ι}
    {graph : DirectedGraph} {startNodes : List INode} {runData : IRunData ι} {pinData : IPinData ι}
    {r : RecreatedData ι}
    (h : recreateNodeExecutionStack localeCompare emptyItem graph startNodes runData pinData =
      .ok r) : SparseEntries r := by
  rw [recreateNodeExecutionStack] at h
  split at h
  · cases h
  · refine foldlM_keeps SparseEntries (fun r r' startNode _ hr hstep => ?_)
      (fun nodeName k entry hentry => by cases hentry) h
    rw [addStartNode] at hstep
    obtain ⟨parents, -, hstep⟩ := bind_eq_ok.mp hstep
    split at hstep
    · cases hstep
      exact hr
    · exact foldlM_keeps SparseEntries
        (fun _ _ _ _ hb hgroup => add_group_sparse hb hgroup) hr hstep

end Recreated

section FillsUp

variable {w : Workflow} {emptyItem : ι} {nodeName : String} {k : Nat}
  {inputs : NodeInputConnections} {entry : ITaskDataConnections ι}

/-- The entry has no `null`. -/
def NoNull (entry : ITaskDataConnections ι) : Prop :=
  ∀ slots, entry.get? .main = some slots →
    ∀ slot ∈ slots, slot = .hole ∨ ∃ items, slot = .data items

theorem feeds_no_null {s s₂ : IRunExecutionData ι} {d : Delivery ι}
    (hinputs : mainInputs w nodeName = .ok inputs) (hn : 1 < inputs.length)
    (hnull : NoNull entry) (hentry : entryAt s.waitingExecution nodeName k = some entry)
    (hfeeds : Execution.Feeds s nodeName k inputs.length d)
    (hstep : addNodeToBeExecuted w emptyItem s d = .ok s₂) :
    entryAt s₂.waitingExecution nodeName k = none ∧
      ∃ item, s₂.nodeExecutionStack = enqueue w s.nodeExecutionStack item ∧
        item.node = w.nodes.get? nodeName ∧
        ∀ i, (mainSlot item.data i).isSome = true ↔
          (mainSlot entry i).isSome = true ∨ i = d.connectionData.index := by
  obtain ⟨slots, hmain, hdone⟩ := feeds_eq_ok hinputs hn hfeeds hentry hstep
  obtain ⟨items, hitems⟩ := hfeeds.brings
  have hall : (writeSlot slots d.connectionData.index d.dataSlot).all (!·.isNull) = true := by
    rw [List.all_eq_true]
    intro slot hslot
    rcases mem_write_slot hslot with hmem | hnew | hhole
    · rcases hnull slots hmain slot hmem with heq | ⟨items', heq⟩ <;> rw [heq] <;> rfl
    · rw [hnew, hitems]
      rfl
    · rw [hhole]
      rfl
  rw [if_pos hall] at hdone
  obtain ⟨hgone, source, hstack⟩ := hdone
  refine ⟨hgone, _, hstack, rfl, fun i => ?_⟩
  rw [main_slot_eq (InsertionMap.get_set_same entry .main _), read_write_slot, main_slot_eq hmain]
  by_cases hi : i = d.connectionData.index
  · simp [hi, hitems, Slot.toOption]
  · simp [hi]

theorem fed_no_null {s s₁ : IRunExecutionData ι} {fed : List Nat}
    (hinputs : mainInputs w nodeName = .ok inputs) (hn : 1 < inputs.length)
    (hnull : NoNull entry) (hentry : entryAt s.waitingExecution nodeName k = some entry)
    (hrun : Fed w emptyItem nodeName k inputs.length s fed s₁) :
    s₁ = s ∧ fed = [] ∨ entryAt s₁.waitingExecution nodeName k = none := by
  induction hrun with
  | start => exact .inl ⟨rfl, rfl⟩
  | feed run feeds step ih =>
    rcases ih with ⟨heq, -⟩ | hgone
    · subst heq
      exact .inr (feeds_no_null hinputs hn hnull hentry feeds step).1
    · exact absurd feeds (not_feeds_of_gone hgone)

/-- The state in which a single entry waits. -/
def onlyWaiting (nodeName : String) (k : Nat) (entry : ITaskDataConnections ι)
    (source : Option ITaskDataConnectionsSource) : IRunExecutionData ι where
  nodeExecutionStack := []
  waitingExecution := InsertionMap.set .empty nodeName (IndexMap.empty.set k entry)
  waitingExecutionSource := some (match source with
    | none => .empty
    | some source => InsertionMap.set .empty nodeName (IndexMap.empty.set k source))
  runData := .empty

theorem only_waiting_waits (nodeName : String) (k : Nat) (entry : ITaskDataConnections ι)
    (source : Option ITaskDataConnectionsSource) :
    Waits (onlyWaiting nodeName k entry source) nodeName k entry source := by
  constructor
  · show entryAt (InsertionMap.set _ _ _) _ _ = _
    rw [entryAt, InsertionMap.get_set_same, Option.bind_some, IndexMap.get_set_same]
  · cases source with
    | none => rfl
    | some source =>
      show entryAt (InsertionMap.set _ _ _) _ _ = _
      rw [entryAt, InsertionMap.get_set_same, Option.bind_some, IndexMap.get_set_same]

/-- An entry without `null` whose main inputs have sources fills up like one of the engine exactly
when it misses at most one input. -/
theorem no_null_fills_up_iff {source : Option ITaskDataConnectionsSource}
    (hinputs : mainInputs w nodeName = .ok inputs) (hn : 1 < inputs.length)
    (hnull : NoNull entry)
    (hsource : (entry.get? .main).isSome = true → ∃ source' sourceSlots,
      source = some source' ∧ source'.get? .main = some sourceSlots) :
    FillsUp w emptyItem nodeName k inputs.length entry source ↔
      ∀ i < inputs.length, ∀ j < inputs.length,
        mainSlot entry i = none → mainSlot entry j = none → i = j := by
  constructor
  · intro hfills i hi j hj hmissing_i hmissing_j
    by_contra hne
    -- a delivery to the input `i` moves the entry, although the input `j` is not filled
    let d : Delivery ι :=
      { connectionData := ⟨nodeName, .main, i⟩, outputIndex := 0, parentNodeName := ""
        nodeSuccessData := some [.data []], runIndex := 0 }
    have hwaits := only_waiting_waits nodeName k entry source
    have hfeeds : Execution.Feeds (onlyWaiting nodeName k entry source) nodeName k inputs.length
        d := by
      refine ⟨rfl, hi, ⟨[], rfl⟩, ⟨entry, hwaits.1, hmissing_i⟩, fun e he hlt => ?_⟩
      have hentries : waitingOf (onlyWaiting nodeName k entry source) nodeName =
          IndexMap.empty.set k entry := by
        show ((InsertionMap.set _ _ _).get? _).getD _ = _
        rw [InsertionMap.get_set_same]
        rfl
      rw [hentries] at he
      have heq : e = (k, entry) := by simpa [IndexMap.set, IndexMap.empty, insertEntry] using he
      rw [heq] at hlt
      exact absurd hlt (Nat.lt_irrefl k)
    obtain ⟨s', hs'⟩ := hfills.accepts _ d hwaits hfeeds
    have hgone := (feeds_no_null hinputs hn hnull hwaits.1 hfeeds hs').1
    have hnot : ¬AllFilled entry inputs.length ([] ++ [d.connectionData.index]) := by
      intro hall
      rcases hall j hj with hsome | hmem
      · rw [hmissing_j] at hsome
        cases hsome
      · exact hne (List.mem_singleton.mp hmem).symm
    have hstays := hfills.stays _ [] _ d s' hwaits (.start _) hfeeds hs' hnot
    rw [Stays, hgone] at hstays
    exact absurd hstays.1 (by simp)
  · intro hone
    -- the only missing input is the one that is fed
    have hother : ∀ s d, Waits s nodeName k entry source →
        Execution.Feeds s nodeName k inputs.length d →
        ∀ i < inputs.length, i ≠ d.connectionData.index → (mainSlot entry i).isSome = true := by
      intro s d hwaits hfeeds i hi hne
      obtain ⟨entry', hentry', hmissing⟩ := hfeeds.missing
      rw [hwaits.1] at hentry'
      cases hentry'
      by_contra hnone
      rw [Bool.not_eq_true, Option.isSome_eq_false_iff, Option.isNone_iff_eq_none] at hnone
      exact hne (hone i hi _ hfeeds.isInput hnone hmissing)
    refine ⟨fun s d hwaits hfeeds => ?_, fun s fed s₁ d s₂ hwaits hrun hfeeds hstep hall => ?_,
      fun s fed s₁ d s₂ hwaits hrun hfeeds hstep hall => ?_⟩
    · have hfilled : ∃ i < inputs.length, i ≠ d.connectionData.index := by
        by_cases hzero : d.connectionData.index = 0
        · exact ⟨1, hn, by omega⟩
        · exact ⟨0, by omega, by omega⟩
      obtain ⟨i, hi, hne⟩ := hfilled
      obtain ⟨items, hitems⟩ := Option.isSome_iff_exists.mp (hother s d hwaits hfeeds i hi hne)
      obtain ⟨slots, hmain, -⟩ := main_slot_some hitems
      obtain ⟨source', sourceSlots, rfl, hsources⟩ := hsource (by rw [hmain]; rfl)
      have htarget := hfeeds.target
      subst htarget
      have hfound := hfeeds.found hwaits.1
      rw [hmain] at hfound
      obtain ⟨s', hs'⟩ := add_waiting_node_ok hfound hwaits.1 hmain hwaits.2 hsources
      rw [addNodeToBeExecuted, hinputs]
      exact ⟨s', (if_pos hn).trans hs'⟩
    · rcases fed_no_null hinputs hn hnull hwaits.1 hrun with ⟨rfl, rfl⟩ | hgone
      · obtain ⟨hgone, item, hstack, hnode, hslots⟩ :=
          feeds_no_null hinputs hn hnull hwaits.1 hfeeds hstep
        refine ⟨hgone, item, hstack, hnode, fun i hi => (hslots i).mpr ?_⟩
        exact (hall i hi).imp_right List.mem_singleton.mp
      · exact absurd hfeeds (not_feeds_of_gone hgone)
    · rcases fed_no_null hinputs hn hnull hwaits.1 hrun with ⟨rfl, rfl⟩ | hgone
      · refine absurd (fun i hi => ?_) hall
        by_cases hi' : i = d.connectionData.index
        · exact .inr (by simp [hi'])
        · exact .inl (hother _ d hwaits hfeeds i hi hi')
      · exact absurd hfeeds (not_feeds_of_gone hgone)

/-- A waiting entry that is recreated for a partial execution fills up like one of the engine
exactly when it misses at most one of the inputs of its node. -/
theorem recreated_entry_fills_up_iff {localeCompare : String → String → Int}
    {graph : DirectedGraph} {startNodes : List INode} {runData : IRunData ι} {pinData : IPinData ι}
    {r : RecreatedData ι}
    (hrecreated : recreateNodeExecutionStack localeCompare emptyItem graph startNodes runData
      pinData = .ok r)
    (hentry : entryAt r.waitingExecution nodeName k = some entry)
    (hinputs : mainInputs w nodeName = .ok inputs) (hn : 1 < inputs.length) :
    FillsUp w emptyItem nodeName k inputs.length entry
        (entryAt r.waitingExecutionSource nodeName k) ↔
      ∀ i < inputs.length, ∀ j < inputs.length,
        mainSlot entry i = none → mainSlot entry j = none → i = j := by
  obtain ⟨hslots, hsources⟩ := recreated_sparse hrecreated nodeName k entry hentry
  exact no_null_fills_up_iff hinputs hn hslots hsources

end FillsUp

section Merge

/-- Three nodes, each connected to one of the inputs of a fourth. -/
def threeInputs : Workflow :=
  .create [{ name := "A" }, { name := "B" }, { name := "C" }, { name := "M" }]
    (((InsertionMap.set .empty "A" (ofMain [some [⟨"M", .main, 0⟩]])).set "B"
      (ofMain [some [⟨"M", .main, 1⟩]])).set "C" (ofMain [some [⟨"M", .main, 2⟩]])) (some .v1)

/-- The runs of nodes that each left one item. -/
def ranOnce (names : List String) : IRunData Nat :=
  names.foldl (fun runData name => runData.set name [{ data := some (ofMain [.data [1]]) }]) .empty

/-- What is recreated for the fourth node after some of the others ran. -/
def recreatedAfter (names : List String) : Except GraphError (RecreatedData Nat) :=
  recreateNodeExecutionStack (fun _ _ => 0) 0 (graphOf threeInputs) [{ name := "M" }]
    (ranOnce names)
    .empty

/-- The inputs of the fourth node that are filled in its first waiting entry. -/
def filledAfter (names : List String) : Option (List Bool) :=
  match recreatedAfter names with
  | .error _ => none
  | .ok r => (entryAt r.waitingExecution "M" 0).map fun entry =>
    (List.range 3).map fun i => (mainSlot entry i).isSome

theorem filled_after_eq_some {names : List String} {filled : List Bool}
    (h : filledAfter names = some filled) :
    ∃ r entry, recreatedAfter names = .ok r ∧ entryAt r.waitingExecution "M" 0 = some entry ∧
      filled = (List.range 3).map fun i => (mainSlot entry i).isSome := by
  rw [filledAfter] at h
  cases hr : recreatedAfter names with
  | error e => simp [hr] at h
  | ok r =>
    rw [hr] at h
    obtain ⟨entry, hentry, hfilled⟩ := Option.map_eq_some_iff.mp h
    exact ⟨r, entry, rfl, hentry, hfilled.symm⟩

/-- An entry that misses the third of three inputs fills up. -/
theorem recreated_entry_one_missing : ∃ r entry, recreatedAfter ["A", "B"] = .ok r ∧
    entryAt r.waitingExecution "M" 0 = some entry ∧
      ∃ inputs, mainInputs threeInputs "M" = .ok inputs ∧
      FillsUp threeInputs 0 "M" 0 inputs.length entry (entryAt r.waitingExecutionSource "M" 0) := by
  obtain ⟨r, entry, hr, hentry, hfilled⟩ :=
    filled_after_eq_some (show filledAfter ["A", "B"] = some [true, true, false] by decide +kernel)
  refine ⟨r, entry, hr, hentry, _, rfl, ?_⟩
  refine (recreated_entry_fills_up_iff hr hentry rfl (by decide)).mpr ?_
  simp only [List.range, List.range.loop, List.map_cons, List.map_nil, List.cons.injEq] at hfilled
  intro i hi j hj hmissing_i hmissing_j
  have hlast : ∀ i < 3, mainSlot entry i = none → i = 2 := by
    intro i hi hmissing
    match i, hi with
    | 0, _ => simp [hmissing] at hfilled
    | 1, _ => simp [hmissing] at hfilled
    | 2, _ => rfl
  rw [hlast i hi hmissing_i, hlast j hj hmissing_j]

/-- An entry that has data for the first of three inputs only does not fill up: a delivery to the
second input moves it to the stack. -/
theorem recreated_entry_two_missing : ∃ r entry, recreatedAfter ["A"] = .ok r ∧
    entryAt r.waitingExecution "M" 0 = some entry ∧ (mainSlot entry 0).isSome = true ∧
      ∃ inputs, mainInputs threeInputs "M" = .ok inputs ∧ inputs.length = 3 ∧
        ¬FillsUp threeInputs 0 "M" 0 inputs.length entry
          (entryAt r.waitingExecutionSource "M" 0) := by
  obtain ⟨r, entry, hr, hentry, hfilled⟩ :=
    filled_after_eq_some (show filledAfter ["A"] = some [true, false, false] by decide +kernel)
  simp only [List.range, List.range.loop, List.map_cons, List.map_nil, List.cons.injEq] at hfilled
  refine ⟨r, entry, hr, hentry, hfilled.1.symm, _, rfl, rfl, fun hfills => ?_⟩
  obtain ⟨hslots, hsources⟩ := recreated_sparse hr "M" 0 entry hentry
  have hone := (no_null_fills_up_iff rfl (by decide) hslots hsources).mp hfills 1 (by decide) 2
    (by decide) (by simpa using hfilled.2.1.symm) (by simpa using hfilled.2.2.1.symm)
  cases hone

end Merge

end N8n.PartialExecution
