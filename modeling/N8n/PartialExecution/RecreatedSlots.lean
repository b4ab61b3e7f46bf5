import N8n.PartialExecution.RecreatedEntry

/-!
# What a partial execution starts with

The stack and the waiting entries that `recreateNodeExecutionStack` returns, described by the groups
of the start nodes: a complete group gives one item of the stack, and the incomplete groups whose
connections have items give the waiting entries of the node, one after the other.
-/

namespace N8n.PartialExecution

open Collections Execution

variable {ι : Type}

/-- The first items that any run of the source has left on the output of a connection, with the
index of the run. -/
def foundItems (runData : IRunData ι) (c : GraphConnection) : Option (List ι × Nat) :=
  match getIncomingDataFromAnyRun runData c.fromNode.name c.type c.outputIndex with
  | .ok found => found
  | .error _ => none

/-- What a complete group takes for a connection: pinned data, or the items of a run. -/
def groupData (runData : IRunData ι) (pinData : IPinData ι) (c : GraphConnection) :
    Option (List ι × Nat) :=
  match pinData.get? c.fromNode.name with
  | some data => some (data, 0)
  | none => foundItems runData c

/-- The output of a connection, in one run of its source. -/
def sourceOf (c : GraphConnection) (run : Nat) : ISourceData where
  previousNode := c.fromNode.name
  previousNodeOutput := some c.outputIndex
  previousNodeRun := some run

/-- The source that a complete group names for a connection. -/
def groupSource (runData : IRunData ι) (pinData : IPinData ι) (c : GraphConnection) : ISourceData :=
  sourceOf c (((groupData runData pinData c).map (·.2)).getD 0)

/-- The item of the stack for a complete group. -/
def completeItem (runData : IRunData ι) (pinData : IPinData ι) (node : INode)
    (connections : List GraphConnection) : IExecuteData ι where
  node := some node
  data := ofMain (connections.filterMap fun c =>
    (groupData runData pinData c).map fun found => .data found.1)
  source := some (ofMain (connections.map fun c => .data (groupSource runData pinData c)))

/-- The item of the stack for a node without main connections into it. -/
def placeholderItem (emptyItem : ι) (node : INode) : IExecuteData ι where
  node := some node
  data := ofMain [.data [emptyItem]]
  source := none

section Stack

variable {runData : IRunData ι} {pinData : IPinData ι} {node : INode}

theorem found_items_eq {c : GraphConnection} {found : Option (List ι × Nat)}
    (h : getIncomingDataFromAnyRun runData c.fromNode.name c.type c.outputIndex = .ok found) :
    foundItems runData c = found := by
  rw [foundItems, h]

theorem group_data_eq {c : GraphConnection} {found : Option (List ι × Nat)}
    (h : connectionData runData pinData c = .ok found) : groupData runData pinData c = found := by
  rw [connectionData] at h
  rw [groupData]
  cases hpin : pinData.get? c.fromNode.name with
  | some data =>
    rw [hpin] at h
    exact Except.ok.inj h
  | none =>
    rw [hpin] at h
    dsimp only at h
    split at h
    · exact found_items_eq h
    · cases h

theorem push_connections_eq {connections : List GraphConnection}
    {incoming incoming' : List (Slot (List ι)) × List (Slot ISourceData)}
    (h : connections.foldlM (pushConnection runData pinData) incoming = .ok incoming') :
    incoming' =
      (incoming.1 ++ connections.filterMap fun c =>
          (groupData runData pinData c).map fun found => .data found.1,
        incoming.2 ++ connections.map fun c => .data (groupSource runData pinData c)) := by
  induction connections generalizing incoming with
  | nil =>
    cases h
    simp
  | cons c rest ih =>
    rw [List.foldlM_cons] at h
    obtain ⟨next, hnext, h⟩ := bind_eq_ok.mp h
    rw [pushConnection] at hnext
    obtain ⟨found, hfound, hnext⟩ := bind_eq_ok.mp hnext
    have hdata := group_data_eq hfound
    cases hnext
    rw [ih h, List.filterMap_cons, List.map_cons, groupSource, hdata]
    cases found <;> simp [sourceOf]

theorem push_group_eq {r r' : RecreatedData ι} {connections : List GraphConnection}
    (h : pushGroup runData pinData node r connections = .ok r') :
    r' = r.push (completeItem runData pinData node connections) := by
  rw [pushGroup] at h
  obtain ⟨incoming, hincoming, h⟩ := bind_eq_ok.mp h
  rw [push_connections_eq hincoming] at h
  cases h
  simp [completeItem]

end Stack

section Waiting

/-- What there is at a main input of a waiting entry. -/
def slotAt {α : Type} (waiting : InsertionMap String (IndexMap (InsertionMap NodeConnectionType
    (List (Slot α))))) (nodeName : String) (k i : Nat) : Option α :=
  (entryAt waiting nodeName k).bind fun entry => mainSlot entry i

/-- The data and the source at a main input of a waiting entry. -/
def slotsAt (r : RecreatedData ι) (nodeName : String) (k i : Nat) :
    Option (List ι) × Option ISourceData :=
  (slotAt r.waitingExecution nodeName k i, slotAt r.waitingExecutionSource nodeName k i)

/-- The connection that fills a main input of the waiting entry for a group. -/
def waitingConnection (runData : IRunData ι) (connections : List GraphConnection) (i : Nat) :
    Option GraphConnection :=
  connections.reverse.find? fun c =>
    c.type = .main && c.inputIndex = i && (foundItems runData c).isSome

/-- What a group leaves at a main input of the waiting entry with the index `k`. -/
def groupSlots (runData : IRunData ι) (k : Nat) (connections : List GraphConnection) (i : Nat) :
    Option (List ι) × Option ISourceData :=
  let connection := waitingConnection runData connections i
  ((connection.bind (foundItems runData)).map (·.1), connection.map (sourceOf · k))

/-- Some connection of the list has items. -/
def anyItems (runData : IRunData ι) (connections : List GraphConnection) : Bool :=
  connections.any fun c => (foundItems runData c).isSome

theorem slot_at_add_waiting {α : Type} (waiting : InsertionMap String (IndexMap (InsertionMap
    NodeConnectionType (List (Slot α))))) (nodeName other : String) (k k' i : Nat)
    (inputType : NodeConnectionType) (inputIndex : Nat) (slot : Slot α) :
    slotAt (addWaiting waiting nodeName k inputType inputIndex slot) other k' i =
      if other = nodeName ∧ k' = k ∧ inputType = .main ∧ inputIndex = i then slot.toOption
      else slotAt waiting other k' i := by
  rw [slotAt, entry_at_add_waiting]
  by_cases hentry : other = nodeName ∧ k' = k
  · obtain ⟨rfl, rfl⟩ := hentry
    rw [if_pos ⟨rfl, rfl⟩, Option.bind_some, mainSlot]
    have hold :
        (readSlot (((entryAt waiting other k').getD .empty).get? .main |>.getD []) i).toOption =
        slotAt waiting other k' i := by
      rw [slotAt]
      cases entryAt waiting other k' <;> rfl
    by_cases htype : inputType = .main
    · subst htype
      rw [InsertionMap.get_set_same, Option.getD_some, read_write_slot, hold]
      by_cases hi : inputIndex = i
      · rw [if_pos hi.symm, if_pos ⟨rfl, rfl, rfl, hi⟩]
      · rw [if_neg fun h => hi h.symm, if_neg fun h => hi h.2.2.2]
    · rw [InsertionMap.get_set_other _ _ fun h => htype h.symm, hold, if_neg fun h => htype h.2.2.1]
  · rw [if_neg hentry, if_neg fun h => hentry ⟨h.1, h.2.1⟩, slotAt]

/-- What the connections of an incomplete group enter into the entry `k` of a node. -/
structure Entered (runData : IRunData ι) (nodeName : String) (k : Nat)
    (connections : List GraphConnection) (r r' : RecreatedData ι) : Prop where
  stack : r'.nodeExecutionStack = r.nodeExecutionStack
  others : ∀ other k', ¬(other = nodeName ∧ k' = k) →
    entryAt r'.waitingExecution other k' = entryAt r.waitingExecution other k' ∧
      entryAt r'.waitingExecutionSource other k' = entryAt r.waitingExecutionSource other k'
  slots : ∀ i, slotsAt r' nodeName k i =
    if (waitingConnection runData connections i).isSome then groupSlots runData k connections i
    else slotsAt r nodeName k i
  present : (entryAt r'.waitingExecution nodeName k).isSome = true ↔
    (entryAt r.waitingExecution nodeName k).isSome = true ∨ anyItems runData connections = true

variable {runData : IRunData ι} {nodeName : String} {k : Nat}

theorem Entered.snoc {connections : List GraphConnection} {c : GraphConnection}
    {r m r' : RecreatedData ι} (hm : Entered runData nodeName k connections r m)
    (h : waitConnection runData nodeName k m c = .ok r') :
    Entered runData nodeName k (connections ++ [c]) r r' := by
  rw [waitConnection] at h
  obtain ⟨found, hfound, h⟩ := bind_eq_ok.mp h
  have hitems := found_items_eq hfound
  have hany : anyItems runData (connections ++ [c]) =
      (anyItems runData connections || (foundItems runData c).isSome) := by
    simp [anyItems]
  have hconnection : ∀ i, waitingConnection runData (connections ++ [c]) i =
      if c.type = .main ∧ c.inputIndex = i ∧ (foundItems runData c).isSome = true then some c
      else waitingConnection runData connections i := by
    intro i
    rw [waitingConnection, List.reverse_append, List.reverse_singleton, List.singleton_append,
      List.find?_cons]
    by_cases hc : c.type = .main ∧ c.inputIndex = i ∧ (foundItems runData c).isSome = true
    · rw [if_pos hc]
      simp [hc]
    · rw [if_neg hc]
      have hfalse : (decide (c.type = .main) && decide (c.inputIndex = i) &&
          (foundItems runData c).isSome) = false := by
        rw [← Bool.not_eq_true, Bool.and_eq_true, Bool.and_eq_true, decide_eq_true_eq,
          decide_eq_true_eq]
        exact fun hpos => hc ⟨hpos.1.1, hpos.1.2, hpos.2⟩
      rw [hfalse]
      rfl
  cases found with
  | none =>
    cases h
    refine ⟨hm.stack, hm.others, fun i => ?_, ?_⟩
    · have hsame : waitingConnection runData (connections ++ [c]) i =
          waitingConnection runData connections i := by
        rw [hconnection, if_neg fun hpos => by simp [hitems] at hpos]
      rw [groupSlots, hsame]
      exact hm.slots i
    · rw [hany, hitems]
      simpa using hm.present
  | some found =>
    obtain ⟨items, run⟩ := found
    cases h
    refine ⟨hm.stack, fun other k' hother => ?_, fun i => ?_, ?_⟩
    · obtain ⟨hentry, hsource⟩ := hm.others other k' hother
      constructor
      · show entryAt (addWaiting _ _ _ _ _ _) _ _ = _
        rw [entry_at_add_waiting, if_neg hother, hentry]
      · show entryAt (addWaiting _ _ _ _ _ _) _ _ = _
        rw [entry_at_add_waiting, if_neg hother, hsource]
    · have hwrite : slotsAt
          { m with
            waitingExecution := addWaitingExecution m.waitingExecution nodeName k c.type
              c.inputIndex (.data items)
            waitingExecutionSource :=
              addWaitingExecutionSource m.waitingExecutionSource nodeName k
              c.type c.inputIndex (.data (sourceOf c k)) } nodeName k i =
          if c.type = .main ∧ c.inputIndex = i then (some items, some (sourceOf c k))
          else slotsAt m nodeName k i := by
        show (slotAt (addWaiting _ _ _ _ _ _) _ _ _, slotAt (addWaiting _ _ _ _ _ _) _ _ _) = _
        rw [slot_at_add_waiting, slot_at_add_waiting]
        by_cases hc : c.type = .main ∧ c.inputIndex = i
        · rw [if_pos ⟨rfl, rfl, hc⟩, if_pos ⟨rfl, rfl, hc⟩, if_pos hc]
          rfl
        · rw [if_neg fun hpos => hc hpos.2.2, if_neg fun hpos => hc hpos.2.2, if_neg hc]
          rfl
      refine hwrite.trans ?_
      by_cases hc : c.type = .main ∧ c.inputIndex = i
      · have hlast : waitingConnection runData (connections ++ [c]) i = some c := by
          rw [hconnection, if_pos ⟨hc.1, hc.2, by rw [hitems]; rfl⟩]
        rw [if_pos hc, groupSlots, hlast]
        simp [hitems]
      · have hsame : waitingConnection runData (connections ++ [c]) i =
            waitingConnection runData connections i := by
          rw [hconnection, if_neg fun hpos => hc ⟨hpos.1, hpos.2.1⟩]
        rw [if_neg hc, groupSlots, hsame]
        exact hm.slots i
    · rw [hany, hitems]
      show (entryAt (addWaiting _ _ _ _ _ _) _ _).isSome = true ↔ _
      rw [entry_at_add_waiting, if_pos ⟨rfl, rfl⟩]
      simp

theorem wait_group_entered {node : INode} {connections : List GraphConnection}
    {r r' : RecreatedData ι} (h : waitGroup runData node r connections = .ok r') :
    Entered runData node.name (nextRunIndex r node.name) connections r r' := by
  refine foldlM_along (fun pre m => Entered runData node.name (nextRunIndex r node.name) pre r m)
    ⟨rfl, fun _ _ _ => ⟨rfl, rfl⟩, fun i => rfl, ?_⟩
    (fun pre c m m' _ hm hstep => hm.snoc hstep) h
  simp [anyItems]

end Waiting

section Groups

/-- The groups that give waiting entries: the incomplete ones with items. -/
def waitingGroups (runData : IRunData ι) (groups : List SourceConnectionGroup) :
    List SourceConnectionGroup :=
  groups.filter fun group => !group.complete && anyItems runData group.connections

/-- What the groups of a node leave at a main input of its entry `k`. -/
def entrySlots (runData : IRunData ι) (groups : List SourceConnectionGroup) (k i : Nat) :
    Option (List ι) × Option ISourceData :=
  match (waitingGroups runData groups)[k]? with
  | some group => groupSlots runData k group.connections i
  | none => (none, none)

theorem next_run_index_eq {r : RecreatedData ι} {nodeName : String} {n : Nat}
    (h : ∀ k, (entryAt r.waitingExecution nodeName k).isSome = true ↔ k < n) :
    nextRunIndex r nodeName = n := by
  unfold nextRunIndex
  unfold entryAt at h
  cases hentries : r.waitingExecution.get? nodeName with
  | none =>
    simp only [hentries, Option.bind_none, Option.isSome_none, Bool.false_eq_true, false_iff] at h
    show 0 = n
    have := h 0
    omega
  | some entries =>
    simp only [hentries, Option.bind_some] at h
    exact IndexMap.size_eq_of_get h

/-- What the groups of a start node add. -/
structure GroupsAdded (runData : IRunData ι) (pinData : IPinData ι) (node : INode)
    (groups : List SourceConnectionGroup) (r r' : RecreatedData ι) : Prop where
  stack : r'.nodeExecutionStack = r.nodeExecutionStack ++
    (groups.filter (·.complete)).map fun group =>
      completeItem runData pinData node group.connections
  others : ∀ other k, other ≠ node.name →
    entryAt r'.waitingExecution other k = entryAt r.waitingExecution other k ∧
      entryAt r'.waitingExecutionSource other k = entryAt r.waitingExecutionSource other k
  present : ∀ k, (entryAt r'.waitingExecution node.name k).isSome = true ↔
    k < (waitingGroups runData groups).length
  slots : ∀ k i, slotsAt r' node.name k i = entrySlots runData groups k i

variable {runData : IRunData ι} {pinData : IPinData ι} {node : INode}

theorem waiting_connection_none {connections : List GraphConnection} (i : Nat)
    (h : anyItems runData connections = false) :
    waitingConnection runData connections i = none := by
  rw [waitingConnection, List.find?_eq_none]
  intro c hc hpos
  rw [anyItems, List.any_eq_false] at h
  exact h c (List.mem_reverse.mp hc) (by simp only [Bool.and_eq_true] at hpos; exact hpos.2)

theorem GroupsAdded.snoc {groups : List SourceConnectionGroup} {group : SourceConnectionGroup}
    {r m r' : RecreatedData ι} (hm : GroupsAdded runData pinData node groups r m)
    (h : addGroup runData pinData node m group = .ok r') :
    GroupsAdded runData pinData node (groups ++ [group]) r r' := by
  rw [addGroup] at h
  cases hcomplete : group.complete with
  | true =>
    rw [hcomplete, if_pos rfl] at h
    have hwaiting : waitingGroups runData (groups ++ [group]) = waitingGroups runData groups := by
      simp [waitingGroups, List.filter_append, hcomplete]
    rw [push_group_eq h]
    refine ⟨?_, hm.others, fun k => ?_, fun k i => ?_⟩
    · show m.nodeExecutionStack ++ [_] = _
      rw [hm.stack, List.filter_append, List.map_append, List.append_assoc]
      simp [hcomplete]
    · rw [hwaiting]
      exact hm.present k
    · rw [entrySlots, hwaiting]
      exact hm.slots k i
  | false =>
    rw [hcomplete, if_neg Bool.false_ne_true] at h
    have hentered := wait_group_entered h
    rw [next_run_index_eq hm.present] at hentered
    have hstack : (groups ++ [group]).filter (·.complete) = groups.filter (·.complete) := by
      simp [List.filter_append, hcomplete]
    refine ⟨by rw [hentered.stack, hm.stack, hstack], fun other k hother => ?_, fun k => ?_,
      fun k i => ?_⟩
    · obtain ⟨hentry, hsource⟩ := hentered.others other k fun hpos => hother hpos.1
      obtain ⟨hentry', hsource'⟩ := hm.others other k hother
      exact ⟨hentry.trans hentry', hsource.trans hsource'⟩
    · by_cases hk : k = (waitingGroups runData groups).length
      · subst hk
        rw [hentered.present, hm.present]
        cases hany : anyItems runData group.connections <;>
          simp [waitingGroups, List.filter_append, hcomplete, hany]
      · rw [(hentered.others node.name k fun hpos => hk hpos.2).1, hm.present]
        cases hany : anyItems runData group.connections <;>
          simp only [waitingGroups, List.filter_append, hcomplete, hany, List.length_append,
            List.filter_cons, List.filter_nil, Bool.not_false, Bool.and_true, Bool.and_false,
            if_true, Bool.false_eq_true, if_false, List.length_singleton,
            List.length_nil, Nat.add_zero]
        rw [waitingGroups] at hk
        omega
    · by_cases hk : k = (waitingGroups runData groups).length
      · subst hk
        have hfresh : slotsAt m node.name (waitingGroups runData groups).length i =
            (none, none) := by
          rw [hm.slots, entrySlots, List.getElem?_eq_none (Nat.le_refl _)]
        rw [hentered.slots, hfresh, entrySlots]
        cases hany : anyItems runData group.connections with
        | true =>
          have hwaiting : waitingGroups runData (groups ++ [group]) =
              waitingGroups runData groups ++ [group] := by
            simp [waitingGroups, List.filter_append, hcomplete, hany]
          rw [hwaiting, List.getElem?_concat_length]
          cases hconnection : waitingConnection runData group.connections i with
          | none => simp [groupSlots, hconnection]
          | some c => rfl
        | false =>
          have hwaiting : waitingGroups runData (groups ++ [group]) =
              waitingGroups runData groups := by
            simp [waitingGroups, List.filter_append, hcomplete, hany]
          rw [hwaiting, waiting_connection_none i hany, List.getElem?_eq_none (Nat.le_refl _)]
          rfl
      · obtain ⟨hentry, hsource⟩ := hentered.others node.name k fun hpos => hk hpos.2
        have hsame : slotsAt r' node.name k i = slotsAt m node.name k i := by
          rw [slotsAt, slotsAt, slotAt, slotAt, slotAt, slotAt, hentry, hsource]
        rw [hsame, hm.slots, entrySlots, entrySlots]
        cases hany : anyItems runData group.connections with
        | true =>
          have hwaiting : waitingGroups runData (groups ++ [group]) =
              waitingGroups runData groups ++ [group] := by
            simp [waitingGroups, List.filter_append, hcomplete, hany]
          rw [hwaiting]
          rcases Nat.lt_or_gt_of_ne hk with hlt | hgt
          · rw [List.getElem?_append_left hlt]
          · rw [List.getElem?_eq_none (Nat.le_of_lt hgt), List.getElem?_eq_none (by
              rw [List.length_append, List.length_singleton]
              omega)]
        | false =>
          have hwaiting : waitingGroups runData (groups ++ [group]) =
              waitingGroups runData groups := by
            simp [waitingGroups, List.filter_append, hcomplete, hany]
          rw [hwaiting]

theorem groups_added {groups : List SourceConnectionGroup} {r r' : RecreatedData ι}
    (hfresh : ∀ k, entryAt r.waitingExecution node.name k = none ∧
      entryAt r.waitingExecutionSource node.name k = none)
    (h : groups.foldlM (addGroup runData pinData node) r = .ok r') :
    GroupsAdded runData pinData node groups r r' := by
  refine foldlM_along (fun pre m => GroupsAdded runData pinData node pre r m)
    ⟨by simp, fun _ _ _ => ⟨rfl, rfl⟩, fun k => ?_, fun k i => ?_⟩
    (fun pre group m m' _ hm hstep => hm.snoc hstep) h
  · rw [(hfresh k).1]
    simp [waitingGroups]
  · rw [slotsAt, slotAt, slotAt, (hfresh k).1, (hfresh k).2]
    rfl

end Groups

section StartNodes

/-- The groups of a start node: none if no main connection leads to it. -/
def startGroups (localeCompare : String → String → Int) (graph : DirectedGraph)
    (runData : IRunData ι) (pinData : IPinData ι) (node : INode) : List SourceConnectionGroup :=
  if (graph.getConnections node).filter (·.type = .main) = [] then []
  else getSourceDataGroups localeCompare graph node runData pinData

/-- The items of the stack for a start node. -/
def startItems (localeCompare : String → String → Int) (emptyItem : ι) (graph : DirectedGraph)
    (runData : IRunData ι) (pinData : IPinData ι) (node : INode) : List (IExecuteData ι) :=
  if (graph.getConnections node).filter (·.type = .main) = [] then [placeholderItem emptyItem node]
  else ((startGroups localeCompare graph runData pinData node).filter (·.complete)).map fun group =>
    completeItem runData pinData node group.connections

/-- What the start nodes add up to. -/
structure StartNodesAdded (localeCompare : String → String → Int) (emptyItem : ι)
    (graph : DirectedGraph) (runData : IRunData ι) (pinData : IPinData ι) (startNodes : List INode)
    (r : RecreatedData ι) : Prop where
  stored : ∀ node ∈ startNodes, graph.stores node = true
  stack : r.nodeExecutionStack =
    startNodes.flatMap (startItems localeCompare emptyItem graph runData pinData)
  slots : ∀ node ∈ startNodes, ∀ k i, slotsAt r node.name k i =
    entrySlots runData (startGroups localeCompare graph runData pinData node) k i
  others : ∀ other, (∀ node ∈ startNodes, node.name ≠ other) → ∀ k,
    entryAt r.waitingExecution other k = none ∧ entryAt r.waitingExecutionSource other k = none

variable {localeCompare : String → String → Int} {emptyItem : ι} {graph : DirectedGraph}
  {runData : IRunData ι} {pinData : IPinData ι}

theorem add_start_node_stored {node : INode} {r r' : RecreatedData ι}
    (h : addStartNode localeCompare emptyItem graph runData pinData r node = .ok r') :
    graph.stores node = true := by
  rw [addStartNode] at h
  obtain ⟨parents, hparents, -⟩ := bind_eq_ok.mp h
  rw [DirectedGraph.getDirectParentConnections] at hparents
  split at hparents
  · assumption
  · cases hparents

theorem add_start_node_ok {node : INode} {r r' : RecreatedData ι}
    (hfresh : ∀ k, entryAt r.waitingExecution node.name k = none ∧
      entryAt r.waitingExecutionSource node.name k = none)
    (h : addStartNode localeCompare emptyItem graph runData pinData r node = .ok r') :
    r'.nodeExecutionStack =
        r.nodeExecutionStack ++ startItems localeCompare emptyItem graph runData pinData node ∧
      (∀ other k, other ≠ node.name →
        entryAt r'.waitingExecution other k = entryAt r.waitingExecution other k ∧
          entryAt r'.waitingExecutionSource other k = entryAt r.waitingExecutionSource other k) ∧
      ∀ k i, slotsAt r' node.name k i =
        entrySlots runData (startGroups localeCompare graph runData pinData node) k i := by
  rw [addStartNode] at h
  obtain ⟨parents, hparents, h⟩ := bind_eq_ok.mp h
  rw [DirectedGraph.getDirectParentConnections] at hparents
  split at hparents
  · cases hparents
    change (if (graph.getConnections node).filter (·.type = .main) = [] then _ else _) = _ at h
    split at h
    · rename_i hnone
      cases h
      refine ⟨by rw [startItems, if_pos hnone]; rfl, fun _ _ _ => ⟨rfl, rfl⟩, fun k i => ?_⟩
      show (slotAt r.waitingExecution _ _ _, slotAt r.waitingExecutionSource _ _ _) = _
      rw [slotAt, slotAt, (hfresh k).1, (hfresh k).2, startGroups, if_pos hnone]
      rfl
    · rename_i hmain
      have hgroups : startGroups localeCompare graph runData pinData node =
          getSourceDataGroups localeCompare graph node runData pinData := if_neg hmain
      have hadded := groups_added hfresh h
      rw [startItems, if_neg hmain, hgroups]
      exact ⟨hadded.stack, hadded.others, hadded.slots⟩
  · cases hparents

theorem start_nodes_added {startNodes : List INode} {r : RecreatedData ι}
    (hnodup : startNodes.Nodup)
    (h : recreateNodeExecutionStack localeCompare emptyItem graph startNodes runData pinData =
      .ok r) :
    StartNodesAdded localeCompare emptyItem graph runData pinData startNodes r := by
  rw [recreateNodeExecutionStack] at h
  split at h
  · cases h
  · refine foldlM_along (StartNodesAdded localeCompare emptyItem graph runData pinData)
      ⟨fun _ hnode => (List.not_mem_nil hnode).elim, rfl,
        fun _ hnode => (List.not_mem_nil hnode).elim, fun _ _ _ => ⟨rfl, rfl⟩⟩
      (fun pre node m m' hpre hm hstep => ?_) h
    have hstored := add_start_node_stored hstep
    -- a node of the same name would be the same node
    have hfresh : ∀ other ∈ pre, other.name ≠ node.name := by
      intro other hother hname
      have hsame := (DirectedGraph.stores_iff.mp (hm.stored other hother)).symm.trans
        ((congrArg graph.nodes.get? hname).trans (DirectedGraph.stores_iff.mp hstored))
      cases hsame
      exact (List.nodup_append.mp (hnodup.sublist hpre.sublist)).2.2 _ hother _
        (List.mem_singleton_self _) rfl
    obtain ⟨hstack, hothers, hslots⟩ :=
      add_start_node_ok (hm.others node.name hfresh) hstep
    refine ⟨fun other hother => ?_, ?_, fun other hother k i => ?_, fun other hother k => ?_⟩
    · rcases List.mem_append.mp hother with hold | hnew
      · exact hm.stored other hold
      · rwa [List.mem_singleton.mp hnew]
    · rw [hstack, hm.stack, List.flatMap_append, List.flatMap_singleton]
    · rcases List.mem_append.mp hother with hold | hnew
      · obtain ⟨hentry, hsource⟩ := hothers other.name k (hfresh other hold)
        rw [← hm.slots other hold, slotsAt, slotsAt, slotAt, slotAt, slotAt, slotAt, hentry,
          hsource]
      · rw [List.mem_singleton.mp hnew]
        exact hslots k i
    · have hne : other ≠ node.name := fun heq =>
        hother node (List.mem_append_right _ (List.mem_singleton_self _)) heq.symm
      obtain ⟨hentry, hsource⟩ := hothers other k hne
      rw [hentry, hsource]
      exact hm.others other (fun node' hnode' => hother node' (List.mem_append_left _ hnode')) k

end StartNodes

end N8n.PartialExecution
