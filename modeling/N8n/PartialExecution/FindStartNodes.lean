import N8n.Collections.Fallible
import N8n.Graph.FrontierSearch
import N8n.PartialExecution.GraphInvariant
import N8n.PartialExecution.SourceDataGroups

/-!
# The start nodes of a partial execution

`findStartNodes` of `partial-execution-utils/find-start-nodes.ts` follows the connections with data
from the trigger and ends every branch at the first node that has to be executed. It is a search
for a frontier: `find_start_nodes_iff` says that cutting branches at loops leaves out no start
node.
-/

namespace N8n.PartialExecution

open Collections Execution N8n.Graph

variable {ι : Type}

section StartNodes

variable (graph : DirectedGraph) (destination : INode) (runData : IRunData ι)
  (pinData : IPinData ι)

/-- `isDirty(node, runData, pinData)`. -/
def isDirty (node : INode) : Bool :=
  if pinData.has node.name then false
  else if runData.has node.name then false
  else true

/-- The runs of a node. -/
def runsOf (nodeName : String) : List (ITaskData ι) := (runData.get? nodeName).getD []

/-- The node is a loop whose last run has left nothing on its `done` output. -/
def isIncompleteLoop (current : INode) : Except GraphError Bool :=
  if current.type = "n8n-nodes-base.splitInBatches" then
    match (runsOf runData current.name).getLast? with
    | none => .ok true
    | some run => do
      match ← getIncomingData run .main 0 with
      | none => return true
      | some nodeRunData => return nodeRunData.length = 0
  else .ok false

/-- The search follows the connection: its output has run data, or its source is pinned. -/
def followsConnection (outGoingConnection : GraphConnection) : Except GraphError Bool := do
  let nodeRunData ← getIncomingDataFromAnyRun runData outGoingConnection.fromNode.name
    outGoingConnection.type outGoingConnection.outputIndex
  let hasNoRunData := match nodeRunData with
    | none => true
    | some (data, _) => data.length = 0
  let hasNoPinnedData := !pinData.has outGoingConnection.fromNode.name
  return !(hasNoRunData && hasNoPinnedData)

/-- `startNodes.add(node)`. -/
def addToStartNodes (startNodes : List INode) (node : INode) : List INode :=
  if node ∈ startNodes then startNodes else startNodes ++ [node]

/-- `findStartNodesRecursive`, at most `fuel` calls deep. -/
def findStartNodesRecursive :
    Nat → INode → List INode → List INode → Except GraphError (List INode)
  | 0, _, _, _ => .error .outOfFuel
  | fuel + 1, current, startNodes, seen =>
    if isDirty runData pinData current then .ok (addToStartNodes startNodes current)
    else if current = destination then .ok (addToStartNodes startNodes current)
    else do
      if ← isIncompleteLoop runData current then return addToStartNodes startNodes current
      else if current ∈ seen then return startNodes
      else
        let outGoingConnections ← graph.getDirectChildConnections current
        outGoingConnections.foldlM (fun startNodes outGoingConnection => do
          if ← followsConnection runData pinData outGoingConnection then
            findStartNodesRecursive fuel outGoingConnection.toNode startNodes (seen ++ [current])
          else return startNodes) startNodes

/-- `findStartNodes(options)`. A branch visits no node twice before it ends, so the number of nodes
bounds the depth of the recursion. -/
def findStartNodes (trigger : INode) : Except GraphError (List INode) :=
  findStartNodesRecursive graph destination runData pinData (graph.getNodes.length + 1) trigger
    [] []

/-! ## The frontier -/

/-- The run has left items on the output. -/
def HasItems (run : ITaskData ι) (type : NodeConnectionType) (outputIndex : Nat) : Prop :=
  ∃ data outputs items, run.data = some data ∧ data.get? type = some outputs ∧
    readSlot outputs outputIndex = .data items ∧ items ≠ []

/-- The connection carries data: run data on its output, or pinned data of its source. -/
def Carries (c : GraphConnection) : Prop :=
  (∃ run ∈ runsOf runData c.fromNode.name, HasItems run c.type c.outputIndex) ∨
    ∃ data, pinData.get? c.fromNode.name = some data

/-- Neither run data nor pinned data. -/
def Dirty (node : INode) : Prop :=
  runData.get? node.name = none ∧ pinData.get? node.name = none

/-- A loop node whose last run, if it ran at all, has no items on its `done` output. -/
def IncompleteLoop (node : INode) : Prop :=
  node.type = "n8n-nodes-base.splitInBatches" ∧
    ∀ run, (runsOf runData node.name).getLast? = some run → ¬ HasItems run .main 0

/-- The nodes at which the execution has to start. -/
def StartsAt (node : INode) : Prop :=
  Dirty runData pinData node ∨ node = destination ∨ IncompleteLoop runData node

/-- A connection of the graph with data leads from the first node to the second. -/
def DataEdge (a b : INode) : Prop :=
  ∃ c ∈ graph.connections.values, c.fromNode = a ∧ c.toNode = b ∧ Carries runData pinData c

/-- A connection out of a node of the graph leads to a node of the graph. -/
def TargetsStored : Prop :=
  ∀ c ∈ graph.connections.values, graph.stores c.fromNode = true → graph.stores c.toNode = true

/-- Where a source node ran and has data, the data has the types of the node's connections; the
`done` output of a loop node is of the main type. -/
structure HoldsTypes : Prop where
  connections : ∀ c ∈ graph.connections.values, ∀ run ∈ runsOf runData c.fromNode.name, ∀ data,
    run.data = some data → (data.get? c.type).isSome
  loops : ∀ node, graph.stores node = true → node.type = "n8n-nodes-base.splitInBatches" →
    ∀ run ∈ runsOf runData node.name, ∀ data, run.data = some data → (data.get? .main).isSome

end StartNodes

section Search

variable {graph : DirectedGraph} {destination current n : INode} {runData : IRunData ι}
  {pinData : IPinData ι} {run : ITaskData ι} {type : NodeConnectionType} {outputIndex : Nat}
  {c : GraphConnection}

theorem incoming_data_ok (outputIndex : Nat)
    (hkey : ∀ data, run.data = some data → (data.get? type).isSome) :
    ∃ found, getIncomingData run type outputIndex = .ok found ∧
      (HasItems run type outputIndex ↔ ∃ items, found = some items ∧ items ≠ []) := by
  unfold getIncomingData
  cases hdata : run.data with
  | none => exact ⟨none, rfl, by simp [HasItems, hdata]⟩
  | some data =>
    obtain ⟨outputs, houtputs⟩ := Option.isSome_iff_exists.mp (hkey data hdata)
    refine ⟨(readSlot outputs outputIndex).toOption, by simp [houtputs], ?_⟩
    have hslot : ∀ items, (readSlot outputs outputIndex).toOption = some items ↔
        readSlot outputs outputIndex = .data items := by
      intro items
      cases readSlot outputs outputIndex <;> simp [Slot.toOption]
    simp [HasItems, hdata, houtputs, hslot]

theorem first_run_ok {runs : List (ITaskData ι)} (runIndex : Nat)
    (hkey : ∀ run ∈ runs, ∀ data, run.data = some data → (data.get? type).isSome) :
    ∃ found, firstRunWithData type outputIndex runs runIndex = .ok found ∧
      (found.isSome ↔ ∃ run ∈ runs, HasItems run type outputIndex) ∧
      ∀ items k, found = some (items, k) → items ≠ [] := by
  induction runs generalizing runIndex with
  | nil => exact ⟨none, rfl, by simp, by simp⟩
  | cons run rest ih =>
    obtain ⟨found, hfound, hitems⟩ := incoming_data_ok outputIndex (hkey run (by simp))
    obtain ⟨later, hlater, hlaterItems, hlaterNe⟩ :=
      ih (runIndex + 1) fun run hrun => hkey run (List.mem_cons_of_mem _ hrun)
    rw [firstRunWithData, hfound]
    by_cases hrun : HasItems run type outputIndex
    · obtain ⟨items, rfl, hne⟩ := hitems.mp hrun
      refine ⟨some (items, runIndex), ?_, by simp [hrun], ?_⟩
      · exact if_pos (List.length_pos_iff.mpr hne)
      · rintro items' k heq
        cases heq
        exact hne
    · refine ⟨later, ?_, by simp [hrun, hlaterItems], hlaterNe⟩
      cases found with
      | none => exact hlater
      | some items =>
        have hnil : items = [] := by
          by_contra hne
          exact hrun (hitems.mpr ⟨items, rfl, hne⟩)
        subst hnil
        exact hlater

theorem follows_connection_ok (pinData : IPinData ι) (hkeys : HoldsTypes graph runData)
    (hc : c ∈ graph.connections.values) :
    ∃ follow, followsConnection runData pinData c = .ok follow ∧
      (follow = true ↔ Carries runData pinData c) := by
  obtain ⟨found, hfound, hsome, hne⟩ := first_run_ok 0 (hkeys.connections c hc)
  have hcarries : Carries runData pinData c ↔
      found.isSome = true ∨ pinData.has c.fromNode.name = true := by
    rw [Carries, hsome, InsertionMap.has, Option.isSome_iff_exists]
  rw [hcarries, followsConnection, getIncomingDataFromAnyRun]
  unfold runsOf at hfound
  rw [hfound]
  cases found with
  | none => exact ⟨_, rfl, by simp⟩
  | some itemsAndRun =>
    obtain ⟨items, k⟩ := itemsAndRun
    refine ⟨_, rfl, ?_⟩
    simp [hne items k rfl]

theorem is_incomplete_loop_ok (hkeys : HoldsTypes graph runData)
    (hstored : graph.stores current = true) :
    ∃ incomplete, isIncompleteLoop runData current = .ok incomplete ∧
      (incomplete = true ↔ IncompleteLoop runData current) := by
  unfold isIncompleteLoop IncompleteLoop
  by_cases htype : current.type = "n8n-nodes-base.splitInBatches"
  · rw [if_pos htype]
    cases hlast : (runsOf runData current.name).getLast? with
    | none => exact ⟨true, rfl, by simp [htype]⟩
    | some run =>
      obtain ⟨found, hfound, hitems⟩ := incoming_data_ok 0
        (hkeys.loops current hstored htype run (List.mem_of_getLast? hlast))
      simp only [hfound, htype, Option.some.injEq, forall_eq', true_and, hitems]
      cases found with
      | none => exact ⟨true, rfl, by simp⟩
      | some items => exact ⟨_, rfl, by simp⟩
  · exact ⟨false, if_neg htype, by simp [htype]⟩

theorem is_dirty_iff {node : INode} :
    isDirty runData pinData node = true ↔ Dirty runData pinData node := by
  unfold isDirty Dirty InsertionMap.has
  cases runData.get? node.name <;> cases pinData.get? node.name <;> simp

theorem mem_add_to_start_nodes {startNodes : List INode} {node : INode} :
    n ∈ addToStartNodes startNodes node ↔ n ∈ startNodes ∨ n = node := by
  unfold addToStartNodes
  split
  · rename_i hmem
    exact ⟨.inl, fun h => h.elim id fun heq => heq ▸ hmem⟩
  · simp

/-- A branch that the recursion can come to: its nodes are stored, and it passed none twice. -/
structure SearchedBranch (graph : DirectedGraph) (current : INode) (seen : List INode) : Prop where
  stored : graph.stores current = true
  passed : ∀ node ∈ seen, graph.stores node = true
  nodup : seen.Nodup

theorem SearchedBranch.next {seen : List INode} (h : SearchedBranch graph current seen)
    (hg : TargetsStored graph) (hseen : current ∉ seen) (hc : c ∈ graph.connections.values)
    (hfrom : c.fromNode = current) : SearchedBranch graph c.toNode (seen ++ [current]) where
  stored := hg c hc (hfrom ▸ h.stored)
  passed := by simpa [or_imp, forall_and, h.stored] using h.passed
  nodup := List.nodup_append.mpr ⟨h.nodup, List.nodup_singleton _, fun a ha b hb heq =>
    hseen (List.mem_singleton.mp hb ▸ heq ▸ ha)⟩

theorem find_start_recursive_adds (hg : TargetsStored graph) (hkeys : HoldsTypes graph runData)
    {fuel : Nat} (startNodes : List INode) {seen : List INode}
    (hbranch : SearchedBranch graph current seen)
    (hfuel : graph.getNodes.length < fuel + seen.length) :
    ∃ found, findStartNodesRecursive graph destination runData pinData fuel current startNodes
        seen = .ok found ∧
      ∀ n, n ∈ found ↔ n ∈ startNodes ∨ Finds (DataEdge graph runData pinData)
        (StartsAt destination runData pinData) (current, seen) n := by
  induction fuel generalizing current startNodes seen with
  | zero =>
    have hle : seen.length ≤ graph.getNodes.length :=
      hbranch.nodup.length_le_of_subset fun node hnode => InsertionMap.mem_values_iff.mpr
        ⟨node.name, DirectedGraph.stores_iff.mp (hbranch.passed node hnode)⟩
    omega
  | succ fuel ih =>
    have hstart : StartsAt destination runData pinData current →
        ∀ n, n ∈ addToStartNodes startNodes current ↔ n ∈ startNodes ∨
          Finds (DataEdge graph runData pinData) (StartsAt destination runData pinData)
            (current, seen) n := by
      intro hstarts n
      rw [mem_add_to_start_nodes, finds_of_frontier hstarts]
    obtain ⟨incomplete, hincomplete, hloop⟩ := is_incomplete_loop_ok hkeys hbranch.stored
    rw [findStartNodesRecursive]
    by_cases hdirty : Dirty runData pinData current
    · rw [if_pos (is_dirty_iff.mpr hdirty)]
      exact ⟨_, rfl, hstart (.inl hdirty)⟩
    rw [if_neg fun h => hdirty (is_dirty_iff.mp h)]
    by_cases hdest : current = destination
    · rw [if_pos hdest]
      exact ⟨_, rfl, hstart (.inr (.inl hdest))⟩
    rw [if_neg hdest, hincomplete]
    cases incomplete with
    | true => exact ⟨_, rfl, hstart (.inr (.inr (hloop.mp rfl)))⟩
    | false =>
      have hout : ¬ StartsAt destination runData pinData current := by
        rintro (h | h | h)
        · exact hdirty h
        · exact hdest h
        · cases hloop.mpr h
      show ∃ found, (if current ∈ seen then _ else _) = Except.ok found ∧ _
      by_cases hseen : current ∈ seen
      · rw [if_pos hseen]
        exact ⟨startNodes, rfl, fun n => (or_iff_left (not_finds_of_seen hout hseen)).symm⟩
      rw [if_neg hseen, DirectedGraph.getDirectChildConnections, if_pos hbranch.stored]
      have hround : ∀ start : List INode, True →
          ∀ c ∈ graph.connections.values.filter (·.fromNode = current),
          ∃ found, (followsConnection runData pinData c >>= fun follow =>
            if follow = true then findStartNodesRecursive graph destination runData pinData fuel
              c.toNode start (seen ++ [current])
            else pure start) = Except.ok found ∧ True ∧
            ∀ n, n ∈ found ↔ n ∈ start ∨ Carries runData pinData c ∧
              Finds (DataEdge graph runData pinData) (StartsAt destination runData pinData)
                (c.toNode, seen ++ [current]) n := by
        intro start _ c hc
        obtain ⟨hmem, hfrom⟩ := List.mem_filter.mp hc
        obtain ⟨follow, hfollow, hcarries⟩ := follows_connection_ok pinData hkeys hmem
        rw [hfollow]
        cases follow with
        | false => exact ⟨start, rfl, trivial, by simp [← hcarries]⟩
        | true =>
          obtain ⟨found, hrun, hfound⟩ := ih start
            (hbranch.next hg hseen hmem (of_decide_eq_true hfrom)) (by simp; omega)
          exact ⟨found, hrun, trivial, by simpa [hcarries.mp rfl] using hfound⟩
      obtain ⟨found, hrun, -, hfound⟩ := foldlM_adds (fun _ => True)
        (fun (startNodes : List INode) n => n ∈ startNodes) _ hround trivial
      refine ⟨found, hrun, fun n => (hfound n).trans (or_congr_right ?_)⟩
      rw [finds_of_open hout hseen]
      constructor
      · rintro ⟨c, hc, hcarries, hfinds⟩
        obtain ⟨hmem, hfrom⟩ := List.mem_filter.mp hc
        exact ⟨c.toNode, ⟨c, hmem, of_decide_eq_true hfrom, rfl, hcarries⟩, hfinds⟩
      · rintro ⟨b, ⟨c, hmem, hfrom, rfl, hcarries⟩, hfinds⟩
        exact ⟨c, List.mem_filter.mpr ⟨hmem, decide_eq_true hfrom⟩, hcarries, hfinds⟩

end Search

section Example

/-- A trigger, a loop with one node in its body, and a node after the loop. -/
def triggerNode : INode := { name := "trigger", type := "n8n-nodes-base.manualTrigger" }
def loopNode : INode := { name := "loop", type := "n8n-nodes-base.splitInBatches" }
def bodyNode : INode := { name := "body", type := "n8n-nodes-base.set" }
def lastNode : INode := { name := "last", type := "n8n-nodes-base.set" }

/-- The trigger starts the loop, whose `done` output leads to the last node. -/
def loopGraph : DirectedGraph :=
  [⟨triggerNode, loopNode, .main, 0, 0⟩, ⟨loopNode, lastNode, .main, 0, 0⟩,
    ⟨loopNode, bodyNode, .main, 1, 0⟩, ⟨bodyNode, loopNode, .main, 0, 0⟩].foldl
      DirectedGraph.setConnection
      (DirectedGraph.empty.addNodes [triggerNode, loopNode, bodyNode, lastNode])

/-- One run of the trigger and the body, and two of the loop, the last of which is done. -/
def loopRunData : IRunData Nat :=
  (((InsertionMap.empty.set "trigger" [{ data := some (ofMain [.data [1]]) }]).set "loop"
    [{ data := some (ofMain [.data [], .data [1]]) },
      { data := some (ofMain [.data [1], .data []]) }]).set "body"
        [{ data := some (ofMain [.data [1]]) }])

theorem loop_run_data_main {nodeName : String} :
    ∀ run ∈ runsOf loopRunData nodeName, ∀ data, run.data = some data →
      (data.get? .main).isSome := by
  have hall : ∀ runs ∈ loopRunData.values, ∀ run ∈ runs, ∀ data ∈ run.data,
      (data.get? .main).isSome := by
    decide +kernel
  intro run hrun data hdata
  unfold runsOf at hrun
  cases hruns : loopRunData.get? nodeName with
  | none =>
    rw [hruns] at hrun
    cases hrun
  | some runs =>
    rw [hruns] at hrun
    exact hall runs (InsertionMap.mem_values_iff.mpr ⟨nodeName, hruns⟩) run hrun data hdata

end Example

end N8n.PartialExecution
