import Mathlib.Data.List.Perm.Subperm
import Mathlib.Data.List.Sort
import Mathlib.Logic.Function.Basic
import N8n.Graph.LoopSearch
import N8n.Workflow.Connections

/-!
# Dirty nodes in loops

`findLoop` and the loop rule of
`packages/frontend/editor-ui/src/composables/useNodeDirtiness.ts`: when a node in a loop becomes
dirty, the first node of the loop is marked as well. `loops_exact_iff` says for which workflows the
loop that is found for each node is one that the node is part of.
-/

namespace N8n.NodeDirtiness

open Collections Graph Relation

/-! ## The search for a loop -/

/-- What is read of a workflow: the names of its nodes, and its connections. -/
structure WorkflowGraph where
  allNodes : List String
  connections : IConnections

/-- `incomingConnectionsByNodeName(nodeName)`. -/
def WorkflowGraph.incomingConnectionsByNodeName (w : WorkflowGraph) (nodeName : String) :
    INodeConnections :=
  ((mapConnectionsByDestination w.connections).get? nodeName).getD .empty

/-- `outgoingConnectionsByNodeName(nodeName)`. -/
def WorkflowGraph.outgoingConnectionsByNodeName (w : WorkflowGraph) (nodeName : String) :
    INodeConnections :=
  (w.connections.get? nodeName).getD .empty

/-- The nodes of the main connections, in the order of the loops over them. -/
def mainNodes (connections : INodeConnections) : List String :=
  ((connections.get? .main).getD []).flatMap fun connections =>
    (connections.getD []).map IConnection.node

/-- The loop over the nodes, up to the first one for which the search finds a loop: `none` when the
search does not come to an end. -/
def firstLoop (search : String → Option (Option (List String))) :
    List String → Option (Option (List String))
  | [] => some none
  | node :: rest =>
    match search node with
    | none => none
    | some (some loop) => some (some loop)
    | some none => firstLoop search rest

/-- `findLoop(nodeName, visited, getIncomingConnections)`, `none` when it is not done after `fuel`
calls inside each other. -/
def findLoop (getIncomingConnections : String → INodeConnections) :
    Nat → String → List String → Option (Option (List String))
  | 0, _, _ => none
  | fuel + 1, nodeName, visited =>
    if nodeName ∈ visited then some (some (visited.drop (visited.idxOf nodeName)))
    else firstLoop (fun node => findLoop getIncomingConnections fuel node (visited ++ [nodeName]))
      (mainNodes (getIncomingConnections nodeName))

/-- The nodes at the other ends of the main connections. -/
def connectedNodes (connections : IConnections) : List String :=
  connections.entries.flatMap fun (_, ofNode) => mainNodes ofNode

/-- More calls than a search can have inside each other: no two are for the same node, except the
last one. -/
def WorkflowGraph.searchDepth (w : WorkflowGraph) : Nat :=
  (connectedNodes w.connections).length +
    (connectedNodes (mapConnectionsByDestination w.connections)).length + 3

/-! ## Depths -/

/-- The record `depth`. -/
abbrev Depths := String → Option Nat

/-- The assignment to `depth[node]`, unless it has a value that is neither 0 nor larger. -/
def setDepth (current : Nat) (depth : Depths) (node : String) : Depths :=
  if (depth node).all fun d => d = 0 ∨ current < d then Function.update depth node (some current)
  else depth

/-- `setDepthRecursively(nodeName, current, visited)`, for `fuel` calls inside each other. -/
def setDepthRecursively (outgoing : String → INodeConnections) :
    Nat → String → Nat → List String → Depths → Depths
  | 0, _, _, _, depth => depth
  | fuel + 1, nodeName, current, visited, depth =>
    if nodeName ∈ visited then depth
    else (mainNodes (outgoing nodeName)).foldl (fun depth node =>
      setDepthRecursively outgoing fuel node (current + 1) (nodeName :: visited)
        (setDepth current depth node)) depth

/-- `depthByName`. -/
def WorkflowGraph.depthByName (w : WorkflowGraph) : Depths :=
  w.allNodes.foldl (fun depth startNode =>
    if (w.incomingConnectionsByNodeName startNode).keys = [] then
      setDepthRecursively w.outgoingConnectionsByNodeName w.searchDepth startNode 1 []
        (Function.update depth startNode (some 0))
    else depth) fun _ => none

/-! ## The loop rule -/

/-- `CanvasNodeDirtiness`. -/
inductive CanvasNodeDirtiness where
  | parametersUpdated
  | incomingConnectionsUpdated
  | pinnedDataUpdated
  | upstreamDirty
  deriving DecidableEq, Repr

/-- The record `dirtiness`. -/
abbrev Dirtiness := String → Option CanvasNodeDirtiness

/-- `dirtiness[nodeName] = dirtiness[nodeName] ?? value`. -/
def Dirtiness.setOnce (dirtiness : Dirtiness) (nodeName : String) (value : CanvasNodeDirtiness) :
    Dirtiness :=
  Function.update dirtiness nodeName (dirtiness nodeName <|> some value)

/-- `Number.MAX_SAFE_INTEGER`. -/
def maxSafeInteger : Nat := 9007199254740991

/-- `loopEntryNodeName`: the first node of the loop after sorting it by depth. -/
def loopEntryNodeName (depth : Depths) (loop : List String) : Option String :=
  (loop.insertionSort fun a b =>
    (depth a).getD maxSafeInteger ≤ (depth b).getD maxSafeInteger).head?

/-- The loop that is found for a node. -/
def WorkflowGraph.loopOf (w : WorkflowGraph) (nodeName : String) : Option (List String) :=
  (findLoop w.incomingConnectionsByNodeName w.searchDepth nodeName []).getD none

/-- The part of `setDirtiness` for the loop. -/
def WorkflowGraph.markLoopEntry (w : WorkflowGraph) (dirtiness : Dirtiness) (nodeName : String) :
    Dirtiness :=
  match (w.loopOf nodeName).bind (loopEntryNodeName w.depthByName) with
  | none => dirtiness
  | some entry =>
    if entry ≠ "" ∧ (w.depthByName entry).getD 0 ≠ 0 then dirtiness.setOnce entry .upstreamDirty
    else dirtiness

/-- `setDirtiness(nodeName, value)`. -/
def WorkflowGraph.setDirtiness (w : WorkflowGraph) (dirtiness : Dirtiness)
    (change : String × CanvasNodeDirtiness) : Dirtiness :=
  w.markLoopEntry (dirtiness.setOnce change.1 change.2) change.1

/-- `dirtinessByName`, with the dirty nodes among those with run data and why they are dirty. -/
def WorkflowGraph.dirtinessByName (w : WorkflowGraph) (partialExecutionVersion : Nat)
    (changes : List (String × CanvasNodeDirtiness)) : Dirtiness :=
  if partialExecutionVersion = 1 then fun _ => none
  else changes.foldl w.setDirtiness fun _ => none

/-! ## What loops are to be -/

/-- A main input of the first node is connected to the second. -/
def WorkflowGraph.MainConnection (w : WorkflowGraph) (target source : String) : Prop :=
  ∃ type outputIndex index, w.connections.Has source type outputIndex ⟨target, .main, index⟩

/-- The loop is a cycle of main connections that the node is part of, and none is found only when
there is none. -/
def WorkflowGraph.IsLoopOf (w : WorkflowGraph) (nodeName : String) : Option (List String) → Prop
  | some loop => IsCycle w.MainConnection loop ∧ nodeName ∈ loop
  | none => ∀ loop, IsCycle w.MainConnection loop → nodeName ∉ loop

/-- The search for each node ends with a loop that the node is part of, if there is one. -/
def WorkflowGraph.LoopsExact (w : WorkflowGraph) : Prop :=
  ∀ nodeName, ∃ result,
    findLoop w.incomingConnectionsByNodeName w.searchDepth nodeName [] = some result ∧
      w.IsLoopOf nodeName result

/-- The loop rule marks the node, which is not dirty yet, for one of the changes. -/
def WorkflowGraph.MarkedByLoop (w : WorkflowGraph) (changes : List (String × CanvasNodeDirtiness))
    (nodeName : String) : Prop :=
  ∃ before change after, changes = before ++ change :: after ∧
    ((before.foldl w.setDirtiness fun _ => none).setOnce change.1 change.2) nodeName = none ∧
    (w.setDirtiness (before.foldl w.setDirtiness fun _ => none) change) nodeName ≠ none

/-- The nodes that the loop rule marks are on a common cycle with another dirty node. -/
def WorkflowGraph.DirtyTogether (w : WorkflowGraph) (partialExecutionVersion : Nat)
    (changes : List (String × CanvasNodeDirtiness)) : Prop :=
  partialExecutionVersion ≠ 1 → ∀ nodeName, w.MarkedByLoop changes nodeName →
    ∃ other ≠ nodeName, w.dirtinessByName partialExecutionVersion changes other ≠ none ∧
      ∃ loop, IsCycle w.MainConnection loop ∧ nodeName ∈ loop ∧ other ∈ loop

/-- The parents of a node by main connections. -/
def WorkflowGraph.mainParents (w : WorkflowGraph) (nodeName : String) : List String :=
  mainNodes (w.incomingConnectionsByNodeName nodeName)

/-- Every node with a loop above it is come back to by going up from it, each time to the first
parent that has a loop above it. -/
def WorkflowGraph.LoopsComeBack (w : WorkflowGraph) : Prop :=
  ∀ nodeName, LoopAbove (IsParent w.mainParents) nodeName →
    TransGen (LeadsTo w.mainParents) nodeName nodeName

/-! ## Main connections -/

variable {w : WorkflowGraph} {nodeName node : String} {connections : IConnections}

theorem mem_mainNodes_iff {ofNode : INodeConnections} :
    node ∈ mainNodes ofNode ↔ ∃ index, ∃ connection : IConnection,
      INodeConnections.Has ofNode .main index connection ∧ connection.node = node := by
  constructor
  · intro h
    obtain ⟨conns, hconns, hnode⟩ := List.mem_flatMap.mp h
    obtain ⟨connection, hconnection, rfl⟩ := List.mem_map.mp hnode
    cases hinputs : ofNode.get? .main with
    | none =>
        rw [hinputs] at hconns
        cases hconns
    | some inputs =>
        rw [hinputs] at hconns
        cases conns with
        | none => cases hconnection
        | some conns =>
            obtain ⟨index, hindex⟩ := List.mem_iff_getElem?.mp hconns
            exact ⟨index, connection, ⟨inputs, hinputs, conns, hindex, hconnection⟩, rfl⟩
  · intro ⟨index, connection, ⟨inputs, hinputs, conns, hindex, hconnection⟩, hnode⟩
    unfold mainNodes
    rw [hinputs]
    exact List.mem_flatMap.mpr ⟨some conns, List.mem_iff_getElem?.mpr ⟨index, hindex⟩,
      List.mem_map.mpr ⟨connection, hconnection, hnode⟩⟩

theorem isParent_iff (w : WorkflowGraph) (target source : String) :
    IsParent w.mainParents target source ↔ w.MainConnection target source := by
  have harrival := fun type outputIndex index => has_map_connections_by_destination w.connections
    ⟨target, .main, index, ⟨source, type, outputIndex⟩⟩
  unfold IsParent WorkflowGraph.mainParents WorkflowGraph.incomingConnectionsByNodeName
  rw [mem_mainNodes_iff]
  constructor
  · intro ⟨index, connection, hhas, hnode⟩
    refine ⟨connection.type, connection.index, index, (harrival _ _ _).mp ?_⟩
    cases hget : (mapConnectionsByDestination w.connections).get? target with
    | none =>
        rw [hget] at hhas
        obtain ⟨_, hnone, -⟩ := hhas
        cases hnone
    | some ofNode =>
        rw [hget] at hhas
        subst hnode
        exact IConnections.has_iff.mpr ⟨ofNode, hget, hhas⟩
  · intro ⟨type, outputIndex, index, hhas⟩
    obtain ⟨ofNode, hget, hinput⟩ :=
      IConnections.has_iff.mp ((harrival type outputIndex index).mpr hhas)
    rw [hget]
    exact ⟨index, _, hinput, rfl⟩

theorem mem_connectedNodes
    (h : node ∈ mainNodes ((connections.get? nodeName).getD .empty)) :
    node ∈ connectedNodes connections := by
  cases hget : connections.get? nodeName with
  | none =>
      rw [hget] at h
      cases h
  | some ofNode =>
      rw [hget] at h
      exact List.mem_flatMap.mpr ⟨(nodeName, ofNode), InsertionMap.get_eq_some_iff.mp hget, h⟩

/-! ## The runs of the search -/

variable {incoming : String → INodeConnections} {visited names : List String} {fuel : Nat}

/-- The nodes that a call has visited and its own node, each of which is a parent of the one before,
and fuel for a call for each of the other nodes and one more. -/
structure Searching (incoming : String → INodeConnections) (names : List String) (fuel : Nat)
    (nodeName : String) (visited : List String) : Prop where
  chain : (visited ++ [nodeName]).IsChain (IsParent fun node => mainNodes (incoming node))
  nodup : visited.Nodup
  named : visited ++ [nodeName] ⊆ names
  closed : ∀ node, mainNodes (incoming node) ⊆ names
  enough : names.length < fuel + visited.length

theorem Searching.fuel_eq (h : Searching incoming names fuel nodeName visited) :
    ∃ rest, fuel = rest + 1 := by
  have hlength := (List.subperm_of_subset h.nodup fun node hnode =>
    h.named (List.mem_append_left _ hnode)).length_le
  have henough := h.enough
  exact Nat.exists_eq_add_one_of_ne_zero (by omega)

theorem Searching.parent (h : Searching incoming names (fuel + 1) nodeName visited)
    (hnew : nodeName ∉ visited) (hnode : node ∈ mainNodes (incoming nodeName)) :
    Searching incoming names fuel node (visited ++ [nodeName]) := by
  refine ⟨?_, ?_, ?_, h.closed, ?_⟩
  · refine h.chain.append (List.isChain_singleton node) fun last hlast next hnext => ?_
    rw [List.getLast?_concat] at hlast
    cases hlast
    cases hnext
    exact hnode
  · rw [← List.concat_eq_append]
    exact h.nodup.concat hnew
  · exact List.append_subset.mpr ⟨h.named, List.cons_subset.mpr
      ⟨h.closed nodeName hnode, List.nil_subset _⟩⟩
  · have henough := h.enough
    rw [List.length_append, List.length_singleton]
    omega

theorem Searching.loopAbove (h : Searching incoming names fuel nodeName visited)
    (hold : nodeName ∈ visited) :
    LoopAbove (IsParent fun node => mainNodes (incoming node)) nodeName :=
  ⟨nodeName, .refl, transGen_of_mem h.chain hold⟩

theorem firstLoop_none {search : String → Option (Option (List String))} {nodes rest : List String}
    (h : ∀ node ∈ nodes, search node = some none) :
    firstLoop search (nodes ++ rest) = firstLoop search rest := by
  induction nodes with
  | nil => rfl
  | cons node nodes ih =>
      rw [List.cons_append, firstLoop, h node (List.mem_cons_self ..)]
      exact ih fun other hother => h other (List.mem_cons_of_mem _ hother)

theorem findLoop_none (h : Searching incoming names fuel nodeName visited)
    (hnone : ¬ LoopAbove (IsParent fun node => mainNodes (incoming node)) nodeName) :
    findLoop incoming fuel nodeName visited = some none := by
  induction fuel generalizing nodeName visited with
  | zero =>
      obtain ⟨_, hfuel⟩ := h.fuel_eq
      cases hfuel
  | succ fuel ih =>
      have hnew : nodeName ∉ visited := fun hold => hnone (h.loopAbove hold)
      have hparents : ∀ node ∈ mainNodes (incoming nodeName),
          findLoop incoming fuel node (visited ++ [nodeName]) = some none := fun node hnode =>
        ih (h.parent hnew hnode) fun hloop => hnone (loopAbove_of_step hnode hloop)
      rw [findLoop, if_neg hnew, ← List.append_nil (mainNodes _), firstLoop_none hparents]
      rfl

/-- With a loop above the node, the loop that is found is the one to which the first parents with
loops above them lead. -/
theorem findLoop_some (h : Searching incoming names fuel nodeName visited)
    (hchain : (visited ++ [nodeName]).IsChain (LeadsTo fun node => mainNodes (incoming node)))
    (hloop : LoopAbove (IsParent fun node => mainNodes (incoming node)) nodeName) :
    ∃ loop, findLoop incoming fuel nodeName visited = some (some loop) ∧
      IsCycle (LeadsTo fun node => mainNodes (incoming node)) loop ∧
      ∃ node ∈ loop,
        ReflTransGen (LeadsTo fun node => mainNodes (incoming node)) nodeName node := by
  induction fuel generalizing nodeName visited with
  | zero =>
      obtain ⟨_, hfuel⟩ := h.fuel_eq
      cases hfuel
  | succ fuel ih =>
      rw [findLoop]
      split
      · rename_i hold
        obtain ⟨before, after, hvisited, hbefore⟩ := List.eq_append_cons_of_mem hold
        have hdrop : visited.drop (visited.idxOf nodeName) = nodeName :: after := by
          rw [hvisited, List.idxOf_append_of_notMem hbefore, List.idxOf_cons_self, Nat.add_zero,
            List.drop_left]
        have hnodup : (nodeName :: after).Nodup := by
          have hnodup := h.nodup
          rw [hvisited] at hnodup
          exact hnodup.of_append_right
        rw [hvisited, List.append_assoc] at hchain
        exact ⟨_, congrArg (some ∘ some) hdrop, ⟨hnodup, hchain.right_of_append⟩, nodeName,
          List.mem_cons_self .., .refl⟩
      · rename_i hnew
        obtain ⟨next, before, after, hleads, hsplit, hbefore⟩ := exists_leadsTo hloop
        have hnext : next ∈ mainNodes (incoming nodeName) := hleads.isParent
        have hchain' : (visited ++ [nodeName] ++ [next]).IsChain
            (LeadsTo fun node => mainNodes (incoming node)) := by
          refine hchain.append (List.isChain_singleton next) fun last hlast first hfirst => ?_
          rw [List.getLast?_concat] at hlast
          cases hlast
          cases hfirst
          exact hleads
        obtain ⟨loop, hfound, hcycle, node, hnode, hreach⟩ :=
          ih (h.parent hnew hnext) hchain' hleads.loopAbove
        have hskip : ∀ node ∈ before,
            findLoop incoming fuel node (visited ++ [nodeName]) = some none := by
          intro node hnode
          have hparent : node ∈ mainNodes (incoming nodeName) := by
            rw [hsplit]
            exact List.mem_append_left _ hnode
          exact findLoop_none (h.parent hnew hparent) (hbefore node hnode)
        rw [hsplit, firstLoop_none hskip, firstLoop, hfound]
        exact ⟨loop, rfl, hcycle, node, hnode, .head hleads hreach⟩

theorem searching_start (w : WorkflowGraph) (nodeName : String) :
    Searching w.incomingConnectionsByNodeName
      (nodeName :: connectedNodes (mapConnectionsByDestination w.connections)) w.searchDepth
      nodeName [] := by
  refine ⟨List.isChain_singleton _, List.nodup_nil, ?_, ?_, ?_⟩
  · exact List.cons_subset.mpr ⟨List.mem_cons_self .., List.nil_subset _⟩
  · exact fun node parent hparent => List.mem_cons_of_mem _ (mem_connectedNodes hparent)
  · rw [WorkflowGraph.searchDepth, List.length_cons, List.length_nil]
    omega

theorem isCycle_parents_iff (w : WorkflowGraph) (loop : List String) :
    IsCycle (IsParent w.mainParents) loop ↔ IsCycle w.MainConnection loop :=
  ⟨IsCycle.mono fun a b => (isParent_iff w a b).mp,
    IsCycle.mono fun a b => (isParent_iff w a b).mpr⟩

/-- The loop that is found is right for a node exactly when the search comes back to the node, or
has no loop above it. -/
theorem exists_loopOf_iff (w : WorkflowGraph) (nodeName : String) :
    (∃ result, findLoop w.incomingConnectionsByNodeName w.searchDepth nodeName [] = some result ∧
      w.IsLoopOf nodeName result) ↔
    (LoopAbove (IsParent w.mainParents) nodeName →
      TransGen (LeadsTo w.mainParents) nodeName nodeName) := by
  by_cases hloop : LoopAbove (IsParent w.mainParents) nodeName
  · obtain ⟨loop, hfound, hcycle, node, hnode, hreach⟩ :=
      findLoop_some (searching_start w nodeName) (List.isChain_singleton _) hloop
    have hmem := mem_cycle_iff (leadsTo_functional w.mainParents) hcycle hnode hreach
    have hmain := (isCycle_parents_iff w loop).mp (hcycle.mono fun _ _ => LeadsTo.isParent)
    rw [forall_prop_of_true hloop, ← hmem, hfound]
    constructor
    · intro ⟨result, hresult, hexact⟩
      cases hresult
      exact hexact.2
    · intro h
      exact ⟨_, rfl, hmain, h⟩
  · refine iff_of_true ?_ fun h => absurd h hloop
    refine ⟨none, findLoop_none (searching_start w nodeName) hloop, fun loop hcycle hmem => ?_⟩
    exact hloop (((isCycle_parents_iff w loop).mpr hcycle).loopAbove hmem)

/-- The search for a loop always ends. The loop that it finds is a cycle of main connections that
leads to the node, and it finds none only when no cycle leads to the node. -/
theorem find_loop_sound (w : WorkflowGraph) (nodeName : String) :
    ∃ result, findLoop w.incomingConnectionsByNodeName w.searchDepth nodeName [] = some result ∧
      (∀ loop, result = some loop → IsCycle w.MainConnection loop ∧
        ∃ node ∈ loop, ReflTransGen w.MainConnection nodeName node) ∧
      (result = none → ∀ loop, IsCycle w.MainConnection loop →
        ∀ node ∈ loop, ¬ ReflTransGen w.MainConnection nodeName node) := by
  have hstart := searching_start w nodeName
  by_cases hloop : LoopAbove (IsParent w.mainParents) nodeName
  · obtain ⟨loop, hfound, hcycle, node, hnode, hreach⟩ :=
      findLoop_some hstart (List.isChain_singleton _) hloop
    refine ⟨some loop, hfound, fun found heq => ?_, fun hnone => absurd hnone nofun⟩
    cases heq
    have hmain : ReflTransGen w.MainConnection nodeName node :=
      .mono (fun a b hleads => (isParent_iff w a b).mp (LeadsTo.isParent hleads)) _ _ hreach
    exact ⟨(isCycle_parents_iff w loop).mp (hcycle.mono fun _ _ => LeadsTo.isParent), node, hnode,
      hmain⟩
  · refine ⟨none, findLoop_none hstart hloop, fun found heq => absurd heq nofun, ?_⟩
    intro _ loop hcycle node hnode hreach
    have hparents : ReflTransGen (IsParent w.mainParents) nodeName node :=
      .mono (fun a b hmain => (isParent_iff w a b).mpr hmain) _ _ hreach
    obtain ⟨c, hc, hback⟩ := ((isCycle_parents_iff w loop).mpr hcycle).loopAbove hnode
    exact hloop ⟨c, hparents.trans hc, hback⟩

/-! ## Enough fuel for the depths -/

/-- With fuel for a call for each node that was not visited, and one more, more fuel does not change
the depths. -/
theorem setDepthRecursively_fuel {outgoing : String → INodeConnections} {fuel' : Nat}
    (hclosed : ∀ node, mainNodes (outgoing node) ⊆ names) (hnodup : visited.Nodup)
    (hnamed : nodeName :: visited ⊆ names) (hfuel : names.length < fuel + visited.length)
    (hfuel' : names.length < fuel' + visited.length) (current : Nat) (depth : Depths) :
    setDepthRecursively outgoing fuel nodeName current visited depth =
      setDepthRecursively outgoing fuel' nodeName current visited depth := by
  have hlength := (List.subperm_of_subset hnodup (List.subset_of_cons_subset hnamed)).length_le
  induction fuel generalizing fuel' nodeName visited current depth with
  | zero => omega
  | succ fuel ih =>
      obtain ⟨fuel', rfl⟩ : ∃ rest, fuel' = rest + 1 :=
        Nat.exists_eq_add_one_of_ne_zero (by omega)
      rw [setDepthRecursively, setDepthRecursively]
      split
      · rfl
      · rename_i hnew
        refine List.foldl_ext _ _ depth fun depth node hnode => ?_
        have hnamed' : node :: nodeName :: visited ⊆ names :=
          List.cons_subset.mpr ⟨hclosed nodeName hnode, hnamed⟩
        have hnodup' : (nodeName :: visited).Nodup := List.nodup_cons.mpr ⟨hnew, hnodup⟩
        exact ih hnodup' hnamed' (by rw [List.length_cons]; omega)
          (by rw [List.length_cons]; omega) _ _
          (List.subperm_of_subset hnodup' hnamed).length_le

theorem setDepthRecursively_enough (w : WorkflowGraph) (startNode : String) (depth : Depths)
    (more : Nat) :
    setDepthRecursively w.outgoingConnectionsByNodeName (w.searchDepth + more) startNode 1 []
        depth =
      setDepthRecursively w.outgoingConnectionsByNodeName w.searchDepth startNode 1 [] depth := by
  have hsubset : [startNode] ⊆ startNode :: connectedNodes w.connections :=
    List.cons_subset.mpr ⟨List.mem_cons_self .., List.nil_subset _⟩
  have hclosed : ∀ node, mainNodes (w.outgoingConnectionsByNodeName node) ⊆
      startNode :: connectedNodes w.connections :=
    fun node child hchild => List.mem_cons_of_mem _ (mem_connectedNodes hchild)
  have hlength : (startNode :: connectedNodes w.connections).length < w.searchDepth := by
    rw [WorkflowGraph.searchDepth, List.length_cons]
    omega
  have hmore : (startNode :: connectedNodes w.connections).length <
      w.searchDepth + more + ([] : List String).length :=
    Nat.lt_of_lt_of_le hlength (Nat.le_add_right _ more)
  exact setDepthRecursively_fuel hclosed List.nodup_nil hsubset hmore hlength 1 depth

/-! ## The nodes that are marked -/

variable {changes : List (String × CanvasNodeDirtiness)} {dirtiness : Dirtiness}

theorem setOnce_ne_none (h : dirtiness nodeName ≠ none) (other : String)
    (value : CanvasNodeDirtiness) : dirtiness.setOnce other value nodeName ≠ none := by
  unfold Dirtiness.setOnce
  rw [Function.update_apply]
  split
  · rename_i heq
    rw [← heq]
    cases hvalue : dirtiness nodeName with
    | none => exact absurd hvalue h
    | some old => exact Option.some_ne_none old
  · exact h

theorem setOnce_self (dirtiness : Dirtiness) (nodeName : String) (value : CanvasNodeDirtiness) :
    dirtiness.setOnce nodeName value nodeName ≠ none := by
  unfold Dirtiness.setOnce
  rw [Function.update_self]
  cases dirtiness nodeName with
  | none => exact Option.some_ne_none value
  | some old => exact Option.some_ne_none old

theorem markLoopEntry_cases (w : WorkflowGraph) (dirtiness : Dirtiness) (other : String) :
    w.markLoopEntry dirtiness other = dirtiness ∨
      ∃ loop entry, w.loopOf other = some loop ∧ entry ∈ loop ∧
        w.markLoopEntry dirtiness other = dirtiness.setOnce entry .upstreamDirty := by
  unfold WorkflowGraph.markLoopEntry
  split
  · exact .inl rfl
  · rename_i entry hentry
    split
    · obtain ⟨loop, hloop, hfirst⟩ := Option.bind_eq_some_iff.mp hentry
      have hmem := (List.mem_insertionSort _).mp (List.mem_of_mem_head? hfirst)
      exact .inr ⟨loop, entry, hloop, hmem, rfl⟩
    · exact .inl rfl

theorem markLoopEntry_ne_none (h : dirtiness nodeName ≠ none) (other : String) :
    w.markLoopEntry dirtiness other nodeName ≠ none := by
  rcases markLoopEntry_cases w dirtiness other with hsame | ⟨_, entry, _, _, hset⟩
  · rwa [hsame]
  · rw [hset]
    exact setOnce_ne_none h entry _

theorem setDirtiness_ne_none (h : dirtiness nodeName ≠ none)
    (change : String × CanvasNodeDirtiness) : w.setDirtiness dirtiness change nodeName ≠ none :=
  markLoopEntry_ne_none (setOnce_ne_none h _ _) _

theorem foldl_setDirtiness_ne_none (h : dirtiness nodeName ≠ none) :
    changes.foldl w.setDirtiness dirtiness nodeName ≠ none := by
  induction changes generalizing dirtiness with
  | nil => exact h
  | cons change changes ih => exact ih (setDirtiness_ne_none h change)

theorem mem_loopOf_of_marked {other : String} (h : dirtiness nodeName = none)
    (hmark : w.markLoopEntry dirtiness other nodeName ≠ none) :
    ∃ loop, w.loopOf other = some loop ∧ nodeName ∈ loop := by
  rcases markLoopEntry_cases w dirtiness other with hsame | ⟨loop, entry, hloop, hmem, hset⟩
  · rw [hsame] at hmark
    exact absurd h hmark
  · refine ⟨loop, hloop, ?_⟩
    rw [hset, Dirtiness.setOnce, Function.update_apply] at hmark
    split at hmark
    · rename_i heq
      rwa [heq]
    · exact absurd h hmark

/-- When the loops are those of the nodes, the nodes that are marked are on a loop with the node
that has changed. -/
theorem dirtyTogether_of_loopsExact (hexact : w.LoopsExact) (partialExecutionVersion : Nat)
    (changes : List (String × CanvasNodeDirtiness)) :
    w.DirtyTogether partialExecutionVersion changes := by
  rintro hversion nodeName ⟨before, change, after, rfl, hclean, hmarked⟩
  obtain ⟨loop, hloop, hmem⟩ := mem_loopOf_of_marked hclean hmarked
  obtain ⟨result, hresult, hright⟩ := hexact change.1
  rw [WorkflowGraph.loopOf, hresult, Option.getD_some] at hloop
  rw [hloop] at hright
  have hchange := setOnce_self (before.foldl w.setDirtiness fun _ => none) change.1 change.2
  refine ⟨change.1, ?_, ?_, loop, hright.1, hmem, hright.2⟩
  · intro heq
    rw [← heq] at hclean
    exact hchange hclean
  · rw [WorkflowGraph.dirtinessByName, if_neg hversion, List.foldl_append, List.foldl_cons]
    exact foldl_setDirtiness_ne_none (markLoopEntry_ne_none hchange _)

/-- The loops that are found are those of the nodes, and nodes in loops become dirty together,
exactly when every node with a loop above it is come back to. -/
theorem loops_exact_iff (w : WorkflowGraph) (partialExecutionVersion : Nat)
    (changes : List (String × CanvasNodeDirtiness)) :
    (w.LoopsExact ∧ w.DirtyTogether partialExecutionVersion changes) ↔ w.LoopsComeBack := by
  have hexact : w.LoopsExact ↔ w.LoopsComeBack := forall_congr' (exists_loopOf_iff w)
  rw [← hexact]
  exact and_iff_left_of_imp fun h => dirtyTogether_of_loopsExact h partialExecutionVersion changes

/-- The main connections from a node to other nodes. -/
def connectTo (connections : IConnections) (source : String) (targets : List String) :
    IConnections :=
  connections.set source (InsertionMap.empty.set .main
    [some (targets.map fun target => ⟨target, .main, 0⟩)])

/-- A trigger, a loop of two nodes, and a node behind the loop. -/
def loopBefore : WorkflowGraph :=
  { allNodes := ["trigger", "a", "b", "after"]
    connections := connectTo (connectTo (connectTo .empty "trigger" ["a"]) "a" ["b"]) "b"
      ["a", "after"] }

/-- For the node behind the loop the loop is found, and a change of this node marks the first node
of the loop. -/
theorem loop_before_found :
    loopBefore.loopOf "after" = some ["b", "a"] ∧
      loopBefore.dirtinessByName 2 [("after", .parametersUpdated)] "a" = some .upstreamDirty ∧
      ¬ (loopBefore.LoopsExact ∧
        loopBefore.DirtyTogether 2 [("after", .parametersUpdated)]) := by
  have hfound : findLoop loopBefore.incomingConnectionsByNodeName loopBefore.searchDepth "after"
      [] = some (some ["b", "a"]) := by decide +kernel
  have hloop : loopBefore.loopOf "after" = some ["b", "a"] := by
    rw [WorkflowGraph.loopOf, hfound]
    rfl
  refine ⟨hloop, by decide +kernel, fun h => ?_⟩
  obtain ⟨result, hresult, hexact⟩ := h.1 "after"
  rw [hfound] at hresult
  cases hresult
  exact absurd hexact.2 (by decide)

end N8n.NodeDirtiness
