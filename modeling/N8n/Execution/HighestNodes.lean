import N8n.Execution.InputData
import N8n.Graph.SharedVisits
import N8n.Workflow.Connections

/-!
# The highest nodes

What `getHighestNode` of `packages/workflow/src/workflow.ts` returns for a workflow whose main
connections are acyclic. The list of checked nodes is shared by all branches of the search, and a
branch that comes to a checked node looks as if there were nothing above it: the result has all
enabled roots above the node, and further enabled nodes when the branches above them were checked
before (`highest_nodes_exact_iff`).
-/

namespace N8n.HighestNodes

open Collections Execution Graph Relation

/-- `workflow.getHighestNode(nodeName, nodeConnectionIndex)`. -/
def highestNodesAt (w : Workflow) (nodeName : String) (nodeConnectionIndex : Option Nat) :
    Except ExecutionError (List String) := do
  let (names, _) ← getHighestNode w (w.connectionsByDestinationNode.entries.length + 1) nodeName
    nodeConnectionIndex []
  return names

/-! ## Ancestors -/

/-- `connectionsByDestinationNode[nodeName].main`, if there is one. -/
def mainInputs? (w : Workflow) (nodeName : String) : Option NodeInputConnections :=
  (w.connectionsByDestinationNode.get? nodeName).bind (·.get? .main)

/-- A node of the workflow has a connection into a main input of the other, into the given one
if there is one. -/
def MainParent (w : Workflow) (nodeConnectionIndex : Option Nat) (a b : String) : Prop :=
  w.nodes.has a = true ∧ ∃ type outputIndex inputIndex,
    (∀ i ∈ nodeConnectionIndex, inputIndex = i) ∧
      w.connectionsBySourceNode.Has a type outputIndex ⟨b, .main, inputIndex⟩

/-- The main connections between the nodes form no cycle. -/
def Acyclic (w : Workflow) : Prop := ∀ v, ¬ TransGen (MainParent w none) v v

/-- A node before the given one, through the given input if there is one. -/
def Ancestor (w : Workflow) (nodeConnectionIndex : Option Nat) (a b : String) : Prop :=
  ∃ p, MainParent w nodeConnectionIndex p b ∧ ReflTransGen (MainParent w none) a p

/-- A node of the workflow that is not disabled. -/
def Enabled (w : Workflow) (name : String) : Prop :=
  ∃ node, w.nodes.get? name = some node ∧ node.disabled ≠ some true

/-- An enabled ancestor that has no enabled ancestor itself. -/
def Root (w : Workflow) (nodeConnectionIndex : Option Nat) (a b : String) : Prop :=
  Ancestor w nodeConnectionIndex a b ∧ Enabled w a ∧
    ∀ z, Ancestor w none z a → ¬ Enabled w z

/-- The nodes of the workflow that the connections lead from, in their order. -/
def existing (w : Workflow) (connections : List IConnection) : List String :=
  (connections.map (·.node)).filter (w.nodes.has ·)

/-- The parents of a node in the order in which the search follows them. -/
def parentsAt (w : Workflow) (nodeConnectionIndex : Option Nat) (nodeName : String) :
    List String :=
  match mainInputs? w nodeName with
  | none => []
  | some inputs => existing w (connectionsAt inputs nodeConnectionIndex)

/-- The nodes that are checked: those with main inputs. -/
def Checked (w : Workflow) (nodeName : String) : Prop := (mainInputs? w nodeName).isSome

variable {inputs : NodeInputConnections} {nodeConnectionIndex : Option Nat}

theorem mem_connectionsAt_iff {connection : IConnection} :
    connection ∈ connectionsAt inputs nodeConnectionIndex ↔
      ∃ inputIndex, (∀ i ∈ nodeConnectionIndex, inputIndex = i) ∧
        NodeInputConnections.Has inputs inputIndex connection := by
  cases nodeConnectionIndex with
  | none =>
    simp only [connectionsAt, List.mem_flatMap, NodeInputConnections.Has]
    constructor
    · rintro ⟨conns?, hmem, hconnection⟩
      cases conns? with
      | none => cases hconnection
      | some conns =>
        obtain ⟨i, hi⟩ := List.mem_iff_getElem?.mp hmem
        exact ⟨i, by simp, conns, hi, hconnection⟩
    · rintro ⟨i, -, conns, hi, hconnection⟩
      exact ⟨some conns, List.mem_of_getElem? hi, hconnection⟩
  | some i =>
    simp only [connectionsAt, inputConnections, NodeInputConnections.Has, Option.mem_some_iff,
      forall_eq', exists_eq_left]
    cases h : inputs[i]? with
    | none => simp
    | some conns? => cases conns? <;> simp

variable {w : Workflow} {a b : String}

theorem mem_parentsAt_iff :
    a ∈ parentsAt w nodeConnectionIndex b ↔ MainParent w nodeConnectionIndex a b := by
  have harrival : ∀ (connection : IConnection) (inputIndex : Nat),
      w.connectionsByDestinationNode.Has b .main inputIndex connection ↔
        w.connectionsBySourceNode.Has connection.node connection.type connection.index
          ⟨b, .main, inputIndex⟩ := fun connection inputIndex =>
    has_map_connections_by_destination w.connectionsBySourceNode ⟨b, .main, inputIndex, connection⟩
  constructor
  · intro ha
    rw [parentsAt] at ha
    cases hinputs : mainInputs? w b with
    | none => simp [hinputs] at ha
    | some inputs =>
      rw [hinputs] at ha
      obtain ⟨hnode, hexists⟩ := List.mem_filter.mp ha
      obtain ⟨connection, hconnection, rfl⟩ := List.mem_map.mp hnode
      obtain ⟨inputIndex, hindex, conns, hi, hmem⟩ := mem_connectionsAt_iff.mp hconnection
      obtain ⟨ofNode, hofNode, hmain⟩ := Option.bind_eq_some_iff.mp hinputs
      refine ⟨hexists, connection.type, connection.index, inputIndex, hindex, ?_⟩
      exact (harrival connection inputIndex).mp ⟨ofNode, inputs, conns, hofNode, hmain, hi, hmem⟩
  · rintro ⟨hexists, type, outputIndex, inputIndex, hindex, hhas⟩
    obtain ⟨ofNode, inputs, conns, hofNode, hmain, hi, hmem⟩ :=
      (harrival ⟨a, type, outputIndex⟩ inputIndex).mpr hhas
    have hinputs : mainInputs? w b = some inputs :=
      Option.bind_eq_some_iff.mpr ⟨ofNode, hofNode, hmain⟩
    rw [parentsAt, hinputs]
    refine List.mem_filter.mpr ⟨List.mem_map.mpr ⟨⟨a, type, outputIndex⟩, ?_, rfl⟩, hexists⟩
    exact mem_connectionsAt_iff.mpr ⟨inputIndex, hindex, conns, hi, hmem⟩

/-! ## What the search finds -/

/-- The parents that the search follows from a node that it has come to. -/
abbrev parents (w : Workflow) : String → List String := parentsAt w none

/-- The names of a list. -/
def namesOf (l : List String) : Set String := {u | u ∈ l}

theorem namesOf_snoc (l : List String) (v : String) :
    namesOf (l ++ [v]) = insert v (namesOf l) := by
  ext u
  simp [namesOf, Set.mem_insert_iff, or_comm]

theorem mem_addNames_iff {returnNodes addNodes : List String} {y : String} :
    y ∈ addNames returnNodes addNodes ↔ y ∈ returnNodes ∨ y ∈ addNodes := by
  induction addNodes generalizing returnNodes with
  | nil => simp [addNames]
  | cons name rest ih =>
    rw [addNames, List.foldl_cons, ← addNames, ih]
    split
    · rename_i hmem
      by_cases hy : y = name <;> simp [hy, hmem]
    · simp [or_assoc]

theorem nodup_addNames {returnNodes : List String} (h : returnNodes.Nodup)
    (addNodes : List String) : (addNames returnNodes addNodes).Nodup := by
  induction addNodes generalizing returnNodes with
  | nil => exact h
  | cons name rest ih =>
    rw [addNames, List.foldl_cons, ← addNames]
    refine ih ?_
    split
    · exact h
    · rename_i hmem
      simpa [List.nodup_append, h] using fun a ha (heq : a = name) => hmem (heq ▸ ha)

/-- What a call at `v` returns, which was not checked before. -/
structure CallResult (w : Workflow) (v : String) (checkedNodes : List String)
    (result : List String × List String) : Prop where
  more : MoreChecked w checkedNodes.length result
  nodup : result.1.Nodup
  visited : namesOf result.2 = namesOf checkedNodes ∪ Below (parents w) (Checked w) [v]
  found : ∀ y, y ∈ result.1 ∨ result.1 = [] ∧ y = v ∧ Enabled w v ↔
    LastFrom (parents w) (Checked w) (Enabled w) (v, namesOf checkedNodes) y

/-- What the loop over connections from the nodes `l` makes of the nodes found so far. -/
structure LoopResult (w : Workflow) (l : List String) (start result : List String × List String) :
    Prop where
  more : MoreChecked w start.2.length result
  nodup : result.1.Nodup
  visited : namesOf result.2 = namesOf start.2 ∪ Below (parents w) (Checked w) l
  found : ∀ y, y ∈ result.1 ↔ y ∈ start.1 ∨
    LastOf (parents w) (Checked w) (Enabled w) l (namesOf start.2) y

/-- The state of the loop: checked nodes are closed below the nodes that are still to follow. -/
structure LoopState (w : Workflow) (n : Nat) (l : List String)
    (found : List String × List String) : Prop where
  more : MoreChecked w n found
  nodup : found.1.Nodup
  closed : ClosedBelow (parents w) (Checked w) (namesOf found.2) l

/-- Calls that start with at least `n` checked nodes return what they should. -/
def Calling (w : Workflow) (n : Nat)
    (highest : String → List String → Except ExecutionError (List String × List String)) : Prop :=
  ∀ v checkedNodes, w.nodes.has v = true → v ∉ checkedNodes → MoreChecked w n ([], checkedNodes) →
    ClosedBelow (parents w) (Checked w) (namesOf checkedNodes) [v] →
    ∃ result, highest v checkedNodes = .ok result ∧ CallResult w v checkedNodes result

variable {v : String}

theorem disabledOf_eq (h : w.nodes.has v = true) :
    ∃ node, w.nodes.get? v = some node ∧ disabledOf w v = .ok node.disabled := by
  obtain ⟨node, hnode⟩ := Option.isSome_iff_exists.mp h
  exact ⟨node, hnode, by rw [disabledOf, hnode]⟩

variable {node : INode}

theorem enabled_iff (h : w.nodes.get? v = some node) : Enabled w v ↔ node.disabled ≠ some true := by
  simp [Enabled, h]

variable {n : Nat}

theorem follow_connection_spec
    {highest : String → List String → Except ExecutionError (List String × List String)}
    (hcalling : Calling w n highest) {found : List String × List String} {connection : IConnection}
    {l : List String} (hexists : w.nodes.has connection.node = true)
    (hstate : LoopState w n (connection.node :: l) found) :
    ∃ found', followConnection w highest found connection = .ok found' ∧
      MoreChecked w found.2.length found' ∧ found'.1.Nodup ∧
      namesOf found'.2 = namesOf found.2 ∪ Below (parents w) (Checked w) [connection.node] ∧
      ∀ y, y ∈ found'.1 ↔ y ∈ found.1 ∨ connection.node ∉ found.2 ∧
        LastFrom (parents w) (Checked w) (Enabled w) (connection.node, namesOf found.2) y := by
  rw [followConnection]
  by_cases hchecked : connection.node ∈ found.2
  · -- nothing is new below a checked node
    have hbelow := below_subset hstate.closed hchecked
    refine ⟨found, by rw [if_pos (.inl hchecked)], ⟨hstate.more.1, Nat.le_refl _⟩, hstate.nodup, ?_,
      by simp [hchecked]⟩
    exact (Set.union_eq_left.mpr hbelow).symm
  · have hclosed : ClosedBelow (parents w) (Checked w) (namesOf found.2) [connection.node] := by
      rintro u hu ⟨x, hx, hwalk⟩
      exact hstate.closed u hu
        ⟨x, List.mem_cons.mpr (.inl (List.mem_singleton.mp hx)), hwalk⟩
    obtain ⟨⟨addNodes, checkedNodes⟩, hhighest, hresult⟩ :=
      hcalling connection.node found.2 hexists hchecked hstate.more hclosed
    rw [if_neg (by simp [hchecked, hexists]), hhighest]
    obtain ⟨node, hnode, hdisabled⟩ := disabledOf_eq hexists
    have hfound := hresult.found
    dsimp only at hfound
    by_cases hempty : addNodes = []
    · -- the node itself is the highest one, unless it is disabled
      refine ⟨(addNames found.1 (if node.disabled ≠ some true then [connection.node] else []),
        checkedNodes), ?_, hresult.more, nodup_addNames hstate.nodup _, hresult.visited,
        fun y => ?_⟩
      · simp only [bind, Except.bind, hempty, hdisabled, if_true]
        rfl
      · rw [mem_addNames_iff, ← hfound y, enabled_iff hnode]
        by_cases hnot : node.disabled = some true <;> simp [hnot, hempty, hchecked]
    · refine ⟨(addNames found.1 addNodes, checkedNodes), ?_, hresult.more,
        nodup_addNames hstate.nodup _, hresult.visited, fun y => ?_⟩
      · simp only [bind, Except.bind, hempty, if_false]
        rfl
      · rw [mem_addNames_iff, ← hfound y]
        simp [hempty, hchecked]

theorem follow_connections_spec
    {highest : String → List String → Except ExecutionError (List String × List String)}
    (hcalling : Calling w n highest) {connections : List IConnection}
    {found : List String × List String} (hstate : LoopState w n (existing w connections) found) :
    ∃ result, connections.foldlM (followConnection w highest) found = .ok result ∧
      LoopResult w (existing w connections) found result := by
  induction connections generalizing found with
  | nil =>
    refine ⟨found, rfl, ⟨hstate.more.1, Nat.le_refl _⟩, hstate.nodup, ?_, fun y => ?_⟩
    · rw [existing, List.map_nil, List.filter_nil, below_nil, Set.union_empty]
    · exact ⟨.inl, fun h => h.resolve_right lastOf_nil⟩
  | cons connection connections ih =>
    rw [List.foldlM_cons]
    cases hexists : w.nodes.has connection.node with
    | false =>
      have hskip : existing w (connection :: connections) = existing w connections := by
        simp [existing, hexists]
      rw [hskip] at hstate ⊢
      rw [followConnection, if_pos (.inr hexists)]
      exact ih hstate
    | true =>
      have hfollow : existing w (connection :: connections) =
          connection.node :: existing w connections := by
        simp [existing, hexists]
      rw [hfollow] at hstate ⊢
      obtain ⟨found', hround, hmore, hnodup, hvisited, hfound⟩ :=
        follow_connection_spec hcalling hexists hstate
      have hstate' : LoopState w n (existing w connections) found' := by
        refine ⟨⟨hmore.1, Nat.le_trans hstate.more.2 hmore.2⟩, hnodup, ?_⟩
        rw [hvisited]
        exact closed_tail hstate.closed
      obtain ⟨result, hrest, hresult⟩ := ih hstate'
      refine ⟨result, by rw [hround]; exact hrest,
        ⟨hresult.more.1, Nat.le_trans hmore.2 hresult.more.2⟩, hresult.nodup, ?_, fun y => ?_⟩
      · rw [hresult.visited, hvisited, Set.union_assoc, ← below_cons]
      · rw [hresult.found, hfound, lastOf_cons_iff, hvisited, or_assoc]
        rfl

theorem parents_leaf (h : ¬ Checked w v) : parents w v = [] := by
  rw [parents, parentsAt, Option.not_isSome_iff_eq_none.mp h]

/-- The search follows what can be reached: it ends when the main connections form no cycle. -/
theorem wellFounded_parents (h : Acyclic w) :
    WellFounded fun b a : String => Leads (parents w) a b := by
  have hkeys : ∀ v, parents w v ≠ [] → v ∈ w.connectionsByDestinationNode.keys := by
    intro v hv
    by_contra hkey
    refine hv (parents_leaf fun hinputs => hkey ?_)
    obtain ⟨inputs, hinputs⟩ := Option.isSome_iff_exists.mp hinputs
    obtain ⟨ofNode, hofNode, -⟩ := Option.bind_eq_some_iff.mp hinputs
    exact InsertionMap.mem_keys_iff.mpr ⟨ofNode, hofNode⟩
  refine wellFounded_of_acyclic hkeys fun v hcycle => ?_
  refine h v (transGen_swap.mp (hcycle.lift id fun a b hab => ?_))
  exact mem_parentsAt_iff.mp hab

theorem check_node_spec {fuel : Nat}
    (hcalling : ∀ n, w.connectionsByDestinationNode.entries.length < fuel + n →
      Calling w n fun name => getHighestNode w fuel name none) {checkedNodes : List String}
    (hnode : w.nodes.get? v = some node) (hinputs : mainInputs? w v = some inputs)
    (hfresh : v ∉ checkedNodes) (hchecked : CheckedNames w checkedNodes)
    (hfuel : w.connectionsByDestinationNode.entries.length < fuel + 1 + checkedNodes.length)
    (hclosed : ClosedBelow (parents w) (Checked w) (namesOf (checkedNodes ++ [v]))
      (parentsAt w nodeConnectionIndex v)) :
    ∃ result, getHighestNode w (fuel + 1) v nodeConnectionIndex checkedNodes = .ok result ∧
      LoopResult w (parentsAt w nodeConnectionIndex v) ([], checkedNodes ++ [v]) result := by
  have hkey : v ∈ w.connectionsByDestinationNode.keys := by
    obtain ⟨ofNode, hofNode, -⟩ := Option.bind_eq_some_iff.mp hinputs
    exact InsertionMap.mem_keys_iff.mpr ⟨ofNode, hofNode⟩
  have hlength : (checkedNodes ++ [v]).length = checkedNodes.length + 1 := by simp
  have hchecked' : CheckedNames w (checkedNodes ++ [v]) := by
    refine ⟨List.nodup_append.mpr ⟨hchecked.1, List.nodup_singleton _, ?_⟩, ?_⟩
    · intro a ha b hb hab
      rw [List.mem_singleton.mp hb] at hab
      exact hfresh (hab ▸ ha)
    · exact List.append_subset.mpr ⟨hchecked.2, List.cons_subset.mpr ⟨hkey, List.nil_subset _⟩⟩
  have hparents : parentsAt w nodeConnectionIndex v =
      existing w (connectionsAt inputs nodeConnectionIndex) := by
    rw [parentsAt, hinputs]
  rw [hparents] at hclosed ⊢
  have hstate : LoopState w (checkedNodes.length + 1)
      (existing w (connectionsAt inputs nodeConnectionIndex)) ([], checkedNodes ++ [v]) :=
    ⟨⟨hchecked', Nat.le_of_eq hlength.symm⟩, List.nodup_nil, hclosed⟩
  obtain ⟨result, hloop, hresult⟩ := follow_connections_spec
    (hcalling (checkedNodes.length + 1) (by omega)) hstate
  refine ⟨result, ?_, hresult⟩
  rw [getHighestNode, disabledOf, hnode]
  change (w.connectionsByDestinationNode.get? v).bind (·.get? .main) = some inputs at hinputs
  simp only [bind, Except.bind, hinputs, hfresh, if_false]
  exact hloop

theorem get_highest_node_spec (hwf : WellFounded fun b a => Leads (parents w) a b) {fuel : Nat}
    (hfuel : w.connectionsByDestinationNode.entries.length < fuel + n) :
    Calling w n fun name => getHighestNode w fuel name none := by
  induction fuel generalizing n with
  | zero =>
    intro v checkedNodes _ _ hmore _
    have hle := hmore.1.1.length_le_of_subset hmore.1.2
    have hn := hmore.2
    rw [InsertionMap.keys, List.length_map] at hle
    dsimp only at hle hn
    omega
  | succ fuel ih =>
    intro v checkedNodes hexists hfresh hmore hclosed
    obtain ⟨node, hnode, hdisabled⟩ := disabledOf_eq hexists
    have hn := hmore.2
    dsimp only at hn ⊢
    cases hinputs : mainInputs? w v with
    | none =>
      have hleaf : ¬ Checked w v := by simp [Checked, hinputs]
      refine ⟨(if node.disabled = some false then [v] else [], checkedNodes), ?_,
        ⟨hmore.1, Nat.le_refl _⟩, ?_, ?_, fun y => ?_⟩
      · rw [getHighestNode, hdisabled]
        change (w.connectionsByDestinationNode.get? v).bind (·.get? .main) = none at hinputs
        simp only [bind, Except.bind, hinputs]
      · dsimp only
        split <;> simp
      · rw [below_leaf hleaf (parents_leaf hleaf), Set.union_empty]
      · have hnone : ∀ z, ¬ LastOf (parents w) (Checked w) (Enabled w) (parents w v)
            (insert v (namesOf checkedNodes)) z := fun z => by
          rw [parents_leaf hleaf]
          exact lastOf_nil
        rw [lastFrom_iff hwf]
        simp only [hnone, false_or, not_false_eq_true, implies_true, and_true]
        by_cases hy : y = v
        · subst hy
          rw [enabled_iff hnode]
          rcases node.disabled with _ | _ | _ <;> simp
        · split <;> simp [hy]
    | some inputs =>
      have hinner : Checked w v := by simp [Checked, hinputs]
      have hclosed' := closed_next hwf hclosed
      rw [← namesOf_snoc] at hclosed'
      obtain ⟨result, hcall, hresult⟩ :=
        check_node_spec (fun n => ih) hnode hinputs hfresh hmore.1 (by omega) hclosed'
      refine ⟨result, hcall, ⟨hresult.more.1, ?_⟩, hresult.nodup, ?_, fun y => ?_⟩
      · have hle := hresult.more.2
        rw [List.length_append] at hle
        omega
      · rw [hresult.visited, below_inner hinner, namesOf_snoc, Set.insert_union,
          Set.union_insert]
      · have hfound := hresult.found
        simp only [List.not_mem_nil, false_or, namesOf_snoc] at hfound
        rw [lastFrom_iff hwf, List.eq_nil_iff_forall_not_mem]
        simp only [hfound]
        refine or_congr_right ⟨?_, ?_⟩
        · rintro ⟨hnone, hy, henabled⟩
          exact ⟨hy, hy ▸ henabled, hnone⟩
        · rintro ⟨hy, henabled, hnone⟩
          exact ⟨hnone, hy, hy ▸ henabled⟩

/-! ## The roots above a node -/

theorem walk_iff_ancestors :
    ReflTransGen (Leads (parents w)) b a ↔ ReflTransGen (MainParent w none) a b := by
  rw [← reflTransGen_swap]
  refine ⟨fun h => h.lift id fun a b hab => ?_, fun h => h.lift id fun a b hab => ?_⟩
  · exact mem_parentsAt_iff.mp hab
  · exact mem_parentsAt_iff.mpr hab

theorem ancestor_iff :
    Ancestor w nodeConnectionIndex a b ↔
      ∃ p ∈ parentsAt w nodeConnectionIndex b, ReflTransGen (Leads (parents w)) p a := by
  simp only [Ancestor, mem_parentsAt_iff, walk_iff_ancestors]

theorem ancestor_iff_trans : Ancestor w none a b ↔ TransGen (Leads (parents w)) b a := by
  rw [ancestor_iff, TransGen.head'_iff]
  rfl

theorem root_iff :
    Root w nodeConnectionIndex a b ↔
      Topmost (parents w) (Enabled w) (parentsAt w nodeConnectionIndex b) a := by
  simp only [Root, Topmost, ancestor_iff (b := b), ancestor_iff_trans]

/-- Wherever the search from the node enters an enabled node with an enabled ancestor, it can go on
from there to an enabled ancestor over nodes that it has not checked before. -/
def NoneCovered (w : Workflow) (nodeConnectionIndex : Option Nat) (nodeName : String) : Prop :=
  NoneCutOff (parents w) (Checked w) (Enabled w) (parentsAt w nodeConnectionIndex nodeName)
    {nodeName}

theorem fresh_above (h : Acyclic w) (nodeName : String) (nodeConnectionIndex : Option Nat) :
    Fresh (parents w) (parentsAt w nodeConnectionIndex nodeName) {nodeName} := by
  rintro x hx u hwalk rfl
  obtain ⟨hexists, type, outputIndex, inputIndex, -, hhas⟩ := mem_parentsAt_iff.mp hx
  have hparent : MainParent w none x u := ⟨hexists, type, outputIndex, inputIndex, by simp, hhas⟩
  exact h u (.tail' (walk_iff_ancestors.mp hwalk) hparent)

theorem highest_of_no_inputs {nodeName : String} (hnode : w.nodes.get? nodeName = some node)
    (hinputs : mainInputs? w nodeName = none) (nodeConnectionIndex : Option Nat) :
    highestNodesAt w nodeName nodeConnectionIndex =
      .ok (if node.disabled = some false then [nodeName] else []) := by
  change (w.connectionsByDestinationNode.get? nodeName).bind (·.get? .main) = none at hinputs
  rw [highestNodesAt, getHighestNode, disabledOf, hnode]
  simp only [bind, Except.bind, hinputs]
  rfl

theorem highest_of_inputs (h : Acyclic w) {nodeName : String}
    (hnode : w.nodes.get? nodeName = some node) (hinputs : mainInputs? w nodeName = some inputs)
    (nodeConnectionIndex : Option Nat) :
    ∃ result, highestNodesAt w nodeName nodeConnectionIndex = .ok result ∧ result.Nodup ∧
      ∀ y, y ∈ result ↔ LastOf (parents w) (Checked w) (Enabled w)
        (parentsAt w nodeConnectionIndex nodeName) {nodeName} y := by
  have hnames : namesOf ([] ++ [nodeName]) = {nodeName} := by
    ext u
    simp [namesOf]
  have hclosed : ClosedBelow (parents w) (Checked w) {nodeName}
      (parentsAt w nodeConnectionIndex nodeName) :=
    (fresh_above h nodeName nodeConnectionIndex).closed
  rw [← hnames] at hclosed
  have hcalling : ∀ n, w.connectionsByDestinationNode.entries.length <
      w.connectionsByDestinationNode.entries.length + n → Calling w n fun name =>
        getHighestNode w w.connectionsByDestinationNode.entries.length name none :=
    fun n => get_highest_node_spec (wellFounded_parents h)
  obtain ⟨⟨names, checkedNodes⟩, hcall, hresult⟩ := check_node_spec hcalling hnode hinputs
    List.not_mem_nil ⟨List.nodup_nil, List.nil_subset _⟩ (by simp) hclosed
  refine ⟨names, ?_, hresult.nodup, fun y => ?_⟩
  · rw [highestNodesAt, hcall]
    rfl
  · have hfound := hresult.found y
    rw [hnames] at hfound
    simpa using hfound

/-- In a workflow whose main connections are acyclic, `getHighestNode` returns a node without main
inputs itself when it is explicitly enabled. Otherwise it returns enabled ancestors, once each,
among them all roots; it returns none exactly when there is no enabled ancestor, and the roots only
exactly when no enabled node is covered by earlier branches. -/
theorem highest_nodes_are_roots {w : Workflow} (h : Acyclic w) {nodeName : String} {node : INode}
    (hnode : w.nodes.get? nodeName = some node) (nodeConnectionIndex : Option Nat) :
    ∃ result, highestNodesAt w nodeName nodeConnectionIndex = .ok result ∧ result.Nodup ∧
      (mainInputs? w nodeName = none →
        result = if node.disabled = some false then [nodeName] else []) ∧
      (mainInputs? w nodeName ≠ none →
        (∀ y ∈ result, Ancestor w nodeConnectionIndex y nodeName ∧ Enabled w y) ∧
        (∀ y, Root w nodeConnectionIndex y nodeName → y ∈ result) ∧
        (result = [] ↔ ¬ ∃ y, Ancestor w nodeConnectionIndex y nodeName ∧ Enabled w y) ∧
        ((∀ y, y ∈ result ↔ Root w nodeConnectionIndex y nodeName) ↔
          NoneCovered w nodeConnectionIndex nodeName)) := by
  cases hinputs : mainInputs? w nodeName with
  | none =>
    refine ⟨_, highest_of_no_inputs hnode hinputs nodeConnectionIndex, ?_, fun _ => rfl,
      fun hsome => absurd rfl hsome⟩
    split <;> simp
  | some inputs =>
    have hwf := wellFounded_parents h
    have hfresh := fresh_above h nodeName nodeConnectionIndex
    obtain ⟨result, hcall, hnodup, hresult⟩ :=
      highest_of_inputs h hnode hinputs nodeConnectionIndex
    have hroots : ∀ y, Root w nodeConnectionIndex y nodeName → y ∈ result := fun y hy =>
      (hresult y).mpr (hfresh.lastOf_topmost hwf (root_iff.mp hy))
    have henabled : ∀ y ∈ result, Ancestor w nodeConnectionIndex y nodeName ∧ Enabled w y := by
      intro y hy
      rw [ancestor_iff]
      exact hfresh.enabled hwf ((hresult y).mp hy)
    refine ⟨result, hcall, hnodup, nofun, fun _ => ⟨henabled, hroots, ?_, ?_⟩⟩
    · constructor
      · rintro rfl ⟨y, hy, hyenabled⟩
        obtain ⟨z, hz⟩ := exists_topmost hwf (ancestor_iff.mp hy) hyenabled
        exact absurd (hroots z (root_iff.mpr hz)) List.not_mem_nil
      · exact fun hnone => List.eq_nil_iff_forall_not_mem.mpr fun y hy =>
          hnone ⟨y, henabled y hy⟩
    · simp only [hresult, root_iff]
      exact last_iff_topmost hwf hfresh

-- the branch over `b` comes to `m`, which the branch over `a` has checked
example :
    highestNodesAt (.create (["n", "a", "b", "m", "r"].map fun name => { name })
      (.set (.set (.set (.set .empty "r" (.set .empty .main [some [⟨"m", .main, 0⟩]]))
        "m" (.set .empty .main [some [⟨"a", .main, 0⟩, ⟨"b", .main, 0⟩]]))
        "a" (.set .empty .main [some [⟨"n", .main, 0⟩]]))
        "b" (.set .empty .main [some [⟨"n", .main, 0⟩]])) none) "n" none = .ok ["r", "b"] := by
  decide +kernel

/-- A workflow of explicitly enabled nodes in which one leads to another. -/
def leadingTo (source target : String) : Workflow :=
  .create [{ name := source, disabled := some false }, { name := target, disabled := some false }]
    (.set .empty source (.set .empty .main [some [⟨target, .main, 0⟩]])) none

theorem main_parent_leadingTo {source target : String}
    (h : MainParent (leadingTo source target) none a b) : a = source ∧ b = target := by
  obtain ⟨-, type, outputIndex, inputIndex, -, iConnection, outputs, conns, hsource, htype, hconns,
    hmem⟩ := h
  rw [leadingTo, Workflow.create, InsertionMap.get_set] at hsource
  split at hsource
  · rename_i hname
    cases hsource
    rw [InsertionMap.get_set] at htype
    split at htype
    · cases htype
      have hconns : conns = [⟨target, .main, 0⟩] := by
        cases outputIndex with
        | zero => simpa using hconns.symm
        | succ outputIndex => simp at hconns
      rw [hconns] at hmem
      exact ⟨hname, congrArg IConnection.node (List.mem_singleton.mp hmem)⟩
    · simp at htype
  · simp at hsource

theorem acyclic_leadingTo {source target : String} (hne : source ≠ target) :
    Acyclic (leadingTo source target) := by
  intro v hcycle
  obtain ⟨x, hhead, -⟩ := TransGen.head'_iff.mp hcycle
  obtain ⟨y, -, htail⟩ := TransGen.tail'_iff.mp hcycle
  exact hne ((main_parent_leadingTo hhead).1.symm.trans (main_parent_leadingTo htail).2)

/-- The roots above the second of two nodes are found. -/
theorem highest_of_leading_to :
    Acyclic (leadingTo "a" "b") ∧ ∃ result,
      highestNodesAt (leadingTo "a" "b") "b" none = .ok result ∧ result.Nodup ∧
        ∀ y, Root (leadingTo "a" "b") none y "b" → y ∈ result := by
  have hacyclic : Acyclic (leadingTo "a" "b") := acyclic_leadingTo (by decide)
  have hnode : (leadingTo "a" "b").nodes.get? "b" =
      some { name := "b", disabled := some false } := by decide +kernel
  obtain ⟨result, hcall, hnodup, -, hinputs⟩ := highest_nodes_are_roots hacyclic hnode none
  exact ⟨hacyclic, result, hcall, hnodup, (hinputs (by decide +kernel)).2.1⟩

/-- The first of two nodes is returned as the highest one, though no node is before it. -/
theorem first_node_is_highest :
    Acyclic (leadingTo "a" "b") ∧ highestNodesAt (leadingTo "a" "b") "a" none = .ok ["a"] ∧
      ¬ ∃ y, Ancestor (leadingTo "a" "b") none y "a" := by
  refine ⟨acyclic_leadingTo (by decide), by decide +kernel, ?_⟩
  rintro ⟨y, p, hparent, -⟩
  exact absurd (main_parent_leadingTo hparent).2 (by decide)

end N8n.HighestNodes
