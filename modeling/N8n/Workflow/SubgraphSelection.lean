import N8n.Graph.StackSearch
import N8n.Workflow.Types

/-!
# Selections for a sub-workflow

`parseExtractableSubgraphSelection` of `packages/workflow/src/graph/graph-utils.ts` decides
whether the selected nodes can become a workflow of their own: main connections may enter them at
one node and leave them from one node. `extractable_iff` says which selections it accepts.
-/

namespace N8n.SubgraphSelection

open Collections Graph Relation

/-- `IConnectionAdjacencyList`. The objects of a `Set` are told apart by their place. -/
abbrev IConnectionAdjacencyList := InsertionMap String (List IConnection)

/-- `ExtractableErrorResult`. -/
inductive ExtractableErrorResult where
  | multipleInputNodes (nodes : OrderedSet String)
  | multipleOutputNodes (nodes : OrderedSet String)
  | inputEdgeToNonRootNode (node : String)
  | outputEdgeFromNonLeafNode (node : String)
  | noContinuousPath (start stop : String)
  deriving DecidableEq

/-- `errorCode`. -/
def ExtractableErrorResult.errorCode : ExtractableErrorResult → String
  | multipleInputNodes _ => "Multiple Input Nodes"
  | multipleOutputNodes _ => "Multiple Output Nodes"
  | inputEdgeToNonRootNode _ => "Input Edge To Non-Root Node"
  | outputEdgeFromNonLeafNode _ => "Output Edge From Non-Leaf Node"
  | noContinuousPath _ _ => "No Continuous Path From Root To Leaf In Selection"

/-- `ExtractableSubgraphData`. -/
structure ExtractableSubgraphData where
  start : Option String
  stop : Option String
  deriving DecidableEq, Repr

/-- `getInputEdges(graphIds, adjacencyList)`. -/
def getInputEdges (graphIds : OrderedSet String) (adjacencyList : IConnectionAdjacencyList) :
    List (String × IConnection) :=
  adjacencyList.entries.flatMap fun (source, targets) =>
    if source ∈ graphIds then []
    else (targets.filter (·.node ∈ graphIds)).map fun target => (source, target)

/-- `getOutputEdges(graphIds, adjacencyList)`. -/
def getOutputEdges (graphIds : OrderedSet String) (adjacencyList : IConnectionAdjacencyList) :
    List (String × IConnection) :=
  adjacencyList.entries.flatMap fun (source, targets) =>
    if source ∉ graphIds then []
    else (targets.filter (·.node ∉ graphIds)).map fun target => (source, target)

/-- `inputNodes`: the nodes that main connections enter. -/
def inputNodes (graphIds : OrderedSet String) (adjacencyList : IConnectionAdjacencyList) :
    OrderedSet String :=
  .ofList (((getInputEdges graphIds adjacencyList).filter (·.2.type = .main)).map (·.2.node))

/-- `outputNodes`: the nodes that main connections leave. -/
def outputNodes (graphIds : OrderedSet String) (adjacencyList : IConnectionAdjacencyList) :
    OrderedSet String :=
  .ofList (((getOutputEdges graphIds adjacencyList).filter (·.2.type = .main)).map (·.1))

/-- `intersection(a, b)`. -/
def intersection (a b : OrderedSet String) : OrderedSet String := a.filter (· ∈ b)

/-- `union(a, b)`. -/
def union (a b : OrderedSet String) : OrderedSet String :=
  (OrderedSet.ofList a.elems).addAll b.elems

/-- `difference(minuend, subtrahend)`. -/
def difference (minuend subtrahend : OrderedSet String) : OrderedSet String :=
  minuend.filter (· ∉ subtrahend)

/-- The other nodes that main connections of the node lead to. -/
def otherTargets (adjacencyList : IConnectionAdjacencyList) (nodeId : String) : OrderedSet String :=
  .ofList ((((adjacencyList.get? nodeId).getD []).filter
    fun x => x.type = .main ∧ x.node ≠ nodeId).map (·.node))

/-- `getRootNodes(graphIds, adjacencyList)`. -/
def getRootNodes (graphIds : OrderedSet String) (adjacencyList : IConnectionAdjacencyList) :
    OrderedSet String :=
  let innerNodes := graphIds.elems.foldl
    (fun innerNodes nodeId => union innerNodes (otherTargets adjacencyList nodeId)) .empty
  difference graphIds innerNodes

/-- `getLeafNodes(graphIds, adjacencyList)`. -/
def getLeafNodes (graphIds : OrderedSet String) (adjacencyList : IConnectionAdjacencyList) :
    OrderedSet String :=
  graphIds.elems.foldl (fun result nodeId =>
    if (intersection (otherTargets adjacencyList nodeId) graphIds).size = 0 then result.add nodeId
    else result) .empty

/-- The nodes that main connections of the node lead to. -/
def mainTargets (adjacencyList : IConnectionAdjacencyList) (node : String) : OrderedSet String :=
  .ofList ((((adjacencyList.get? node).getD []).filter (·.type = .main)).map (·.node))

/-- The loop of `hasPath`, at most `fuel` rounds of it. The end of the array `paths`, from which
`pop` takes, is the front of the list. -/
def hasPathFrom (stop : String) (adjacencyList : IConnectionAdjacencyList) :
    Nat → OrderedSet String → List String → Option Bool
  | 0, _, _ => none
  | _ + 1, _, [] => some false
  | fuel + 1, seen, next :: paths =>
    if next = stop then some true
    else
      let seen := seen.add next
      hasPathFrom stop adjacencyList fuel seen
        ((difference (mainTargets adjacencyList next) seen).elems.reverse ++ paths)

/-- `hasPath(start, end, adjacencyList)`. -/
def hasPath (fuel : Nat) (start stop : String) (adjacencyList : IConnectionAdjacencyList) :
    Option Bool :=
  hasPathFrom stop adjacencyList fuel .empty [start]

/-- What is done for the input nodes and again for the output nodes: which of the `outer` nodes,
those with connections to the outside, are among the root or leaf nodes `extremal`, and what is
wrong with them. A selection without extremal nodes is fine when there is one outer node. -/
def checkOuter (outer extremal : OrderedSet String) (stray : String → ExtractableErrorResult)
    (several : OrderedSet String → ExtractableErrorResult) :
    List ExtractableErrorResult × OrderedSet String :=
  let extremal := if extremal.size = 0 ∧ outer.size = 1 then outer else extremal
  let kept := intersection extremal outer
  ((difference outer extremal).elems.map stray ++ if 1 < kept.size then [several kept] else [],
    kept)

/-- The last check: `start && end && !hasPath(start, end, adjacencyList)`. -/
def checkPath (fuel : Nat) (adjacencyList : IConnectionAdjacencyList) :
    Option String → Option String → Option (List ExtractableErrorResult)
  | some start, some stop =>
    -- an empty name counts as missing
    if start = "" ∨ stop = "" then some []
    else (hasPath fuel start stop adjacencyList).map fun found =>
      if found then [] else [.noContinuousPath start stop]
  | _, _ => some []

/-- `parseExtractableSubgraphSelection(graphIds, adjacencyList)`, where `hasPath` goes through at
most `fuel` rounds: the data, or a list of errors. -/
def parseExtractableSubgraphSelection (fuel : Nat) (graphIds : OrderedSet String)
    (adjacencyList : IConnectionAdjacencyList) :
    Option (Except (List ExtractableErrorResult) ExtractableSubgraphData) := do
  let (inputErrors, rootInputNodes) := checkOuter (inputNodes graphIds adjacencyList)
    (getRootNodes graphIds adjacencyList) .inputEdgeToNonRootNode .multipleInputNodes
  let (outputErrors, leafOutputNodes) := checkOuter (outputNodes graphIds adjacencyList)
    (getLeafNodes graphIds adjacencyList) .outputEdgeFromNonLeafNode .multipleOutputNodes
  let start := rootInputNodes.elems.head?
  let stop := leafOutputNodes.elems.head?
  let pathErrors ← checkPath fuel adjacencyList start stop
  let errors := inputErrors ++ outputErrors ++ pathErrors
  return if 0 < errors.length then .error errors else .ok ⟨start, stop⟩

/-! ## Connections of a selection -/

section Selection

variable (graphIds : OrderedSet String) (adjacencyList : IConnectionAdjacencyList)

/-- A main connection leads from one node to the other. -/
def MainEdge (a b : String) : Prop :=
  ∃ targets connection, (a, targets) ∈ adjacencyList.entries ∧ connection ∈ targets ∧
    connection.type = .main ∧ connection.node = b

/-- A main connection between selected nodes. -/
def InnerEdge (a b : String) : Prop := a ∈ graphIds ∧ b ∈ graphIds ∧ MainEdge adjacencyList a b

/-- A main connection enters the selection at the node. -/
def Entry (x : String) : Prop := x ∈ graphIds ∧ ∃ y, y ∉ graphIds ∧ MainEdge adjacencyList y x

/-- A main connection leaves the selection from the node. -/
def Exit (x : String) : Prop := x ∈ graphIds ∧ ∃ y, y ∉ graphIds ∧ MainEdge adjacencyList x y

/-- No main connection leads to the selected node from another selected one. -/
def Root (x : String) : Prop :=
  x ∈ graphIds ∧ ∀ y ∈ graphIds, y ≠ x → ¬ MainEdge adjacencyList y x

/-- No main connection leads from the selected node to another selected one. -/
def Leaf (x : String) : Prop :=
  x ∈ graphIds ∧ ∀ y ∈ graphIds, y ≠ x → ¬ MainEdge adjacencyList x y

variable {graphIds adjacencyList} {a b x : String}

theorem mem_targets_iff {p : IConnection → Prop} [DecidablePred p] :
    b ∈ OrderedSet.ofList ((((adjacencyList.get? a).getD []).filter (p ·)).map (·.node)) ↔
      ∃ targets connection, (a, targets) ∈ adjacencyList.entries ∧ connection ∈ targets ∧
        p connection ∧ connection.node = b := by
  rw [OrderedSet.mem_ofList, List.mem_map]
  constructor
  · rintro ⟨connection, hconnection, hnode⟩
    obtain ⟨hmem, hp⟩ := List.mem_filter.mp hconnection
    cases hget : adjacencyList.get? a with
    | none => simp [hget] at hmem
    | some targets =>
      rw [hget] at hmem
      exact ⟨targets, connection, InsertionMap.get_eq_some_iff.mp hget, hmem, by simpa using hp,
        hnode⟩
  · rintro ⟨targets, connection, hentry, hmem, hp, hnode⟩
    rw [InsertionMap.get_eq_some_iff.mpr hentry]
    exact ⟨connection, List.mem_filter.mpr ⟨hmem, by simpa using hp⟩, hnode⟩

theorem mem_mainTargets_iff : b ∈ mainTargets adjacencyList a ↔ MainEdge adjacencyList a b :=
  mem_targets_iff

theorem mem_otherTargets_iff :
    b ∈ otherTargets adjacencyList a ↔ MainEdge adjacencyList a b ∧ b ≠ a := by
  rw [otherTargets, mem_targets_iff]
  constructor
  · rintro ⟨targets, connection, hentry, hmem, ⟨htype, hne⟩, rfl⟩
    exact ⟨⟨targets, connection, hentry, hmem, htype, rfl⟩, hne⟩
  · rintro ⟨⟨targets, connection, hentry, hmem, htype, rfl⟩, hne⟩
    exact ⟨targets, connection, hentry, hmem, ⟨htype, hne⟩, rfl⟩

theorem mem_inputNodes_iff :
    x ∈ inputNodes graphIds adjacencyList ↔ Entry graphIds adjacencyList x := by
  rw [inputNodes, OrderedSet.mem_ofList, List.mem_map]
  constructor
  · rintro ⟨⟨y, connection⟩, hedge, rfl⟩
    obtain ⟨hedge, htype⟩ := List.mem_filter.mp hedge
    obtain ⟨⟨source, targets⟩, hentry, hedge⟩ := List.mem_flatMap.mp hedge
    dsimp only at hedge
    split at hedge
    · cases hedge
    · rename_i hout
      obtain ⟨target, htarget, heq⟩ := List.mem_map.mp hedge
      cases heq
      obtain ⟨hmem, hin⟩ := List.mem_filter.mp htarget
      exact ⟨by simpa using hin, _, hout, targets, connection, hentry, hmem,
        by simpa using htype, rfl⟩
  · rintro ⟨hin, y, hout, targets, connection, hentry, hmem, htype, rfl⟩
    refine ⟨(y, connection), List.mem_filter.mpr ⟨?_, by simpa using htype⟩, rfl⟩
    refine List.mem_flatMap.mpr ⟨(y, targets), hentry, ?_⟩
    dsimp only
    rw [if_neg hout]
    exact List.mem_map_of_mem (List.mem_filter.mpr ⟨hmem, by simpa using hin⟩)

theorem mem_outputNodes_iff :
    x ∈ outputNodes graphIds adjacencyList ↔ Exit graphIds adjacencyList x := by
  rw [outputNodes, OrderedSet.mem_ofList, List.mem_map]
  constructor
  · rintro ⟨⟨source, connection⟩, hedge, rfl⟩
    obtain ⟨hedge, htype⟩ := List.mem_filter.mp hedge
    obtain ⟨⟨source', targets⟩, hentry, hedge⟩ := List.mem_flatMap.mp hedge
    dsimp only at hedge
    split at hedge
    · cases hedge
    · rename_i hin
      obtain ⟨target, htarget, heq⟩ := List.mem_map.mp hedge
      cases heq
      obtain ⟨hmem, hout⟩ := List.mem_filter.mp htarget
      exact ⟨not_not.mp hin, connection.node, by simpa using hout, targets, connection, hentry,
        hmem, by simpa using htype, rfl⟩
  · rintro ⟨hin, y, hout, targets, connection, hentry, hmem, htype, rfl⟩
    refine ⟨(x, connection), List.mem_filter.mpr ⟨?_, by simpa using htype⟩, rfl⟩
    refine List.mem_flatMap.mpr ⟨(x, targets), hentry, ?_⟩
    dsimp only
    rw [if_neg (not_not.mpr hin)]
    exact List.mem_map_of_mem (List.mem_filter.mpr ⟨hmem, by simpa using hout⟩)

theorem mem_innerNodes_iff {l : List String} {start : OrderedSet String} :
    x ∈ l.foldl (fun innerNodes nodeId => union innerNodes (otherTargets adjacencyList nodeId))
      start ↔ x ∈ start ∨ ∃ y ∈ l, MainEdge adjacencyList y x ∧ x ≠ y := by
  induction l generalizing start with
  | nil => simp
  | cons y l ih =>
    rw [List.foldl_cons, ih, union, OrderedSet.mem_addAll, OrderedSet.mem_ofList,
      OrderedSet.mem_elems, OrderedSet.mem_elems, mem_otherTargets_iff, or_assoc]
    simp only [List.mem_cons, exists_eq_or_imp]

theorem mem_getRootNodes_iff :
    x ∈ getRootNodes graphIds adjacencyList ↔ Root graphIds adjacencyList x := by
  rw [getRootNodes, difference, OrderedSet.mem_filter, decide_eq_true_iff, mem_innerNodes_iff]
  refine and_congr_right fun _ => ⟨fun hnone y hy hne hedge => ?_, fun hroot hinner => ?_⟩
  · exact hnone (.inr ⟨y, hy, hedge, Ne.symm hne⟩)
  · rcases hinner with hempty | ⟨y, hy, hedge, hne⟩
    · simp at hempty
    · exact hroot y hy (Ne.symm hne) hedge

theorem mem_getLeafNodes_iff :
    x ∈ getLeafNodes graphIds adjacencyList ↔ Leaf graphIds adjacencyList x := by
  have hleaf : ∀ y, (intersection (otherTargets adjacencyList y) graphIds).size = 0 ↔
      ∀ z ∈ graphIds, z ≠ y → ¬ MainEdge adjacencyList y z := by
    intro y
    rw [OrderedSet.size_eq_zero_iff]
    refine forall_congr' fun z => ?_
    rw [intersection, OrderedSet.mem_filter, mem_otherTargets_iff, decide_eq_true_iff]
    tauto
  have hgen : ∀ (l : List String) (start : OrderedSet String), x ∈ l.foldl (fun result nodeId =>
      if (intersection (otherTargets adjacencyList nodeId) graphIds).size = 0 then
        result.add nodeId else result) start ↔
      x ∈ start ∨ x ∈ l ∧ ∀ z ∈ graphIds, z ≠ x → ¬ MainEdge adjacencyList x z := by
    intro l
    induction l with
    | nil => simp
    | cons y l ih =>
      intro start
      rw [List.foldl_cons, ih]
      split
      · rename_i hy
        rw [OrderedSet.mem_add, List.mem_cons, or_assoc]
        refine or_congr_right ⟨?_, ?_⟩
        · rintro (rfl | ⟨hx, hall⟩)
          · exact ⟨.inl rfl, (hleaf _).mp hy⟩
          · exact ⟨.inr hx, hall⟩
        · rintro ⟨rfl | hx, hall⟩
          · exact .inl rfl
          · exact .inr ⟨hx, hall⟩
      · rename_i hy
        rw [List.mem_cons]
        refine or_congr_right (and_congr_left fun hall => ⟨.inr, ?_⟩)
        rintro (rfl | hx)
        · exact absurd ((hleaf _).mpr hall) hy
        · exact hx
  rw [getLeafNodes, hgen]
  simp [Leaf, OrderedSet.mem_elems]

end Selection

/-! ## Entries and exits -/

/-- At most one node has the property `Outer`, and it has the property `Extremal` if any node has
it. -/
structure SingleEnd (Outer Extremal : String → Prop) (node : Option String) : Prop where
  only : ∀ x, Outer x ↔ node = some x
  extremal : ∀ x ∈ node, (∃ y, Extremal y) → Extremal x

/-- The nodes among which the outer nodes are to be. -/
def extremalFor (outer extremal : OrderedSet String) : OrderedSet String :=
  if extremal.size = 0 ∧ outer.size = 1 then outer else extremal

section Outer

variable {outer extremal : OrderedSet String} {stray : String → ExtractableErrorResult}
  {several : OrderedSet String → ExtractableErrorResult}

theorem no_errors_iff :
    (checkOuter outer extremal stray several).1 = [] ↔
      (∀ x ∈ outer, x ∈ extremalFor outer extremal) ∧ outer.size ≤ 1 := by
  have herrors : (checkOuter outer extremal stray several).1 = [] ↔
      (∀ x ∈ outer, x ∈ extremalFor outer extremal) ∧
        (intersection (extremalFor outer extremal) outer).size ≤ 1 := by
    change (difference outer (extremalFor outer extremal)).elems.map stray ++
      (if 1 < (intersection (extremalFor outer extremal) outer).size then
        [several (intersection (extremalFor outer extremal) outer)] else []) = [] ↔ _
    rw [List.append_eq_nil_iff, List.map_eq_nil_iff, List.eq_nil_iff_forall_not_mem]
    refine and_congr (forall_congr' fun x => ?_) ?_
    · rw [OrderedSet.mem_elems, difference, OrderedSet.mem_filter, decide_eq_true_iff, not_and,
        not_not]
    · split <;> simp <;> omega
  rw [herrors]
  refine and_congr_right fun hall => ?_
  have hsize : (intersection (extremalFor outer extremal) outer).size = outer.size := by
    refine OrderedSet.size_eq_of_mem_iff fun x => ?_
    rw [intersection, OrderedSet.mem_filter, decide_eq_true_iff]
    exact ⟨And.right, fun hx => ⟨hall x hx, hx⟩⟩
  rw [hsize]

theorem mem_kept_iff (h : (checkOuter outer extremal stray several).1 = []) {x : String} :
    x ∈ (checkOuter outer extremal stray several).2 ↔ x ∈ outer := by
  change x ∈ intersection (extremalFor outer extremal) outer ↔ x ∈ outer
  rw [intersection, OrderedSet.mem_filter, decide_eq_true_iff]
  exact ⟨And.right, fun hx => ⟨(no_errors_iff.mp h).1 x hx, hx⟩⟩

theorem single_end_iff {node : Option String} :
    (checkOuter outer extremal stray several).1 = [] ∧
      (checkOuter outer extremal stray several).2.elems.head? = node ↔
      SingleEnd (· ∈ outer) (· ∈ extremal) node := by
  constructor
  · rintro ⟨herrors, rfl⟩
    obtain ⟨hall, hsize⟩ := no_errors_iff.mp herrors
    have hkept : (checkOuter outer extremal stray several).2.size ≤ 1 := by
      rw [OrderedSet.size_eq_of_mem_iff fun x => mem_kept_iff herrors]
      exact hsize
    have honly : ∀ x, x ∈ outer ↔
        (checkOuter outer extremal stray several).2.elems.head? = some x := fun x => by
      rw [OrderedSet.head_eq_some_iff hkept, mem_kept_iff herrors]
    refine ⟨honly, fun x hx ⟨y, hy⟩ => ?_⟩
    have hmem := hall x ((honly x).mpr hx)
    rw [extremalFor, if_neg] at hmem
    · exact hmem
    · rintro ⟨hempty, -⟩
      exact OrderedSet.size_eq_zero_iff.mp hempty y hy
  · rintro ⟨honly, hextremal⟩
    have hsize : outer.size ≤ 1 := OrderedSet.size_le_one_iff.mpr fun a ha b hb =>
      Option.some.inj (((honly a).mp ha).symm.trans ((honly b).mp hb))
    have herrors : (checkOuter outer extremal stray several).1 = [] := by
      refine no_errors_iff.mpr ⟨fun x hx => ?_, hsize⟩
      rw [extremalFor]
      split
      · exact hx
      · rename_i hfallback
        refine hextremal x ((honly x).mp hx) (by_contra fun hnone => hfallback ⟨?_, ?_⟩)
        · exact OrderedSet.size_eq_zero_iff.mpr fun y hy => hnone ⟨y, hy⟩
        · have hpos : outer.size ≠ 0 := fun hzero => OrderedSet.size_eq_zero_iff.mp hzero x hx
          omega
    refine ⟨herrors, Option.ext fun x => ?_⟩
    have hkept : (checkOuter outer extremal stray several).2.size ≤ 1 := by
      rw [OrderedSet.size_eq_of_mem_iff fun x => mem_kept_iff herrors]
      exact hsize
    rw [OrderedSet.head_eq_some_iff hkept, mem_kept_iff herrors]
    exact honly x

end Outer

/-! ## The path -/

theorem hasPathFrom_eq (stop : String) (adjacencyList : IConnectionAdjacencyList) (fuel : Nat)
    (seen : OrderedSet String) (paths : List String) :
    hasPathFrom stop adjacencyList fuel seen paths =
      stackSearch (mainTargets adjacencyList) stop fuel seen paths := by
  induction fuel generalizing seen paths with
  | zero => rfl
  | succ fuel ih =>
    cases paths with
    | nil => rfl
    | cons next paths =>
      rw [hasPathFrom, stackSearch]
      split
      · rfl
      · exact ih _ _

theorem hasPath_iff {fuel : Nat} {start stop : String} {adjacencyList : IConnectionAdjacencyList}
    {found : Bool} (h : hasPath fuel start stop adjacencyList = some found) :
    found = true ↔ ReflTransGen (MainEdge adjacencyList) start stop := by
  rw [hasPath, hasPathFrom_eq] at h
  rw [stackSearch_iff h]
  simp only [mem_mainTargets_iff]

theorem exists_hasPath (start stop : String) (adjacencyList : IConnectionAdjacencyList) :
    ∃ fuel found, ∀ more, hasPath (fuel + more) start stop adjacencyList = some found := by
  have hnext : ∀ v, ∀ y ∈ mainTargets adjacencyList v,
      y ∈ start :: adjacencyList.entries.flatMap fun e => e.2.map (·.node) := by
    intro v y hy
    obtain ⟨targets, connection, hentry, hmem, -, rfl⟩ := mem_mainTargets_iff.mp hy
    exact List.mem_cons_of_mem _
      (List.mem_flatMap.mpr ⟨(v, targets), hentry, List.mem_map_of_mem hmem⟩)
  obtain ⟨fuel, found, hfound⟩ : ∃ fuel found, stackSearch (mainTargets adjacencyList) stop fuel
      .empty [start] = some found := exists_stackSearch hnext .empty [start] (by simp)
  refine ⟨fuel, found, fun more => ?_⟩
  rw [hasPath, hasPathFrom_eq]
  exact stackSearch_mono hfound

theorem inner_path_iff {graphIds : OrderedSet String} {adjacencyList : IConnectionAdjacencyList}
    {start stop : String} (hexit : ∀ x, Exit graphIds adjacencyList x → x = stop)
    (hstart : start ∈ graphIds) :
    ReflTransGen (MainEdge adjacencyList) start stop ↔
      ReflTransGen (InnerEdge graphIds adjacencyList) start stop := by
  refine ⟨fun h => ?_, fun h => h.lift id fun _ _ hedge => hedge.2.2⟩
  induction h using ReflTransGen.head_induction_on with
  | refl => exact .refl
  | @head a c hedge _ ih =>
    by_cases ha : a = stop
    · rw [ha]
    · have hc : c ∈ graphIds := by
        by_contra hc
        exact ha (hexit a ⟨hstart, c, hc, hedge⟩)
      exact .head ⟨hstart, hc, hedge⟩ (ih hc)

/-- The last check passes when a path leads from the start to the end, or one of them is missing or
has the empty name. -/
theorem exists_checkPath (adjacencyList : IConnectionAdjacencyList) (start stop : Option String) :
    ∃ fuel errors, (∀ more, checkPath (fuel + more) adjacencyList start stop = some errors) ∧
      (errors = [] ↔ ∀ s ∈ start, ∀ e ∈ stop, s ≠ "" → e ≠ "" →
        ReflTransGen (MainEdge adjacencyList) s e) := by
  cases start with
  | none => exact ⟨0, [], fun more => rfl, by simp⟩
  | some s =>
    cases stop with
    | none => exact ⟨0, [], fun more => rfl, by simp⟩
    | some e =>
      by_cases hempty : s = "" ∨ e = ""
      · refine ⟨0, [], fun more => by rw [checkPath, if_pos hempty], ?_⟩
        simp only [Option.mem_some_iff, forall_eq', true_iff]
        exact fun hs he => absurd hempty (not_or.mpr ⟨hs, he⟩)
      · obtain ⟨fuel, found, hfound⟩ := exists_hasPath s e adjacencyList
        refine ⟨fuel, if found then [] else [.noContinuousPath s e], fun more => ?_, ?_⟩
        · rw [checkPath, if_neg hempty, hfound more]
          rfl
        · obtain ⟨hs, he⟩ := not_or.mp hempty
          have hpath := hasPath_iff (hfound 0)
          simp only [Option.mem_some_iff, forall_eq', ne_eq, hs, he, not_false_eq_true,
            forall_const, ← hpath]
          cases found <;> simp

/-! ## Accepted selections -/

/-- The selection has one entry and one exit at most, the nodes that the data names: the entry is a
root if there are roots, the exit a leaf if there are leaves, and a path inside the selection leads
from the one to the other. -/
structure Extractable (graphIds : OrderedSet String) (adjacencyList : IConnectionAdjacencyList)
    (data : ExtractableSubgraphData) : Prop where
  entry : SingleEnd (Entry graphIds adjacencyList) (Root graphIds adjacencyList) data.start
  exit : SingleEnd (Exit graphIds adjacencyList) (Leaf graphIds adjacencyList) data.stop
  path : ∀ s ∈ data.start, ∀ e ∈ data.stop, s ≠ "" → e ≠ "" →
    ReflTransGen (InnerEdge graphIds adjacencyList) s e

theorem parse_eq {fuel : Nat} {graphIds : OrderedSet String}
    {adjacencyList : IConnectionAdjacencyList} {errors : List ExtractableErrorResult}
    {input output : List ExtractableErrorResult × OrderedSet String}
    (hinput : checkOuter (inputNodes graphIds adjacencyList) (getRootNodes graphIds adjacencyList)
      .inputEdgeToNonRootNode .multipleInputNodes = input)
    (houtput : checkOuter (outputNodes graphIds adjacencyList) (getLeafNodes graphIds adjacencyList)
      .outputEdgeFromNonLeafNode .multipleOutputNodes = output)
    (hpath : checkPath fuel adjacencyList input.2.elems.head? output.2.elems.head? = some errors) :
    parseExtractableSubgraphSelection fuel graphIds adjacencyList =
      some (if 0 < (input.1 ++ output.1 ++ errors).length then
        .error (input.1 ++ output.1 ++ errors)
      else .ok ⟨input.2.elems.head?, output.2.elems.head?⟩) := by
  rw [parseExtractableSubgraphSelection, hinput, houtput]
  dsimp only
  rw [hpath]
  rfl

/-- The three checks find no error exactly when the selection is extractable with the first nodes
that two of them are left with. -/
theorem accepted_iff {graphIds : OrderedSet String} {adjacencyList : IConnectionAdjacencyList}
    {input output : List ExtractableErrorResult × OrderedSet String}
    {errors : List ExtractableErrorResult} {data : ExtractableSubgraphData}
    (hentry : ∀ node, input.1 = [] ∧ input.2.elems.head? = node ↔
      SingleEnd (Entry graphIds adjacencyList) (Root graphIds adjacencyList) node)
    (hexit : ∀ node, output.1 = [] ∧ output.2.elems.head? = node ↔
      SingleEnd (Exit graphIds adjacencyList) (Leaf graphIds adjacencyList) node)
    (herrors : errors = [] ↔ ∀ s ∈ input.2.elems.head?, ∀ e ∈ output.2.elems.head?,
      s ≠ "" → e ≠ "" → ReflTransGen (MainEdge adjacencyList) s e) :
    input.1 ++ output.1 ++ errors = [] ∧
        (⟨input.2.elems.head?, output.2.elems.head?⟩ : ExtractableSubgraphData) = data ↔
      Extractable graphIds adjacencyList data := by
  obtain ⟨start, stop⟩ := data
  rw [List.append_eq_nil_iff, List.append_eq_nil_iff, ExtractableSubgraphData.mk.injEq]
  constructor
  · rintro ⟨⟨⟨hin, hout⟩, herr⟩, rfl, rfl⟩
    have hentries := (hentry _).mp ⟨hin, rfl⟩
    have hexits := (hexit _).mp ⟨hout, rfl⟩
    refine ⟨hentries, hexits, fun s hs e he hsname hename => ?_⟩
    have hleaves : ∀ x, Exit graphIds adjacencyList x → x = e := fun x hx =>
      Option.some.inj (((hexits.only x).mp hx).symm.trans he)
    exact (inner_path_iff hleaves ((hentries.only s).mpr hs).1).mp
      (herrors.mp herr s hs e he hsname hename)
  · rintro ⟨hentries, hexits, hpath⟩
    obtain ⟨hin, hstart⟩ := (hentry start).mpr hentries
    obtain ⟨hout, hstop⟩ := (hexit stop).mpr hexits
    have herr : errors = [] := herrors.mpr fun s hs e he hsname hename =>
      (hpath s (hstart ▸ hs) e (hstop ▸ he) hsname hename).lift id fun _ _ hedge => hedge.2.2
    exact ⟨⟨⟨hin, hout⟩, herr⟩, hstart, hstop⟩

/-- With enough fuel, `parseExtractableSubgraphSelection` returns data exactly when the selection
is extractable with it, and otherwise at least one error. -/
theorem extractable_iff (graphIds : OrderedSet String) (adjacencyList : IConnectionAdjacencyList) :
    ∃ fuel result,
      (∀ more, parseExtractableSubgraphSelection (fuel + more) graphIds adjacencyList =
        some result) ∧
      (∀ data, result = .ok data ↔ Extractable graphIds adjacencyList data) ∧
      ((∃ errors, result = .error errors) ↔ ¬ ∃ data, Extractable graphIds adjacencyList data) ∧
      ∀ errors, result = .error errors → errors ≠ [] := by
  obtain ⟨input, hinput⟩ : ∃ input, checkOuter (inputNodes graphIds adjacencyList)
      (getRootNodes graphIds adjacencyList) .inputEdgeToNonRootNode .multipleInputNodes = input :=
    ⟨_, rfl⟩
  obtain ⟨output, houtput⟩ : ∃ output, checkOuter (outputNodes graphIds adjacencyList)
      (getLeafNodes graphIds adjacencyList) .outputEdgeFromNonLeafNode .multipleOutputNodes =
        output := ⟨_, rfl⟩
  obtain ⟨fuel, errors, hfuel, herrors⟩ :=
    exists_checkPath adjacencyList input.2.elems.head? output.2.elems.head?
  refine ⟨fuel, _, fun more => parse_eq hinput houtput (hfuel more), ?_⟩
  have hentry : ∀ node, input.1 = [] ∧ input.2.elems.head? = node ↔
      SingleEnd (Entry graphIds adjacencyList) (Root graphIds adjacencyList) node := by
    intro node
    rw [← hinput, single_end_iff]
    simp only [mem_inputNodes_iff, mem_getRootNodes_iff]
  have hexit : ∀ node, output.1 = [] ∧ output.2.elems.head? = node ↔
      SingleEnd (Exit graphIds adjacencyList) (Leaf graphIds adjacencyList) node := by
    intro node
    rw [← houtput, single_end_iff]
    simp only [mem_outputNodes_iff, mem_getLeafNodes_iff]
  have hok : ∀ data, (if 0 < (input.1 ++ output.1 ++ errors).length then
      Except.error (input.1 ++ output.1 ++ errors)
      else .ok ⟨input.2.elems.head?, output.2.elems.head?⟩) = .ok data ↔
      Extractable graphIds adjacencyList data := by
    intro data
    rw [← accepted_iff hentry hexit herrors]
    split
    · rename_i hlength
      refine iff_of_false (fun h => by cases h) fun h => ?_
      exact List.length_pos_iff.mp hlength h.1
    · rename_i hlength
      rw [List.length_pos_iff, not_not] at hlength
      rw [and_iff_right hlength, Except.ok.injEq]
  refine ⟨hok, ?_, fun found hfound => ?_⟩
  · simp only [← hok]
    split <;> simp
  · split at hfound
    · rename_i hlength
      cases hfound
      exact List.length_pos_iff.mp hlength
    · cases hfound

/-- Main connections to `b` from the selected node `a` and from `x` outside. -/
def twoIntoOne : IConnectionAdjacencyList :=
  .set (.set .empty "x" [⟨"b", .main, 0⟩]) "a" [⟨"b", .main, 0⟩]

/-- All connections that enter the selection of `a` and `b` go to one input of `b`, and none leaves
it; but `b` is no root, while `a` is one. -/
theorem entry_at_inner_node :
    parseExtractableSubgraphSelection 1 (.ofList ["a", "b"]) twoIntoOne =
      some (.error [.inputEdgeToNonRootNode "b"]) ∧
    getInputEdges (.ofList ["a", "b"]) twoIntoOne = [("x", ⟨"b", .main, 0⟩)] ∧
    getOutputEdges (.ofList ["a", "b"]) twoIntoOne = [] := by
  decide +kernel

-- connections to two inputs of the start are accepted
example : parseExtractableSubgraphSelection 1 (.ofList ["a"])
    (.set .empty "x" [⟨"a", .main, 0⟩, ⟨"a", .main, 1⟩]) = some (.ok ⟨some "a", none⟩) := by
  decide +kernel

end N8n.SubgraphSelection
