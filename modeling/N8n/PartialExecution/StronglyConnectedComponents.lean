import N8n.Graph.LowLink
import N8n.PartialExecution.GraphInvariant

/-!
# Strongly connected components of workflow graphs

`getStronglyConnectedComponents` of
`packages/core/src/execution-engine/partial-execution-utils/directed-graph.ts`: a recursion that
numbers the nodes, propagates low-link values and pops components from a stack. It is the
computation by low-link values that listens to the depth-first traversal of the graph, so it
finds the components exactly when every low-link value arrives in time.
-/

namespace N8n.PartialExecution

open Collections
open DirectedGraph
open N8n.Graph

/-- The variables that `followNode` closes over. The top of the stack comes first. -/
structure SccState where
  id : Nat
  visited : List INode
  ids : InsertionMap INode Nat
  lowLinkValues : InsertionMap INode Nat
  stack : List INode
  stronglyConnectedComponents : List (List INode)

/-- Before the first node is followed. -/
def SccState.init : SccState := ⟨0, [], .empty, .empty, [], []⟩

/-- Mark a node as visited, with the next number. -/
def SccState.enterNode (s : SccState) (node : INode) : SccState :=
  { s with
    visited := s.visited ++ [node]
    lowLinkValues := s.lowLinkValues.set node s.id
    ids := s.ids.set node s.id
    id := s.id + 1
    stack := node :: s.stack }

/-- If the child is on the stack, lower the low-link value of the node to its value. -/
def SccState.lowerTo (s : SccState) (node child : INode) : Except GraphError SccState :=
  if child ∈ s.stack then
    match s.lowLinkValues.get? child, s.lowLinkValues.get? node with
    | some childLowLinkValue, some ownLowLinkValue =>
      .ok { s with
        lowLinkValues := s.lowLinkValues.set node (min childLowLinkValue ownLowLinkValue) }
    | _, _ => .error .assertion
  else .ok s

/-- Pop from the stack until it is empty or a node has a different low-link value: the rest of
the stack, and the set of the popped nodes. -/
def popComponent (lowLinkValues : InsertionMap INode Nat) (ownId : Nat) :
    List INode → List INode → List INode × List INode
  | [], scc => ([], scc)
  | next :: rest, scc =>
    if lowLinkValues.get? next = some ownId then
      popComponent lowLinkValues ownId rest (if next ∈ scc then scc else scc ++ [next])
    else (next :: rest, scc)

/-- After all children were visited, a node whose low-link value is its number pops a
component. -/
def SccState.finishNode (s : SccState) (node : INode) : Except GraphError SccState :=
  match s.ids.get? node, s.lowLinkValues.get? node with
  | some ownId, some ownLowLinkValue =>
    if ownId = ownLowLinkValue then
      let (stack, scc) := popComponent s.lowLinkValues ownId s.stack []
      .ok { s with
        stack := stack
        stronglyConnectedComponents :=
          if scc.length > 0 then s.stronglyConnectedComponents ++ [scc]
          else s.stronglyConnectedComponents }
    else .ok s
  | _, _ => .error .assertion

/-- `followNode(node)`, at most `fuel` calls deep. -/
def followNode (g : DirectedGraph) : Nat → INode → SccState → Except GraphError SccState
  | 0, _, _ => .error .outOfFuel
  | fuel + 1, node, s =>
    if node ∈ s.visited then .ok s
    else do
      let directChildren ← g.getDirectChildConnections node
      let s ← (directChildren.map (·.toNode)).foldlM (fun s child => do
        let s ← followNode g fuel child s
        s.lowerTo node child) (s.enterNode node)
      s.finishNode node

/-- `getStronglyConnectedComponents()`. Every call but the innermost marks another node, so the
number of nodes bounds the depth. -/
def getStronglyConnectedComponents (g : DirectedGraph) : Except GraphError (List (List INode)) := do
  let s ← g.getNodes.foldlM (fun s node => followNode g (g.getNodes.length + 1) node s) .init
  return s.stronglyConnectedComponents

/-- The children of a node in the order of the connections. -/
def directChildren (g : DirectedGraph) (node : INode) : List INode :=
  (g.connections.values.filter (·.fromNode = node)).map (·.toNode)

/-! ## The variables as a state of the computation by low-link values -/

/-- The variables hold a state of the computation. -/
structure Represents (g : DirectedGraph) (code : SccState) (s : LowLink INode) : Prop where
  id : code.id = s.order.length
  visited : code.visited = s.order
  ids : ∀ v, code.ids.get? v = if v ∈ s.order then some (s.order.idxOf v) else none
  lowLinkValues : ∀ v, code.lowLinkValues.get? v = if v ∈ s.order then some (s.low v) else none
  stack : code.stack = s.stack
  components : code.stronglyConnectedComponents = s.components
  stored : ∀ v ∈ s.order, g.stores v = true
  nodup : s.order.Nodup
  stackNodup : s.stack.Nodup
  onStack : ∀ v ∈ s.stack, v ∈ s.order

variable {g : DirectedGraph} {code : SccState} {s : LowLink INode} {node child : INode}

theorem init_represents : Represents g .init .init := by
  refine ⟨rfl, rfl, ?_, ?_, rfl, rfl, ?_, ?_, ?_, ?_⟩ <;> simp [SccState.init, LowLink.init]

theorem enter_represents (h : Represents g code s) (hnode : g.stores node = true)
    (hnew : node ∉ s.order) : Represents g (code.enterNode node) (s.apply (.enter node)) := by
  rw [apply_enter]
  have hmem : ∀ v, v ∈ s.order ++ [node] ↔ v ∈ s.order ∨ v = node := by simp
  refine ⟨?_, ?_, fun v => ?_, fun v => ?_, ?_, h.components, ?_, ?_, ?_, ?_⟩
  · simp [SccState.enterNode, h.id]
  · simp [SccState.enterNode, h.visited]
  · simp only [SccState.enterNode, InsertionMap.get_set, h.ids, h.id, hmem]
    by_cases hv : v = node
    · rw [hv, List.idxOf_append_of_notMem hnew]
      simp
    · by_cases hold : v ∈ s.order
      · simp [hv, hold, List.idxOf_append_of_mem hold]
      · simp [hv, hold]
  · simp only [SccState.enterNode, InsertionMap.get_set, h.lowLinkValues, h.id, hmem]
    by_cases hv : v = node
    · simp [hv]
    · simp [hv]
  · simp [SccState.enterNode, h.stack]
  · simpa [or_imp, forall_and, hnode] using h.stored
  · simpa [List.nodup_append] using ⟨h.nodup, fun a ha heq => hnew (heq ▸ ha)⟩
  · exact List.nodup_cons.mpr ⟨fun hmem => hnew (h.onStack node hmem), h.stackNodup⟩
  · simpa using fun v hv => .inl (h.onStack v hv)

theorem lower_represents (h : Represents g code s) (hnode : node ∈ s.order) (child : INode) :
    ∃ code', code.lowerTo node child = .ok code' ∧
      Represents g code' (s.apply (.edge node child)) := by
  rw [apply_edge]
  unfold SccState.lowerTo
  rw [h.stack]
  by_cases hstack : child ∈ s.stack
  · have hchild := h.lowLinkValues child
    have hown := h.lowLinkValues node
    rw [if_pos (h.onStack child hstack)] at hchild
    rw [if_pos hnode] at hown
    rw [if_pos hstack, if_pos hstack, hchild, hown]
    refine ⟨_, rfl, h.id, h.visited, h.ids, fun v => ?_, rfl, h.components, h.stored,
      h.nodup, h.stackNodup, h.onStack⟩
    rw [InsertionMap.get_set, h.lowLinkValues]
    by_cases hv : v = node
    · simp [hv, hnode]
    · simp [hv]
  · rw [if_neg hstack, if_neg hstack]
    exact ⟨code, rfl, h⟩

theorem pop_component_eq {lowLinkValues : InsertionMap INode Nat} {ownId : Nat} {low : INode → Nat}
    {stack scc : List INode} (hlow : ∀ v ∈ stack, lowLinkValues.get? v = some (low v))
    (hnodup : (scc ++ stack).Nodup) :
    popComponent lowLinkValues ownId stack scc =
      (stack.dropWhile (low · = ownId), scc ++ stack.takeWhile (low · = ownId)) := by
  induction stack generalizing scc with
  | nil => simp [popComponent]
  | cons next rest ih =>
    have hnew : next ∉ scc := fun hmem =>
      (List.nodup_append.mp hnodup).2.2 next hmem next (by simp) rfl
    rw [popComponent, hlow next (by simp)]
    by_cases hval : low next = ownId
    · rw [if_pos (by rw [hval]), if_neg hnew,
        ih (fun v hv => hlow v (by simp [hv])) (by simpa using hnodup)]
      simp [hval]
    · rw [if_neg (by simpa using hval)]
      simp [hval]

theorem finish_represents (h : Represents g code s) (hnode : node ∈ s.order) :
    ∃ code', code.finishNode node = .ok code' ∧ Represents g code' (s.apply (.leave node)) := by
  have hid := h.ids node
  have hown := h.lowLinkValues node
  rw [if_pos hnode] at hid hown
  rw [apply_leave]
  unfold SccState.finishNode
  simp only [hid, hown]
  by_cases hroot : s.order.idxOf node = s.low node
  · have hlow : ∀ v ∈ s.stack, code.lowLinkValues.get? v = some (s.low v) := fun v hv => by
      rw [h.lowLinkValues, if_pos (h.onStack v hv)]
    rw [if_pos hroot, if_pos hroot, h.stack, h.components,
      pop_component_eq hlow (by simpa using h.stackNodup)]
    refine ⟨_, rfl, h.id, h.visited, h.ids, h.lowLinkValues, rfl, ?_, h.stored, h.nodup,
      h.stackNodup.sublist (List.dropWhile_sublist _),
      fun v hv => h.onStack v ((List.dropWhile_sublist _).subset hv)⟩
    simp only [List.nil_append, List.length_pos_iff]
    split <;> simp_all
  · rw [if_neg hroot, if_neg hroot]
    exact ⟨code, rfl, h⟩

/-! ## The recursion -/

theorem foldl_apply_order (s : LowLink INode) (es : List (Event INode)) :
    (es.foldl LowLink.apply s).order = s.order ++ entered es := by
  induction es generalizing s with
  | nil => simp
  | cons e es ih =>
    rw [List.foldl_cons, ih, apply_order, List.append_assoc, ← entered_append]
    rfl

theorem order_length_le (hg : WellFormed g) (h : Represents g code s) :
    s.order.length ≤ g.getNodes.length :=
  h.nodup.length_le_of_subset fun v hv => (mem_get_nodes_iff hg).mpr (h.stored v hv)

theorem direct_children_stored (hg : WellFormed g) (hchild : child ∈ directChildren g node) :
    g.stores child = true := by
  obtain ⟨c, hc, rfl⟩ := List.mem_map.mp hchild
  exact (hg.endpoints c (List.mem_filter.mp hc).1).2

theorem children_closed (hg : WellFormed g) :
    ∀ v ∈ g.getNodes, ∀ y ∈ directChildren g v, y ∈ g.getNodes :=
  fun _ _ _ hy => (mem_get_nodes_iff hg).mpr (direct_children_stored hg hy)

/-- The result of a call represents the state after some more events. -/
def Performs (g : DirectedGraph) (s : LowLink INode) (es : List (Event INode))
    (result : Except GraphError SccState) : Prop :=
  ∃ code, result = .ok code ∧ Represents g code (es.foldl LowLink.apply s)

/-- The loop over the children of a node performs the events of the traversal, when the calls of
`followNode` do. -/
theorem children_loop_performs {fuel : Nat} {visited : List INode}
    (hcall : ∀ child code s', Represents g code s' → g.stores child = true →
      visited.length < s'.order.length →
      Performs g s' (follow (directChildren g) fuel s'.order child) (followNode g fuel child code))
    {cs : List INode} (hcs : ∀ c ∈ cs, g.stores c = true) {es : List (Event INode)}
    (hvisited : s.order = visited ++ [node])
    (h : Represents g code (es.foldl LowLink.apply s)) :
    Performs g s (followChildren (directChildren g) fuel visited node cs es)
      (cs.foldlM (fun s child => do
        let s ← followNode g fuel child s
        s.lowerTo node child) code) := by
  induction cs generalizing es code with
  | nil => exact ⟨code, rfl, h⟩
  | cons c cs ih =>
    have horder : (es.foldl LowLink.apply s).order = visited ++ node :: entered es := by
      rw [foldl_apply_order, hvisited, List.append_assoc, List.singleton_append]
    obtain ⟨code₁, hfollow, h₁⟩ := hcall c code _ h (hcs c (by simp)) (by simp [horder])
    have hnode : node ∈ ((follow (directChildren g) fuel (es.foldl LowLink.apply s).order c).foldl
        LowLink.apply (es.foldl LowLink.apply s)).order := by
      simp [foldl_apply_order, hvisited]
    obtain ⟨code₂, hlower, h₂⟩ := lower_represents h₁ hnode c
    rw [followChildren, List.foldl_cons, ← followChildren, List.foldlM_cons, hfollow]
    show Performs g s _ (code₁.lowerTo node c >>= _)
    rw [hlower]
    refine ih (fun c' hc' => hcs c' (by simp [hc'])) ?_
    simpa only [List.foldl_append, List.foldl_cons, List.foldl_nil, horder] using h₂

theorem follow_node_performs (hg : WellFormed g) {fuel : Nat} (h : Represents g code s)
    (hnode : g.stores node = true) (hfuel : g.getNodes.length < fuel + s.order.length) :
    Performs g s (follow (directChildren g) fuel s.order node) (followNode g fuel node code) := by
  induction fuel generalizing code s node with
  | zero =>
    have := order_length_le hg h
    omega
  | succ fuel ih =>
    unfold followNode
    by_cases hvisited : node ∈ s.order
    · rw [follow_visited hvisited, if_pos (h.visited ▸ hvisited)]
      exact ⟨code, rfl, h⟩
    · rw [follow_new hvisited, if_neg (h.visited ▸ hvisited), getDirectChildConnections,
        if_pos hnode]
      have hstart := enter_represents h hnode hvisited
      obtain ⟨code₁, hloop, h₁⟩ := children_loop_performs
        (fun child code s' h' hchild hlonger => ih h' hchild (by omega))
        (fun c hc => direct_children_stored hg hc) (apply_order s (.enter node))
        (show Represents g (code.enterNode node)
          (([] : List (Event INode)).foldl LowLink.apply (s.apply (.enter node))) from hstart)
      have hentered : node ∈ ((followChildren (directChildren g) fuel s.order node
          (directChildren g node) []).foldl LowLink.apply (s.apply (.enter node))).order := by
        simp [foldl_apply_order, apply_order]
      obtain ⟨code₂, hfinish, h₂⟩ := finish_represents h₁ hentered
      have hrun : (do
          let s ← (directChildren g node).foldlM (fun s child => do
            let s ← followNode g fuel child s
            s.lowerTo node child) (code.enterNode node)
          s.finishNode node) = Except.ok code₂ := by
        rw [hloop]
        exact hfinish
      refine ⟨code₂, hrun, ?_⟩
      simpa only [List.foldl_append, List.foldl_cons, List.foldl_nil] using h₂

/-- `getStronglyConnectedComponents` is the computation by low-link values over the traversal of
the graph. -/
theorem scc_eq (hg : WellFormed g) :
    getStronglyConnectedComponents g =
      .ok (LowLink.after (traverse (directChildren g) g.getNodes)).components := by
  have hloop : ∀ (nodes : List INode) (es : List (Event INode)) (code : SccState),
      (∀ v ∈ nodes, g.stores v = true) → Represents g code (LowLink.after es) →
      Performs g .init (nodes.foldl (fun es v => es ++
          follow (directChildren g) (g.getNodes.length + 1) (entered es) v) es)
        (nodes.foldlM (fun s node => followNode g (g.getNodes.length + 1) node s) code) := by
    intro nodes
    induction nodes with
    | nil => exact fun es code _ h => ⟨code, rfl, h⟩
    | cons v nodes ih =>
      intro es code hstored h
      have hfuel : g.getNodes.length < g.getNodes.length + 1 + (LowLink.after es).order.length :=
        by omega
      obtain ⟨code₁, hfollow, h₁⟩ := follow_node_performs hg h (hstored v (by simp)) hfuel
      rw [List.foldl_cons, List.foldlM_cons, hfollow]
      refine ih _ code₁ (fun v' hv' => hstored v' (by simp [hv'])) ?_
      rw [after_order] at h₁
      rw [LowLink.after, List.foldl_append]
      exact h₁
  obtain ⟨code, hrun, h⟩ := hloop g.getNodes [] .init
    (fun v hv => (mem_get_nodes_iff hg).mp hv) init_represents
  unfold getStronglyConnectedComponents
  rw [hrun]
  show Except.ok code.stronglyConnectedComponents = _
  rw [h.components]
  rfl

/-- `getStronglyConnectedComponents` yields the strongly connected components. -/
def SccExact (g : DirectedGraph) : Prop :=
  ∃ components, getStronglyConnectedComponents g = .ok components ∧
    IsComponents (directChildren g) g.getNodes components

/-- `getStronglyConnectedComponents` yields the strongly connected components exactly when, in the
depth-first traversal of the graph, a walk whose edges are completed from the last one to the
first leads from every node to the first node of its component. -/
theorem scc_exact_iff (hg : WellFormed g) :
    SccExact g ↔ ∀ node ∈ g.getNodes, ∀ first,
      IsFirst (directChildren g) (entered (traverse (directChildren g) g.getNodes)) first node →
        Trail (completed (traverse (directChildren g) g.getNodes)) node first := by
  rw [← components_exact_iff (children_closed hg), SccExact, scc_eq hg]
  simp

/-- A loop of two nodes. -/
def twoNodeLoop : DirectedGraph :=
  graphOf (.create [{ name := "a" }, { name := "b" }]
    (InsertionMap.set (InsertionMap.set .empty
      "a" (InsertionMap.set .empty .main [some [⟨"b", .main, 0⟩]]))
      "b" (InsertionMap.set .empty .main [some [⟨"a", .main, 0⟩]])) none)

/-- The loop is found. -/
theorem scc_exact_two_node_loop : SccExact twoNodeLoop := by
  have hg : WellFormed twoNodeLoop := graph_of_well_formed _
  have hnodes : twoNodeLoop.getNodes = [{ name := "a" }, { name := "b" }] := by decide +kernel
  have horder : entered (traverse (directChildren twoNodeLoop) twoNodeLoop.getNodes) =
      [{ name := "a" }, { name := "b" }] := by decide +kernel
  have hlog : completed (traverse (directChildren twoNodeLoop) twoNodeLoop.getNodes) =
      [({ name := "a" }, { name := "b" }), ({ name := "b" }, { name := "a" })] := by
    decide +kernel
  have hback : Same (directChildren twoNodeLoop) { name := "b" } { name := "a" } :=
    ⟨.single (by decide +kernel), .single (by decide +kernel)⟩
  refine (scc_exact_iff hg).mpr fun node hnode first hfirst => ?_
  rw [hlog]
  rw [horder] at hfirst
  rw [hnodes] at hnode
  -- the first node of the loop is the one entered first
  have hroot : Same (directChildren twoNodeLoop) node { name := "a" } := by
    rcases List.mem_pair.mp hnode with rfl | rfl
    · exact Same.refl _
    · exact hback
  have heq : first = { name := "a" } := by
    have hle := hfirst.2 _ hroot
    by_contra hne
    rw [List.idxOf_cons_self, List.idxOf_cons_ne _ (Ne.symm hne)] at hle
    omega
  rcases List.mem_pair.mp hnode with rfl | rfl
  · rw [heq]
    decide
  · rw [heq]
    decide

/-- A loop of three nodes in which the middle one is visited before its successor leads back: `r`
leads to `a`, and `a` to `b` and then back to `r`, while `b` leads back to `a`. -/
def lateBackEdge : DirectedGraph :=
  graphOf (.create [{ name := "r" }, { name := "a" }, { name := "b" }]
    (InsertionMap.set (InsertionMap.set (InsertionMap.set .empty
      "r" (InsertionMap.set .empty .main [some [⟨"a", .main, 0⟩]]))
      "a" (InsertionMap.set .empty .main [some [⟨"b", .main, 0⟩, ⟨"r", .main, 0⟩]]))
      "b" (InsertionMap.set .empty .main [some [⟨"a", .main, 0⟩]])) none)

/-- No component is found in it at all. -/
theorem scc_lost_late_back_edge : WellFormed lateBackEdge ∧
    getStronglyConnectedComponents lateBackEdge = .ok [] ∧ ¬ SccExact lateBackEdge := by
  have hnone : getStronglyConnectedComponents lateBackEdge = .ok [] := by decide +kernel
  refine ⟨graph_of_well_formed _, hnone, fun ⟨components, hrun, hexact⟩ => ?_⟩
  cases hnone.symm.trans hrun
  have hnode : ({ name := "r" } : INode) ∈ lateBackEdge.getNodes := by decide +kernel
  cases (hexact.union _).mpr hnode

end N8n.PartialExecution
