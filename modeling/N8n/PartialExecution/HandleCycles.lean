import Mathlib.Order.WellFounded
import N8n.Graph.DepthFirstWalk
import N8n.Graph.PoppedComponents
import N8n.PartialExecution.FindStartNodes
import N8n.PartialExecution.StronglyConnectedComponents

/-!
# Start nodes on cycles

`handleCycles` of `packages/core/src/execution-engine/partial-execution-utils/handle-cycles.ts`
and `depthFirstSearch` of `directed-graph.ts`: a start node that lies on a cycle is replaced by the
first node of the cycle on a depth-first walk from the trigger. The cycles are the sets that
`getStronglyConnectedComponents` returns, so a start node is replaced by the entry of its cycle
exactly when it is that entry or shares a returned set with it.
-/

namespace N8n.PartialExecution

open Collections
open DirectedGraph
open N8n.Graph

/-- One round of the loop of `depthFirstSearchRecursive`, with the recursive call as an argument: a
node that was found is returned. -/
def searchChild (search : INode → List INode → Except GraphError (Option INode × List INode)) :
    Option INode × List INode → INode → Except GraphError (Option INode × List INode)
  | (some node, seen), _ => .ok (some node, seen)
  | (none, seen), child => search child seen

/-- `depthFirstSearchRecursive(from, fn, seen)`, at most `fuel` calls deep: the node found, and the
nodes seen. -/
def depthFirstSearchRecursive (g : DirectedGraph) (fn : INode → Bool) :
    Nat → INode → List INode → Except GraphError (Option INode × List INode)
  | 0, _, _ => .error .outOfFuel
  | fuel + 1, fromNode, seen =>
    if fromNode ∈ seen then .ok (none, seen)
    else if fn fromNode then .ok (some fromNode, seen ++ [fromNode])
    else do
      let childConnections ← g.getDirectChildConnections fromNode
      (childConnections.map (·.toNode)).foldlM
        (searchChild (depthFirstSearchRecursive g fn fuel)) (none, seen ++ [fromNode])

/-- `depthFirstSearch({ from, fn })`. Every call but the innermost sees another node, so the number
of nodes bounds the depth. -/
def depthFirstSearch (g : DirectedGraph) (fromNode : INode) (fn : INode → Bool) :
    Except GraphError (Option INode) := do
  let (found, _) ← depthFirstSearchRecursive g fn (g.getNodes.length + 1) fromNode []
  return found

/-- The body of the inner loop of `handleCycles`. -/
def handleCycle (g : DirectedGraph) (trigger startNode : INode) (newStartNodes cycle : List INode) :
    Except GraphError (List INode) :=
  if startNode ∈ cycle then do
    match ← depthFirstSearch g trigger (· ∈ cycle) with
    | some firstNode =>
      return addToStartNodes (newStartNodes.filter (· ≠ startNode)) firstNode
    | none => .error .assertion
  else .ok newStartNodes

/-- `handleCycles(graph, startNodes, trigger)`. -/
def handleCycles (g : DirectedGraph) (startNodes : List INode) (trigger : INode) :
    Except GraphError (List INode) := do
  let components ← getStronglyConnectedComponents g
  let cycles := components.filter (1 ≤ ·.length)
  if cycles.length = 0 then return startNodes
  else startNodes.foldlM (fun newStartNodes startNode =>
    cycles.foldlM (handleCycle g trigger startNode) newStartNodes) startNodes

/-! ## The search -/

variable {g : DirectedGraph} {fn : INode → Bool} {fuel : Nat} {seen : List INode} {node : INode}

/-- A search returns the first of the nodes that the walk enters and for which the predicate holds,
and has then seen all of them if there is none. -/
def SearchesFor (fn : INode → Bool) (seen met : List INode)
    (result : Except GraphError (Option INode × List INode)) : Prop :=
  ∃ seen', result = .ok (met.find? fn, seen') ∧ (met.find? fn = none → seen' = seen ++ met)

theorem search_found
    {search : INode → List INode → Except GraphError (Option INode × List INode)}
    (cs : List INode) :
    cs.foldlM (searchChild search) (some node, seen) = .ok (some node, seen) := by
  induction cs with
  | nil => rfl
  | cons c cs ih => exact ih

theorem follow_children_prefix {ν : Type} [DecidableEq ν] {children : ν → List ν} {fuel : Nat}
    {visited : List ν} {v : ν} (cs : List ν) (es : List (Event ν)) :
    ∃ rest, followChildren children fuel visited v cs es = es ++ rest := by
  induction cs generalizing es with
  | nil => exact ⟨[], by simp [followChildren]⟩
  | cons c cs ih =>
    rw [followChildren, List.foldl_cons, ← followChildren]
    obtain ⟨rest, hrest⟩ := ih (es ++
      follow children fuel (visited ++ v :: entered es) c ++ [.edge v c])
    exact ⟨_, by rw [hrest, List.append_assoc, List.append_assoc]⟩

/-- The nodes seen are different nodes of the graph, and `fuel` allows for all others. -/
structure Seen (g : DirectedGraph) (fuel : Nat) (seen : List INode) : Prop where
  nodup : seen.Nodup
  inGraph : ∀ x ∈ seen, x ∈ g.getNodes
  fuel : g.getNodes.length < fuel + seen.length

/-- The loop over the children of a node searches what the walk enters from there, when the calls
for the children do. -/
theorem search_children (hg : WellFormed g)
    (hcall : ∀ child seen, g.stores child = true → Seen g fuel seen →
      SearchesFor fn seen (entered (follow (directChildren g) fuel seen child))
        (depthFirstSearchRecursive g fn fuel child seen))
    {cs : List INode} (hcs : ∀ c ∈ cs, g.stores c = true) {es : List (Event INode)}
    (hnone : (entered es).find? fn = none) (hseen : Seen g fuel (seen ++ node :: entered es)) :
    ∃ seen', cs.foldlM (searchChild (depthFirstSearchRecursive g fn fuel))
        (none, seen ++ node :: entered es) =
        .ok ((entered (followChildren (directChildren g) fuel seen node cs es)).find? fn, seen') ∧
      ((entered (followChildren (directChildren g) fuel seen node cs es)).find? fn = none →
        seen' = seen ++
          node :: entered (followChildren (directChildren g) fuel seen node cs es)) := by
  induction cs generalizing es with
  | nil => exact ⟨_, by simp [followChildren, hnone, pure, Except.pure], fun _ => rfl⟩
  | cons c cs ih =>
    have hc := hcs c (by simp)
    obtain ⟨seen', hrun, hall⟩ := hcall c _ hc hseen
    rw [List.foldlM_cons, searchChild, hrun, followChildren, List.foldl_cons, ← followChildren]
    generalize hmet : follow (directChildren g) fuel (seen ++ node :: entered es) c = met at *
    show ∃ seen'', cs.foldlM (searchChild (depthFirstSearchRecursive g fn fuel))
      ((entered met).find? fn, seen') = _ ∧ _
    cases hfound : (entered met).find? fn with
    | none =>
      have hmore : (entered (es ++ met ++ [.edge node c])).find? fn = none := by
        simp [List.find?_append, hnone, hfound]
      have heq : seen ++ node :: entered (es ++ met ++ [.edge node c]) = seen' := by
        rw [hall hfound]
        simp
      have hgraph : seen'.Nodup ∧ ∀ x ∈ seen', x ∈ g.getNodes := by
        rw [hall hfound, ← hmet]
        exact follow_visited_nodup (children_closed hg) hseen.nodup hseen.inGraph
          ((mem_get_nodes_iff hg).mpr hc)
      rw [← heq] at hgraph
      rw [← heq]
      refine ih (fun c' hc' => hcs c' (by simp [hc'])) hmore ⟨hgraph.1, hgraph.2, ?_⟩
      have := hseen.fuel
      simp only [entered_append, List.length_append, List.length_cons] at this ⊢
      omega
    | some found =>
      obtain ⟨rest, hrest⟩ : ∃ rest, followChildren (directChildren g) fuel seen node cs
          (es ++ met ++ [.edge node c]) = es ++ met ++ [.edge node c] ++ rest :=
        follow_children_prefix ..
      have hfirst : (entered (es ++ met ++ [.edge node c] ++ rest)).find? fn = some found := by
        simp [List.find?_append, hnone, hfound]
      rw [hrest, hfirst, search_found]
      exact ⟨seen', rfl, by simp⟩

theorem search_performs (hg : WellFormed g) (hnode : g.stores node = true)
    (hseen : Seen g fuel seen) :
    SearchesFor fn seen (entered (follow (directChildren g) fuel seen node))
      (depthFirstSearchRecursive g fn fuel node seen) := by
  induction fuel generalizing node seen with
  | zero =>
    have hle := hseen.nodup.length_le_of_subset hseen.inGraph
    have := hseen.fuel
    omega
  | succ fuel ih =>
    rw [depthFirstSearchRecursive]
    by_cases hmem : node ∈ seen
    · rw [if_pos hmem, follow_visited hmem]
      exact ⟨seen, rfl, by simp⟩
    · rw [if_neg hmem, follow_new hmem]
      by_cases hfn : fn node = true
      · rw [if_pos hfn]
        exact ⟨seen ++ [node], by simp [hfn], by simp [hfn]⟩
      · rw [if_neg hfn, getDirectChildConnections, if_pos hnode]
        have hnode' := (mem_get_nodes_iff hg).mpr hnode
        have hstart : Seen g fuel (seen ++ node :: entered ([] : List (Event INode))) := by
          refine ⟨?_, by simpa [or_imp, forall_and, hnode'] using hseen.inGraph, ?_⟩
          · simpa [List.nodup_append] using ⟨hseen.nodup, fun a ha heq => hmem (heq ▸ ha)⟩
          · have := hseen.fuel
            simp
            omega
        have hcs : ∀ c ∈ directChildren g node, g.stores c = true :=
          fun c hc => direct_children_stored hg hc
        obtain ⟨seen', hrun, hall⟩ :=
          search_children hg (fun child seen hc h => ih hc h) hcs (by simp) hstart
        have hentered : (entered (.enter node :: (followChildren (directChildren g) fuel seen node
            (directChildren g node) [] ++ [.leave node]))).find? fn =
            (entered (followChildren (directChildren g) fuel seen node
              (directChildren g node) [])).find? fn := by
          simp [hfn]
        refine ⟨seen', ?_, fun hnone => ?_⟩
        · rw [hentered, ← hrun]
          rfl
        · rw [hentered] at hnone
          rw [hall hnone]
          simp

theorem depth_first_search_eq (hg : WellFormed g) (hnode : g.stores node = true) :
    depthFirstSearch g node fn = .ok ((walk (directChildren g) g.getNodes node).find? fn) := by
  have hstart : Seen g (g.getNodes.length + 1) [] := ⟨List.nodup_nil, by simp, by simp⟩
  obtain ⟨seen', hrun, _⟩ :
      SearchesFor fn [] (entered (follow (directChildren g) (g.getNodes.length + 1) [] node))
        (depthFirstSearchRecursive g fn (g.getNodes.length + 1) node []) :=
    search_performs hg hnode hstart
  rw [depthFirstSearch, hrun]
  rfl

/-! ## The loops -/

variable {cycles : List (List INode)} {met : List INode} {trigger startNode : INode}

/-- What the loops put in the place of a start node: the first node met of the set that it is in. -/
def entryOf (cycles : List (List INode)) (met : List INode) (startNode : INode) : INode :=
  match cycles.find? (startNode ∈ ·) with
  | some cycle => (met.find? (· ∈ cycle)).getD startNode
  | none => startNode

theorem entry_of_not_mem (h : ∀ cycle ∈ cycles, startNode ∉ cycle) :
    entryOf cycles met startNode = startNode := by
  have hfind : cycles.find? (startNode ∈ ·) = none := by simpa using h
  rw [entryOf, hfind]

theorem entry_of_mem (hunique : ∀ C ∈ cycles, ∀ D ∈ cycles, ∀ x, x ∈ C → x ∈ D → C = D)
    {cycle : List INode} (hcycle : cycle ∈ cycles) (hmem : startNode ∈ cycle)
    (hmet : startNode ∈ met) :
    met.find? (· ∈ cycle) = some (entryOf cycles met startNode) := by
  have hfind : cycles.find? (startNode ∈ ·) = some cycle := by
    cases h : cycles.find? (startNode ∈ ·) with
    | none => exact absurd hmem (by simpa using List.find?_eq_none.mp h cycle hcycle)
    | some other =>
      rw [hunique other (List.mem_of_find?_eq_some h) cycle hcycle startNode
        (by simpa using List.find?_some h) hmem]
  rw [entryOf, hfind]
  cases h : met.find? (· ∈ cycle) with
  | none => exact absurd hmem (by simpa using List.find?_eq_none.mp h startNode hmet)
  | some entry => simp [h]

theorem handle_cycle_loop {entry : INode}
    (hin : ∀ cycle ∈ cycles, startNode ∈ cycle →
      depthFirstSearch g trigger (· ∈ cycle) = .ok (some entry)) (newStartNodes : List INode) :
    ∃ replaced, cycles.foldlM (handleCycle g trigger startNode) newStartNodes = .ok replaced ∧
      ((∀ cycle ∈ cycles, startNode ∉ cycle) → replaced = newStartNodes) ∧
      ((∃ cycle ∈ cycles, startNode ∈ cycle) →
        ∀ x, x ∈ replaced ↔ x ∈ newStartNodes ∧ x ≠ startNode ∨ x = entry) := by
  induction cycles generalizing newStartNodes with
  | nil => exact ⟨newStartNodes, rfl, fun _ => rfl, by simp⟩
  | cons cycle cycles ih =>
    rw [List.foldlM_cons, handleCycle]
    by_cases hmem : startNode ∈ cycle
    · rw [if_pos hmem, hin cycle (by simp) hmem]
      obtain ⟨replaced, hrun, hsame, hmore⟩ := ih (fun C hC => hin C (by simp [hC]))
        (addToStartNodes (newStartNodes.filter (· ≠ startNode)) entry)
      have hadd : ∀ x, x ∈ addToStartNodes (newStartNodes.filter (· ≠ startNode)) entry ↔
          x ∈ newStartNodes ∧ x ≠ startNode ∨ x = entry := by simp [mem_add_to_start_nodes]
      refine ⟨replaced, hrun, fun hnone => absurd hmem (hnone cycle (by simp)), fun _ x => ?_⟩
      by_cases hrest : ∃ C ∈ cycles, startNode ∈ C
      · rw [hmore hrest, hadd]
        -- replacing it once more changes nothing
        constructor
        · rintro (⟨h, _⟩ | h)
          · exact h
          · exact .inr h
        · rintro (⟨hx, hne⟩ | h)
          · exact .inl ⟨.inl ⟨hx, hne⟩, hne⟩
          · exact .inr h
      · rw [hsame fun C hC hmem => hrest ⟨C, hC, hmem⟩, hadd]
    · rw [if_neg hmem]
      obtain ⟨replaced, hrun, hsame, hmore⟩ := ih (fun C hC => hin C (by simp [hC])) newStartNodes
      refine ⟨replaced, hrun, fun hnone => hsame fun C hC => hnone C (by simp [hC]), ?_⟩
      rintro ⟨C, hC, hCmem⟩
      rcases List.mem_cons.mp hC with rfl | hC
      · exact absurd hCmem hmem
      · exact hmore ⟨C, hC, hCmem⟩

theorem no_cycle_loop (startNodes newStartNodes : List INode) :
    startNodes.foldlM (fun newStartNodes startNode =>
      [].foldlM (handleCycle g trigger startNode) newStartNodes) newStartNodes =
        .ok newStartNodes := by
  induction startNodes generalizing newStartNodes with
  | nil => rfl
  | cons s startNodes ih => exact ih newStartNodes

theorem start_node_loop {entry : INode → INode} {startNodes : List INode}
    (hin : ∀ s ∈ startNodes, ∀ cycle ∈ cycles, s ∈ cycle →
      depthFirstSearch g trigger (· ∈ cycle) = .ok (some (entry s)))
    (hout : ∀ s ∈ startNodes, (∀ cycle ∈ cycles, s ∉ cycle) → entry s = s)
    (hself : ∀ s ∈ startNodes, entry s ∈ startNodes → entry (entry s) = entry s)
    (hnodup : startNodes.Nodup) (newStartNodes : List INode)
    (hnew : ∀ s ∈ startNodes, s ∈ newStartNodes) :
    ∃ result, startNodes.foldlM (fun newStartNodes startNode =>
        cycles.foldlM (handleCycle g trigger startNode) newStartNodes) newStartNodes = .ok result ∧
      ∀ x, x ∈ result ↔ x ∈ newStartNodes ∧ x ∉ startNodes ∨ ∃ s ∈ startNodes, x = entry s := by
  induction startNodes generalizing newStartNodes with
  | nil => exact ⟨newStartNodes, rfl, by simp⟩
  | cons s startNodes ih =>
    obtain ⟨hs, hrest⟩ := List.nodup_cons.mp hnodup
    obtain ⟨replaced, hrun, hsame, hmore⟩ := handle_cycle_loop (hin s (by simp)) newStartNodes
    have hreplaced : ∀ x, x ∈ replaced ↔ x ∈ newStartNodes ∧ x ≠ s ∨ x = entry s := by
      by_cases hcycle : ∃ C ∈ cycles, s ∈ C
      · exact hmore hcycle
      · have hnone : ∀ C ∈ cycles, s ∉ C := fun C hC hmem => hcycle ⟨C, hC, hmem⟩
        intro x
        rw [hsame hnone, hout s (by simp) hnone]
        by_cases hx : x = s
        · simp [hx, hnew s (by simp)]
        · simp [hx]
    obtain ⟨result, hall, hresult⟩ := ih (fun s' hs' => hin s' (by simp [hs']))
      (fun s' hs' => hout s' (by simp [hs']))
      (fun s' hs' hmem => hself s' (by simp [hs']) (by simp [hmem])) hrest
      replaced fun s' hs' => (hreplaced s').mpr
        (.inl ⟨hnew s' (by simp [hs']), fun heq => hs (heq ▸ hs')⟩)
    refine ⟨result, by rw [List.foldlM_cons, hrun]; exact hall, fun x => ?_⟩
    rw [hresult, hreplaced]
    constructor
    · rintro (⟨⟨hx, hne⟩ | rfl, hnot⟩ | ⟨s', hs', rfl⟩)
      · exact .inl ⟨hx, by simp [hne, hnot]⟩
      · exact .inr ⟨s, by simp, rfl⟩
      · exact .inr ⟨s', by simp [hs'], rfl⟩
    · rintro (⟨hx, hnot⟩ | ⟨s', hs', rfl⟩)
      · rw [List.mem_cons, not_or] at hnot
        exact .inl ⟨.inl ⟨hx, hnot.1⟩, hnot.2⟩
      · rcases List.mem_cons.mp hs' with rfl | hs'
        · -- an entry that is itself replaced later is put back
          by_cases hmem : entry s' ∈ startNodes
          · exact .inr ⟨entry s', hmem, (hself s' (by simp) (by simp [hmem])).symm⟩
          · exact .inl ⟨.inr rfl, hmem⟩
        · exact .inr ⟨s', hs', rfl⟩

/-! ## One entry for each cycle -/

/-- The nodes in the order in which a depth-first walk from the trigger meets them. -/
abbrev walkFrom (g : DirectedGraph) (trigger : INode) : List INode :=
  walk (directChildren g) g.getNodes trigger

/-- Another node reaches the node and is reached from it. -/
def OnCycle (g : DirectedGraph) (node : INode) : Prop :=
  ∃ other, other ≠ node ∧ Same (directChildren g) node other

/-- The node is the first of the component of `startNode` that a depth-first walk from the trigger
meets. -/
def IsEntry (g : DirectedGraph) (trigger startNode node : INode) : Prop :=
  IsFirst (directChildren g) (walkFrom g trigger) node startNode

/-- The result holds the start nodes on no cycle, one entry for each component with a start node on
a cycle, and nothing else. -/
structure PicksEntries (g : DirectedGraph) (trigger : INode) (startNodes result : List INode) :
    Prop where
  unchanged : ∀ s ∈ startNodes, ¬ OnCycle g s → s ∈ result
  entry : ∀ s ∈ startNodes, OnCycle g s → ∃ e, IsEntry g trigger s e ∧
    ∀ x, x ∈ result ∧ Same (directChildren g) s x ↔ x = e
  only : ∀ x ∈ result, x ∈ startNodes ∧ ¬ OnCycle g x ∨
    ∃ s ∈ startNodes, OnCycle g s ∧ Same (directChildren g) s x

/-- The two nodes are in one set of those that `getStronglyConnectedComponents` returns. -/
def Grouped (g : DirectedGraph) (node other : INode) : Prop :=
  ∃ components, getStronglyConnectedComponents g = .ok components ∧
    ∃ component ∈ components, node ∈ component ∧ other ∈ component

theorem find_idx_le {p : INode → Bool} {e y : INode} (h : met.find? p = some e) (hy : p y = true) :
    met.idxOf e ≤ met.idxOf y := by
  induction met with
  | nil => cases h
  | cons x met ih =>
    by_cases hx : p x = true
    · rw [List.find?_cons_of_pos hx] at h
      cases h
      simp
    · rw [List.find?_cons_of_neg hx] at h
      have he : x ≠ e := fun heq => hx (heq ▸ List.find?_some h)
      have hne : x ≠ y := fun heq => hx (heq ▸ hy)
      rw [List.idxOf_cons_ne _ he, List.idxOf_cons_ne _ hne]
      exact Nat.succ_le_succ (ih h)

theorem exists_entry (trigger startNode : INode) : ∃ e, IsEntry g trigger startNode e := by
  obtain ⟨e, he, hmin⟩ := (measure fun y => (walkFrom g trigger).idxOf y).wf.has_min
    {y | Same (directChildren g) startNode y} ⟨startNode, Same.refl startNode⟩
  exact ⟨e, he, fun y hy => Nat.not_lt.mp (hmin y hy)⟩

theorem entry_unique {s s' e e' : INode} (hmet : s ∈ walkFrom g trigger)
    (hsame : Same (directChildren g) s s') (he : IsEntry g trigger s e)
    (he' : IsEntry g trigger s' e') : e = e' := by
  have hle := he.2 e' (hsame.trans he'.1)
  have hle' := he'.2 e (hsame.symm.trans he.1)
  have hmem : e ∈ walkFrom g trigger :=
    List.idxOf_lt_length_iff.mp (Nat.lt_of_le_of_lt (he.2 s (Same.refl s))
      (List.idxOf_lt_length_of_mem hmet))
  exact (List.idxOf_inj hmem).mp (Nat.le_antisymm hle hle')

theorem handle_cycles_eq (hg : WellFormed g) (htrigger : g.stores trigger = true)
    {startNodes : List INode} (hnodup : startNodes.Nodup)
    (hreach : ∀ s ∈ startNodes, Reach (directChildren g) trigger s) :
    ∃ components result, getStronglyConnectedComponents g = .ok components ∧
      handleCycles g startNodes trigger = .ok result ∧
      (∀ C ∈ components, ∀ D ∈ components, ∀ x, x ∈ C → x ∈ D → C = D) ∧
      (∀ C ∈ components, ∀ x ∈ C, ∀ y ∈ C, Same (directChildren g) x y) ∧
      ∀ x, x ∈ result ↔ ∃ s ∈ startNodes, x = entryOf components (walkFrom g trigger) s := by
  have hclosed := children_closed hg
  have hbounded := traverse_bounded hclosed
  have hunique := fun C hC D hD x hx hx' => hbounded.unique (C := C) (D := D) (x := x) hC hD hx hx'
  have hmet : ∀ s ∈ startNodes, s ∈ walkFrom g trigger := fun s hs =>
    (mem_walk_iff hclosed ((mem_get_nodes_iff hg).mpr htrigger)).mpr (hreach s hs)
  have hscc := scc_eq hg
  have hsame := hbounded.same
  generalize (LowLink.after (traverse (directChildren g) g.getNodes)).components = components at *
  have hentry : ∀ s, s ∈ walkFrom g trigger → ∀ C ∈ components, s ∈ C →
      (walkFrom g trigger).find? (· ∈ C) = some (entryOf components (walkFrom g trigger) s) :=
    fun s hs C hC hmem => entry_of_mem hunique hC hmem hs
  -- the filter of the code keeps all sets that hold a node
  have hcycle : ∀ C s, s ∈ C → (C ∈ components.filter (1 ≤ ·.length) ↔ C ∈ components) := by
    intro C s hmem
    have := List.length_pos_of_mem hmem
    simp only [List.mem_filter, decide_eq_true_eq]
    exact and_iff_left this
  have hout : ∀ s, (∀ C ∈ components.filter (1 ≤ ·.length), s ∉ C) →
      entryOf components (walkFrom g trigger) s = s :=
    fun s h => entry_of_not_mem fun C hC hmem => h C ((hcycle C s hmem).mpr hC) hmem
  have hself : ∀ s ∈ startNodes, entryOf components (walkFrom g trigger) s ∈ startNodes →
      entryOf components (walkFrom g trigger) (entryOf components (walkFrom g trigger) s) =
        entryOf components (walkFrom g trigger) s := by
    intro s hs hmem
    by_cases hex : ∃ C ∈ components, s ∈ C
    · obtain ⟨C, hC, hsC⟩ := hex
      have hfind := hentry s (hmet s hs) C hC hsC
      have hentryC : entryOf components (walkFrom g trigger) s ∈ C := by
        simpa using List.find?_some hfind
      exact Option.some.inj ((hentry _ (hmet _ hmem) C hC hentryC).symm.trans hfind)
    · have hnot : entryOf components (walkFrom g trigger) s = s :=
        entry_of_not_mem fun C hC hsC => hex ⟨C, hC, hsC⟩
      rw [hnot, hnot]
  have hsearch : ∀ s ∈ startNodes, ∀ C ∈ components.filter (1 ≤ ·.length), s ∈ C →
      depthFirstSearch g trigger (· ∈ C) =
        .ok (some (entryOf components (walkFrom g trigger) s)) := by
    intro s hs C hC hmem
    rw [depth_first_search_eq hg htrigger,
      hentry s (hmet s hs) C ((hcycle C s hmem).mp hC) hmem]
  obtain ⟨result, hrun, hresult⟩ :=
    start_node_loop hsearch (fun s _ => hout s) hself hnodup startNodes fun s hs => hs
  refine ⟨components, result, hscc, ?_, hunique, hsame, fun x => ?_⟩
  · rw [handleCycles, hscc]
    show (if (components.filter (1 ≤ ·.length)).length = 0 then Except.ok startNodes else _) = _
    split
    · rename_i hnone
      rw [List.length_eq_zero_iff.mp hnone, no_cycle_loop] at hrun
      exact hrun
    · exact hrun
  · rw [hresult]
    exact or_iff_right fun h => h.2 h.1

/-- `handleCycles` picks one entry for each cycle exactly when every start node on a cycle is the
entry itself or shares with it one of the sets that `getStronglyConnectedComponents` returns. -/
theorem picks_entries_iff (hg : WellFormed g) (htrigger : g.stores trigger = true)
    {startNodes : List INode} (hnodup : startNodes.Nodup)
    (hreach : ∀ s ∈ startNodes, Reach (directChildren g) trigger s) :
    ∃ result, handleCycles g startNodes trigger = .ok result ∧
      (PicksEntries g trigger startNodes result ↔
        ∀ s ∈ startNodes, OnCycle g s → ∀ e, IsEntry g trigger s e → s = e ∨ Grouped g s e) := by
  obtain ⟨components, result, hscc, hrun, hunique, hsame, hresult⟩ :=
    handle_cycles_eq hg htrigger hnodup hreach
  have hmet : ∀ s ∈ startNodes, s ∈ walkFrom g trigger := fun s hs =>
    (mem_walk_iff (children_closed hg) ((mem_get_nodes_iff hg).mpr htrigger)).mpr (hreach s hs)
  -- a start node in a set is replaced by the entry of its component if that is in the set
  have hin : ∀ s ∈ startNodes, ∀ C ∈ components, s ∈ C →
      entryOf components (walkFrom g trigger) s ∈ C ∧
        ∀ e ∈ C, IsEntry g trigger s e → entryOf components (walkFrom g trigger) s = e := by
    intro s hs C hC hsC
    have hfind := entry_of_mem hunique hC hsC (hmet s hs)
    have hmem : entryOf components (walkFrom g trigger) s ∈ C := by
      simpa using List.find?_some hfind
    refine ⟨hmem, fun e heC he => ?_⟩
    have hle := find_idx_le hfind (by simpa using heC)
    have hle' := he.2 _ (hsame C hC s hsC _ hmem)
    exact (List.idxOf_inj (List.mem_of_find?_eq_some hfind)).mp (Nat.le_antisymm hle hle')
  have hsameEntry : ∀ s ∈ startNodes,
      Same (directChildren g) s (entryOf components (walkFrom g trigger) s) := by
    intro s hs
    by_cases hex : ∃ C ∈ components, s ∈ C
    · obtain ⟨C, hC, hsC⟩ := hex
      exact hsame C hC s hsC _ (hin s hs C hC hsC).1
    · rw [entry_of_not_mem fun C hC hsC => hex ⟨C, hC, hsC⟩]
      exact Same.refl s
  have hentry : ∀ s ∈ startNodes, ∀ e, IsEntry g trigger s e →
      (entryOf components (walkFrom g trigger) s = e ↔ s = e ∨ Grouped g s e) := by
    intro s hs e he
    constructor
    · rintro rfl
      by_cases hex : ∃ C ∈ components, s ∈ C
      · obtain ⟨C, hC, hsC⟩ := hex
        exact .inr ⟨components, hscc, C, hC, hsC, (hin s hs C hC hsC).1⟩
      · exact .inl (entry_of_not_mem fun C hC hsC => hex ⟨C, hC, hsC⟩).symm
    · rintro (rfl | ⟨components', hscc', C, hC, hsC, heC⟩)
      · by_cases hex : ∃ C ∈ components, s ∈ C
        · obtain ⟨C, hC, hsC⟩ := hex
          exact (hin s hs C hC hsC).2 s hsC he
        · exact entry_of_not_mem fun C hC hsC => hex ⟨C, hC, hsC⟩
      · cases hscc.symm.trans hscc'
        exact (hin s hs C hC hsC).2 e heC he
  have hoff : ∀ s ∈ startNodes, ¬ OnCycle g s →
      entryOf components (walkFrom g trigger) s = s := by
    intro s hs hnot
    by_contra hne
    exact hnot ⟨_, hne, hsameEntry s hs⟩
  refine ⟨result, hrun, fun h s hs hcycle e he => ?_, fun h => ⟨fun s hs hnot => ?_,
    fun s hs hcycle => ?_, fun x hx => ?_⟩⟩
  · obtain ⟨e', he', hall⟩ := h.entry s hs hcycle
    have hmem : entryOf components (walkFrom g trigger) s ∈ result :=
      (hresult _).mpr ⟨s, hs, rfl⟩
    have heq := (hall _).mp ⟨hmem, hsameEntry s hs⟩
    rw [entry_unique (hmet s hs) (Same.refl s) he' he] at heq
    exact (hentry s hs e he).mp heq
  · exact (hresult s).mpr ⟨s, hs, (hoff s hs hnot).symm⟩
  · obtain ⟨e, he⟩ := exists_entry (g := g) trigger s
    have heq := (hentry s hs e he).mpr (h s hs hcycle e he)
    refine ⟨e, he, fun x => ⟨?_, ?_⟩⟩
    · rintro ⟨hx, hsx⟩
      obtain ⟨s', hs', rfl⟩ := (hresult x).mp hx
      have hss' := hsx.trans (hsameEntry s' hs').symm
      have hcycle' : OnCycle g s' := by
        by_cases hne : s = s'
        · exact hne ▸ hcycle
        · exact ⟨s, hne, hss'.symm⟩
      obtain ⟨e', he'⟩ := exists_entry (g := g) trigger s'
      rw [(hentry s' hs' e' he').mpr (h s' hs' hcycle' e' he')]
      exact (entry_unique (hmet s hs) hss' he he').symm
    · rintro rfl
      exact ⟨(hresult _).mpr ⟨s, hs, heq.symm⟩, he.1⟩
  · obtain ⟨s, hs, rfl⟩ := (hresult x).mp hx
    by_cases hcycle : OnCycle g s
    · exact .inr ⟨s, hs, hcycle, hsameEntry s hs⟩
    · rw [hoff s hs hcycle]
      exact .inl ⟨hs, hcycle⟩

/-- The second node of a loop that is entered at the first. -/
theorem picks_entries_two_node_loop :
    ∃ result, handleCycles twoNodeLoop [{ name := "b" }] { name := "a" } = .ok result ∧
      PicksEntries twoNodeLoop { name := "a" } [{ name := "b" }] result := by
  have hg : WellFormed twoNodeLoop := graph_of_well_formed _
  have hnodes : twoNodeLoop.getNodes = [{ name := "a" }, { name := "b" }] := by decide +kernel
  have hscc : getStronglyConnectedComponents twoNodeLoop =
      .ok [[{ name := "b" }, { name := "a" }]] := by decide +kernel
  have hedge : Reach (directChildren twoNodeLoop) { name := "a" } { name := "b" } :=
    .single (by decide +kernel)
  have htrigger : twoNodeLoop.stores { name := "a" } = true := by decide +kernel
  have hreach : ∀ s ∈ [({ name := "b" } : INode)],
      Reach (directChildren twoNodeLoop) { name := "a" } s := by
    intro s hs
    cases List.mem_singleton.mp hs
    exact hedge
  obtain ⟨result, hrun, hiff⟩ := picks_entries_iff hg htrigger (List.nodup_singleton _) hreach
  refine ⟨result, hrun, hiff.mpr fun s hs _ e he =>
    .inr ⟨_, hscc, _, List.mem_singleton_self _, ?_⟩⟩
  have hall : ∀ x, Reach (directChildren twoNodeLoop) { name := "b" } x →
      x ∈ twoNodeLoop.getNodes := fun x hx => by
    induction hx with
    | refl => decide +kernel
    | tail _ hstep ih => exact children_closed hg _ ih _ hstep
  cases List.mem_singleton.mp hs
  have hmem := hall e he.1.1
  rw [hnodes] at hmem
  exact ⟨by simp, by simpa [or_comm] using hmem⟩

/-- A trigger `t` before a loop in which the middle node is visited before its successor leads
back: `r` leads to `a`, and `a` to `b` and then back to `r`, while `b` leads back to `a`. -/
def lateEntry : DirectedGraph :=
  graphOf (.create [{ name := "t" }, { name := "r" }, { name := "a" }, { name := "b" }]
    (InsertionMap.set (InsertionMap.set (InsertionMap.set (InsertionMap.set .empty
      "t" (InsertionMap.set .empty .main [some [⟨"r", .main, 0⟩]]))
      "r" (InsertionMap.set .empty .main [some [⟨"a", .main, 0⟩]]))
      "a" (InsertionMap.set .empty .main [some [⟨"b", .main, 0⟩, ⟨"r", .main, 0⟩]]))
      "b" (InsertionMap.set .empty .main [some [⟨"a", .main, 0⟩]])) none)

/-- The loop is entered at `r`, but the start node `b` in it is left as it is. -/
theorem late_entry_not_picked : WellFormed lateEntry ∧
    Reach (directChildren lateEntry) { name := "t" } { name := "b" } ∧
    handleCycles lateEntry [{ name := "b" }] { name := "t" } = .ok [{ name := "b" }] ∧
    ¬ PicksEntries lateEntry { name := "t" } [{ name := "b" }] [{ name := "b" }] := by
  have htr : ({ name := "r" } : INode) ∈ directChildren lateEntry { name := "t" } := by
    decide +kernel
  have hra : ({ name := "a" } : INode) ∈ directChildren lateEntry { name := "r" } := by
    decide +kernel
  have hab : ({ name := "b" } : INode) ∈ directChildren lateEntry { name := "a" } := by
    decide +kernel
  have hba : ({ name := "a" } : INode) ∈ directChildren lateEntry { name := "b" } := by
    decide +kernel
  have har : ({ name := "r" } : INode) ∈ directChildren lateEntry { name := "a" } := by
    decide +kernel
  have hloop : Same (directChildren lateEntry) { name := "b" } { name := "r" } :=
    ⟨.head hba (.single har), .head hra (.single hab)⟩
  refine ⟨graph_of_well_formed _, .head htr (.head hra (.single hab)), by decide +kernel,
    fun h => ?_⟩
  obtain ⟨e, he, hall⟩ := h.entry { name := "b" } (by simp) ⟨{ name := "r" }, by decide, hloop⟩
  cases (hall { name := "b" }).mp ⟨by simp, Same.refl _⟩
  have hwalk : walkFrom lateEntry { name := "t" } =
      [{ name := "t" }, { name := "r" }, { name := "a" }, { name := "b" }] := by decide +kernel
  have hle := he.2 { name := "r" } hloop
  rw [hwalk] at hle
  exact absurd hle (by decide)

end N8n.PartialExecution
