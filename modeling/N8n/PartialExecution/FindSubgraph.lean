import N8n.Collections.Fallible
import N8n.Graph.BranchSearch
import N8n.PartialExecution.GraphInvariant

/-!
# The subgraph of a partial execution

`findSubgraph` of
`packages/core/src/execution-engine/partial-execution-utils/find-subgraph.ts`: what is needed to
execute from a trigger to a destination. Its recursion is a backward search of branches over the
main connections; the connections of other types are added for the nodes that it keeps.
-/

namespace N8n.PartialExecution

open Collections
open DirectedGraph
open N8n.Graph

/-- `newGraph.addNodes(connection.from, connection.to); newGraph.addConnection(connection)`. -/
def keepConnection (newGraph : DirectedGraph) (connection : GraphConnection) :
    Except GraphError DirectedGraph :=
  (newGraph.addNodes [connection.fromNode, connection.toNode]).addConnection connection.toInput

/-- `findSubgraphRecursive`, at most `fuel` calls deep. -/
def findSubgraphRecursive (graph : DirectedGraph) (destinationNode trigger : INode) :
    Nat → INode → DirectedGraph → List GraphConnection → Except GraphError DirectedGraph
  | 0, _, _, _ => .error .outOfFuel
  | fuel + 1, current, newGraph, currentBranch =>
    if current = trigger then currentBranch.foldlM keepConnection (newGraph.addNode trigger)
    else do
      let parentConnections ← graph.getDirectParentConnections current
      if parentConnections = [] then .ok newGraph
      else if current = destinationNode ∧ currentBranch.any (·.toNode = destinationNode) then
        .ok newGraph
      else if currentBranch.any (·.toNode = current) then
        currentBranch.foldlM keepConnection newGraph
      else parentConnections.foldlM (fun newGraph parentConnection =>
        -- parents of other types are not part of the control flow
        if parentConnection.type ≠ .main then .ok newGraph
        else findSubgraphRecursive graph destinationNode trigger fuel
          parentConnection.fromNode newGraph (currentBranch ++ [parentConnection])) newGraph

/-- The connections that do not use the main type are added again for each node. -/
def readdParents (graph subgraph : DirectedGraph) (node : INode) :
    Except GraphError DirectedGraph := do
  let parentConnections ← graph.getParentConnections node
  parentConnections.foldlM (fun subgraph connection =>
    if connection.type = .main then .ok subgraph else keepConnection subgraph connection) subgraph

/-- `findSubgraph(options)`. A branch visits no node twice before it ends, so the number of nodes
bounds the depth of the recursion. -/
def findSubgraph (graph : DirectedGraph) (destination trigger : INode) :
    Except GraphError DirectedGraph := do
  let subgraph ← findSubgraphRecursive graph destination trigger (graph.getNodes.length + 1)
    destination .empty []
  subgraph.getNodes.foldlM (readdParents graph) subgraph

/-! ## Parts of a graph -/

/-- A graph made of nodes and connections of another one. -/
structure SubgraphOf (g sub : DirectedGraph) : Prop where
  wf : WellFormed sub
  nodes : ∀ node, sub.stores node = true → g.stores node = true
  connections : ∀ c ∈ sub.connections.values, c ∈ g.connections.values

/-- The parts of a graph: its connections and its nodes. -/
def Holds (g : DirectedGraph) : GraphConnection ⊕ INode → Prop
  | .inl c => c ∈ g.connections.values
  | .inr node => g.stores node = true

/-- The parts that keeping a connection adds. -/
def IsPartOf (c : GraphConnection) : GraphConnection ⊕ INode → Prop
  | .inl c' => c' = c
  | .inr node => node = c.fromNode ∨ node = c.toNode

variable {g sub : DirectedGraph} {node : INode} {c : GraphConnection}

theorem empty_subgraph_of : SubgraphOf g .empty where
  wf := empty_well_formed
  nodes node h := by simp [stores, DirectedGraph.empty] at h
  connections c h := by cases h

theorem connection_eq_of_key {c' : GraphConnection} (hg : WellFormed g)
    (hc : c ∈ g.connections.values) (hc' : c' ∈ g.connections.values)
    (hkey : makeKey c = makeKey c') : c = c' := by
  obtain ⟨key, hfile⟩ := InsertionMap.mem_values_iff.mp hc
  obtain ⟨key', hfile'⟩ := InsertionMap.mem_values_iff.mp hc'
  rw [hg.filed key c hfile, hkey, ← hg.filed key' c' hfile', hfile'] at hfile
  exact (Option.some.inj hfile).symm

theorem node_eq_of_name {node' : INode} (hnode : g.stores node = true)
    (hnode' : g.stores node' = true) (hname : node.name = node'.name) : node = node' := by
  rw [stores_iff] at hnode hnode'
  rw [hname, hnode'] at hnode
  exact (Option.some.inj hnode).symm

theorem add_node_subgraph_of (hsub : SubgraphOf g sub) (hnode : g.stores node = true) :
    SubgraphOf g (sub.addNode node) ∧
      ∀ other, (sub.addNode node).stores other = true ↔ sub.stores other = true ∨ other = node := by
  have hold : ∀ old, sub.nodes.get? node.name = some old → old = node := by
    intro old hget
    have hname := hsub.wf.named _ _ hget
    exact node_eq_of_name (hsub.nodes old (stores_iff.mpr (hname ▸ hget))) hnode hname
  have hstores : ∀ other,
      (sub.addNode node).stores other = true ↔ sub.stores other = true ∨ other = node := by
    intro other
    rw [add_node_stores]
    refine ⟨fun h => ?_, fun h => ?_⟩
    · rcases h with rfl | ⟨_, hother⟩
      · exact .inr rfl
      · exact .inl hother
    · rcases h with hother | rfl
      · by_cases hname : other.name = node.name
        · exact .inl (node_eq_of_name (hsub.nodes other hother) hnode hname)
        · exact .inr ⟨hname, hother⟩
      · exact .inl rfl
  refine ⟨⟨add_node_well_formed hsub.wf fun old hget => .inl (hold old hget), ?_,
    hsub.connections⟩, hstores⟩
  intro other hother
  rcases (hstores other).mp hother with hbefore | rfl
  · exact hsub.nodes other hbefore
  · exact hnode

theorem keep_connection_adds (hg : WellFormed g) (hsub : SubgraphOf g sub)
    (hc : c ∈ g.connections.values) :
    ∃ sub', keepConnection sub c = .ok sub' ∧ SubgraphOf g sub' ∧
      ∀ part, Holds sub' part ↔ Holds sub part ∨ IsPartOf c part := by
  obtain ⟨hfrom, hto⟩ := hg.endpoints c hc
  obtain ⟨hsub₁, hstores₁⟩ := add_node_subgraph_of hsub hfrom
  obtain ⟨hsub₂, hstores₂⟩ := add_node_subgraph_of hsub₁ hto
  have hends : ((sub.addNode c.fromNode).addNode c.toNode).stores c.fromNode = true ∧
      ((sub.addNode c.fromNode).addNode c.toNode).stores c.toNode = true :=
    ⟨(hstores₂ _).mpr (.inl ((hstores₁ _).mpr (.inr rfl))), (hstores₂ _).mpr (.inr rfl)⟩
  refine ⟨((sub.addNode c.fromNode).addNode c.toNode).setConnection c,
    add_connection_eq_ok_iff.mpr ⟨hends, rfl⟩, ⟨?_, ?_, ?_⟩, ?_⟩
  · exact set_connection_well_formed hsub₂.wf hends.1 hends.2
  · exact hsub₂.nodes
  · intro c' hc'
    obtain ⟨key, hkey⟩ := InsertionMap.mem_values_iff.mp hc'
    rw [setConnection, InsertionMap.get_set] at hkey
    split at hkey
    · cases hkey
      exact hc
    · exact hsub₂.connections c' (InsertionMap.mem_values_iff.mpr ⟨key, hkey⟩)
  · intro part
    cases part with
    | inl c' =>
      simp only [Holds, IsPartOf, setConnection, InsertionMap.mem_values_iff,
        InsertionMap.get_set, add_node_connections]
      constructor
      · rintro ⟨key, hkey⟩
        split at hkey
        · exact .inr (Option.some.inj hkey).symm
        · exact .inl ⟨key, hkey⟩
      · rintro (⟨key, hkey⟩ | rfl)
        · refine ⟨key, ?_⟩
          split
          · rename_i heq
            have hc' := hsub.connections c' (InsertionMap.mem_values_iff.mpr ⟨key, hkey⟩)
            have hfiled := hsub.wf.filed key c' hkey
            rw [connection_eq_of_key hg hc hc' (heq.symm.trans hfiled)]
          · exact hkey
        · exact ⟨makeKey c', by simp⟩
    | inr other =>
      change ((sub.addNode c.fromNode).addNode c.toNode).stores other = true ↔
        sub.stores other = true ∨ (other = c.fromNode ∨ other = c.toNode)
      rw [hstores₂, hstores₁, or_assoc]

variable {branch : List GraphConnection}

theorem keep_connections_adds (hg : WellFormed g) (hsub : SubgraphOf g sub)
    (hbranch : ∀ c ∈ branch, c ∈ g.connections.values) :
    ∃ sub', branch.foldlM keepConnection sub = .ok sub' ∧ SubgraphOf g sub' ∧
      ∀ part, Holds sub' part ↔ Holds sub part ∨ ∃ c ∈ branch, IsPartOf c part :=
  foldlM_adds (SubgraphOf g) Holds IsPartOf
    (fun _ hb c hc => keep_connection_adds hg hb (hbranch c hc)) hsub

/-! ## The search -/

/-- The main connections of a graph. -/
def mainGraph (g : DirectedGraph) : Multigraph INode GraphConnection where
  IsEdge c := c ∈ g.connections.values ∧ c.type = .main
  source := GraphConnection.fromNode
  target := GraphConnection.toNode

theorem parent_connections_eq (hnode : g.stores node = true) :
    g.getDirectParentConnections node =
      .ok (g.connections.values.filter (·.toNode = node)) := by
  rw [getDirectParentConnections, if_pos hnode]

/-- The branch of a recursive call: connections of the graph whose targets are different stored
nodes, with a stored node at their end. -/
structure CallOf (g : DirectedGraph) (current : INode) (branch : List GraphConnection) :
    Prop where
  stored : g.stores current = true
  connections : ∀ c ∈ branch, c ∈ g.connections.values
  nodup : (branch.map (·.toNode)).Nodup

theorem branch_length_le (hg : WellFormed g) (h : CallOf g node branch) :
    branch.length ≤ g.getNodes.length := by
  rw [← List.length_map (·.toNode)]
  refine h.nodup.length_le_of_subset fun target htarget => ?_
  obtain ⟨c, hc, rfl⟩ := List.mem_map.mp htarget
  exact (mem_get_nodes_iff hg).mpr (hg.endpoints c (h.connections c hc)).2

variable {trigger destination current : INode}

theorem ends_iff :
    Ends (mainGraph g) trigger destination (current, branch) ↔
      current = trigger ∨ current ≠ destination ∧ branch.any (·.toNode = current) = true := by
  simp [Ends, mainGraph]

theorem up_iff {trigger current : INode} {branch : List GraphConnection}
    {s : INode × List GraphConnection} :
    Up (mainGraph g) trigger (current, branch) s ↔
      current ≠ trigger ∧ branch.any (·.toNode = current) = false ∧
        ∃ c ∈ g.connections.values.filter (·.toNode = current), c.type = .main ∧
          s = (c.fromNode, branch ++ [c]) := by
  simp only [Up, mainGraph, ne_eq, List.any_eq_false, decide_eq_true_eq, List.mem_filter]
  refine and_congr_right fun _ => and_congr_right fun _ => ⟨fun h => ?_, fun h => ?_⟩
  · obtain ⟨c, ⟨hc, hmain⟩, hto, rfl⟩ := h
    exact ⟨c, ⟨hc, hto⟩, hmain, rfl⟩
  · obtain ⟨c, ⟨hc, hto⟩, hmain, rfl⟩ := h
    exact ⟨c, ⟨hc, hmain⟩, hto, rfl⟩

theorem keeps_of_stuck (hstuck : ∀ s, ¬ Up (mainGraph g) trigger (current, branch) s) :
    Keeps (mainGraph g) trigger destination (current, branch) c ↔
      (current = trigger ∨ current ≠ destination ∧ branch.any (·.toNode = current) = true) ∧
        c ∈ branch := by
  rw [keeps_iff, ends_iff]
  refine or_iff_left ?_
  rintro ⟨s, hup, _⟩
  exact hstuck s hup

theorem keeps_of_open (htrigger : current ≠ trigger)
    (hnew : branch.any (·.toNode = current) = false) :
    Keeps (mainGraph g) trigger destination (current, branch) c ↔
      ∃ parent ∈ g.connections.values.filter (·.toNode = current), parent.type = .main ∧
        Keeps (mainGraph g) trigger destination (parent.fromNode, branch ++ [parent]) c := by
  rw [keeps_iff, ends_iff]
  refine ⟨fun h => ?_, fun ⟨parent, hparent, hmain, hkeeps⟩ => ?_⟩
  · rcases h with ⟨hends, _⟩ | ⟨s, hup, hkeeps⟩
    · rcases hends with heq | ⟨_, hold⟩
      · exact absurd heq htrigger
      · rw [hnew] at hold
        cases hold
    · obtain ⟨_, _, parent, hparent, hmain, rfl⟩ := up_iff.mp hup
      exact ⟨parent, hparent, hmain, hkeeps⟩
  · exact .inr ⟨_, up_iff.mpr ⟨htrigger, hnew, parent, hparent, hmain, rfl⟩, hkeeps⟩

theorem call_of_parent (hg : WellFormed g) (h : CallOf g current branch)
    (hnew : branch.any (·.toNode = current) = false) {parent : GraphConnection}
    (hparent : parent ∈ g.connections.values) (hto : parent.toNode = current) :
    CallOf g parent.fromNode (branch ++ [parent]) where
  stored := (hg.endpoints parent hparent).1
  connections c hc := by
    rw [List.mem_append, List.mem_singleton] at hc
    rcases hc with hc | rfl
    · exact h.connections c hc
    · exact hparent
  nodup := by
    rw [List.map_append]
    refine List.Nodup.append h.nodup (List.nodup_singleton _) fun target hmem hlast => ?_
    obtain ⟨c, hc, rfl⟩ := List.mem_map.mp hmem
    rw [List.map_cons, List.map_nil, List.mem_singleton, hto] at hlast
    simpa [hlast] using List.any_eq_false.mp hnew c hc

theorem keep_branch_adds (hg : WellFormed g) (hcall : CallOf g current branch)
    (hsub : SubgraphOf g sub) :
    ∃ sub', branch.foldlM keepConnection sub = .ok sub' ∧ SubgraphOf g sub' ∧
      ∀ c, c ∈ sub'.connections.values ↔ c ∈ sub.connections.values ∨ c ∈ branch := by
  obtain ⟨sub', hrun, hsub', hparts⟩ := keep_connections_adds hg hsub hcall.connections
  refine ⟨sub', hrun, hsub', fun c => ?_⟩
  have hpart := hparts (.inl c)
  simpa only [Holds, IsPartOf, exists_eq_right'] using hpart

theorem find_recursive_adds (hg : WellFormed g) (destination trigger : INode) {fuel : Nat}
    (hcall : CallOf g current branch) (hfuel : g.getNodes.length < fuel + branch.length)
    (hsub : SubgraphOf g sub) :
    ∃ sub', findSubgraphRecursive g destination trigger fuel current sub branch = .ok sub' ∧
      SubgraphOf g sub' ∧ ∀ c, c ∈ sub'.connections.values ↔ c ∈ sub.connections.values ∨
        Keeps (mainGraph g) trigger destination (current, branch) c := by
  induction fuel generalizing current branch sub with
  | zero =>
    have := branch_length_le hg hcall
    omega
  | succ fuel ih =>
    unfold findSubgraphRecursive
    by_cases htrigger : current = trigger
    · rw [if_pos htrigger]
      have hstart := (add_node_subgraph_of hsub (htrigger ▸ hcall.stored)).1
      obtain ⟨sub', hrun, hsub', hconn⟩ := keep_branch_adds hg hcall hstart
      refine ⟨sub', hrun, hsub', fun c => (hconn c).trans (or_congr_right ?_)⟩
      rw [keeps_of_stuck fun s hup => (up_iff.mp hup).1 htrigger]
      simp [htrigger]
    rw [if_neg htrigger, parent_connections_eq hcall.stored]
    show ∃ sub', (if g.connections.values.filter (·.toNode = current) = [] then _ else _) =
      Except.ok sub' ∧ _
    by_cases hold : branch.any (·.toNode = current) = true
    · -- the node was visited before, so it has a parent, and the branch ends here
      have hstuck : ∀ s, ¬ Up (mainGraph g) trigger (current, branch) s := by
        intro s hup
        rw [(up_iff.mp hup).2.1] at hold
        cases hold
      have hparents : g.connections.values.filter (·.toNode = current) ≠ [] := by
        obtain ⟨c, hc, hto⟩ := List.any_eq_true.mp hold
        exact List.ne_nil_of_mem (List.mem_filter.mpr ⟨hcall.connections c hc, hto⟩)
      rw [if_neg hparents]
      by_cases hdest : current = destination
      · rw [if_pos ⟨hdest, hdest ▸ hold⟩]
        refine ⟨sub, rfl, hsub, fun c => (or_iff_left ?_).symm⟩
        rw [keeps_of_stuck hstuck]
        exact fun h => h.1.elim htrigger fun h' => h'.1 hdest
      · rw [if_neg fun h => hdest h.1, if_pos hold]
        obtain ⟨sub', hrun, hsub', hconn⟩ := keep_branch_adds hg hcall hsub
        refine ⟨sub', hrun, hsub', fun c => (hconn c).trans (or_congr_right ?_)⟩
        rw [keeps_of_stuck hstuck]
        simp [hold, hdest]
    · have hnew : branch.any (·.toNode = current) = false := Bool.not_eq_true _ ▸ hold
      by_cases hparents : g.connections.values.filter (·.toNode = current) = []
      · rw [if_pos hparents]
        refine ⟨sub, rfl, hsub, fun c => (or_iff_left ?_).symm⟩
        rw [keeps_of_open htrigger hnew, hparents]
        simp
      · have hdest : ¬ (current = destination ∧
            branch.any (·.toNode = destination) = true) := fun h => hold (h.1 ▸ h.2)
        rw [if_neg hparents, if_neg hdest, if_neg hold]
        have hstep : ∀ start, SubgraphOf g start →
            ∀ parent ∈ g.connections.values.filter (·.toNode = current),
            ∃ sub', (if parent.type ≠ .main then .ok start
              else findSubgraphRecursive g destination trigger fuel parent.fromNode start
                (branch ++ [parent])) = Except.ok sub' ∧ SubgraphOf g sub' ∧
              ∀ c, c ∈ sub'.connections.values ↔ c ∈ start.connections.values ∨
                parent.type = .main ∧ Keeps (mainGraph g) trigger destination
                  (parent.fromNode, branch ++ [parent]) c := by
          intro start hstart parent hparent
          obtain ⟨hmem, hto⟩ := List.mem_filter.mp hparent
          by_cases hmain : parent.type = .main
          · rw [if_neg (not_not.mpr hmain)]
            have hnext := call_of_parent hg hcall hnew hmem (of_decide_eq_true hto)
            obtain ⟨sub', hrun, hsub', hconn⟩ := ih hnext (by simp; omega) hstart
            exact ⟨sub', hrun, hsub', fun c => by simp [hconn c, hmain]⟩
          · exact ⟨start, if_pos hmain, hstart, fun c => by simp [hmain]⟩
        obtain ⟨sub', hrun, hsub', hconn⟩ := foldlM_adds (SubgraphOf g)
          (fun sub c => c ∈ sub.connections.values) (fun parent c => parent.type = .main ∧
            Keeps (mainGraph g) trigger destination (parent.fromNode, branch ++ [parent]) c)
          hstep hsub
        refine ⟨sub', hrun, hsub', fun c => (hconn c).trans (or_congr_right ?_)⟩
        rw [keeps_of_open htrigger hnew]

/-! ## Parent connections -/

/-- A connection of any type leads from the first node to the second. -/
def Feeds (g : DirectedGraph) (a b : INode) : Prop :=
  ∃ c ∈ g.connections.values, c.fromNode = a ∧ c.toNode = b

/-- What a call of `getParentConnectionsRecursive` for a node makes of the connections that were
collected before: the new ones lead to the node, and the parents of their sources are in. -/
structure Collected (g : DirectedGraph) (node : INode) (before after : List GraphConnection) :
    Prop where
  kept : ∀ c ∈ before, c ∈ after
  nodup : after.Nodup
  stored : ∀ c ∈ after, c ∈ g.connections.values
  leads : ∀ c ∈ after, c ∉ before → Relation.ReflTransGen (Feeds g) c.toNode node
  closed : ∀ c ∈ after, c ∉ before → ∀ c' ∈ g.connections.values, c'.toNode = c.fromNode →
    c' ∈ after

variable {seen : List GraphConnection}

theorem collected_refl (hnodup : seen.Nodup) (hstored : ∀ c ∈ seen, c ∈ g.connections.values) :
    Collected g node seen seen :=
  ⟨fun _ hc => hc, hnodup, hstored, fun _ hc hnew => absurd hc hnew,
    fun _ hc hnew => absurd hc hnew⟩

theorem collected_trans {before middle after : List GraphConnection}
    (h : Collected g node before middle) (h' : Collected g node middle after) :
    Collected g node before after where
  kept c hc := h'.kept c (h.kept c hc)
  nodup := h'.nodup
  stored := h'.stored
  leads c hc hnew := by
    by_cases hmid : c ∈ middle
    · exact h.leads c hmid hnew
    · exact h'.leads c hc hmid
  closed c hc hnew c' hc' hto := by
    by_cases hmid : c ∈ middle
    · exact h'.kept c' (h.closed c hmid hnew c' hc' hto)
    · exact h'.closed c hc hmid c' hc' hto

theorem collected_parent {before after : List GraphConnection} (hc : c ∈ g.connections.values)
    (hto : c.toNode = node) (h : Collected g c.fromNode (before ++ [c]) after)
    (hparents : ∀ c' ∈ g.connections.values, c'.toNode = c.fromNode → c' ∈ after) :
    Collected g node before after where
  kept c' hc' := h.kept c' (by simp [hc'])
  nodup := h.nodup
  stored := h.stored
  leads c' hc' hnew := by
    by_cases heq : c' = c
    · rw [heq, hto]
    · exact (h.leads c' hc' (by simp [hnew, heq])).tail ⟨c, hc, rfl, hto⟩
  closed c' hc' hnew := by
    by_cases heq : c' = c
    · rw [heq]
      exact hparents
    · exact h.closed c' hc' (by simp [hnew, heq])

/-- A call for the node succeeds and collects its parent connections. -/
def Collects (g : DirectedGraph) (node : INode) (seen : List GraphConnection)
    (result : Except GraphError (List GraphConnection)) : Prop :=
  ∃ after, result = .ok after ∧ Collected g node seen after ∧
    ∀ c ∈ g.connections.values, c.toNode = node → c ∈ after

/-- The loop over parent connections of a node collects all of them, when the recursive calls
with more connections than at the start collect. -/
theorem parents_loop_collected (hg : WellFormed g)
    {call : INode → List GraphConnection → Except GraphError (List GraphConnection)}
    {todo : List GraphConnection} (htodo : ∀ c ∈ todo, c ∈ g.connections.values ∧ c.toNode = node)
    (hnodup : seen.Nodup) (hstored : ∀ c ∈ seen, c ∈ g.connections.values)
    (hcall : ∀ node seen', g.stores node = true → seen'.Nodup →
      (∀ c ∈ seen', c ∈ g.connections.values) → seen.length < seen'.length →
      Collects g node seen' (call node seen')) :
    ∃ after, todo.foldlM (fun connections connection =>
        if connection ∈ connections then .ok connections
        else call connection.fromNode (connections ++ [connection])) seen = .ok after ∧
      Collected g node seen after ∧ ∀ c ∈ todo, c ∈ after := by
  induction todo generalizing seen with
  | nil => exact ⟨seen, rfl, collected_refl hnodup hstored, by simp⟩
  | cons c rest ih =>
    obtain ⟨hc, hto⟩ := htodo c (by simp)
    have hround : ∃ middle, (if c ∈ seen then .ok seen else call c.fromNode (seen ++ [c])) =
        Except.ok middle ∧ Collected g node seen middle ∧ c ∈ middle := by
      by_cases hseen : c ∈ seen
      · exact ⟨seen, if_pos hseen, collected_refl hnodup hstored, hseen⟩
      · rw [if_neg hseen]
        have hnodup' : (seen ++ [c]).Nodup :=
          List.Nodup.append hnodup (List.nodup_singleton c) (by simpa using hseen)
        have hstored' : ∀ c' ∈ seen ++ [c], c' ∈ g.connections.values := by
          simpa [or_imp, forall_and, hc] using hstored
        obtain ⟨middle, hrun, hcollected, hparents⟩ :=
          hcall _ _ (hg.endpoints c hc).1 hnodup' hstored' (by simp)
        exact ⟨middle, hrun, collected_parent hc hto hcollected hparents,
          hcollected.kept c (by simp)⟩
    obtain ⟨middle, hrun, hcollected, hin⟩ := hround
    have hlen : seen.length ≤ middle.length := hnodup.length_le_of_subset hcollected.kept
    obtain ⟨after, hrest, hcollected', hall⟩ :=
      ih (fun c' hc' => htodo c' (by simp [hc'])) hcollected.nodup hcollected.stored
        fun node seen' hnode hnodup hstored hlonger =>
          hcall node seen' hnode hnodup hstored (by omega)
    refine ⟨after, ?_, collected_trans hcollected hcollected', ?_⟩
    · rw [List.foldlM_cons, hrun]
      exact hrest
    · simpa [hcollected'.kept c hin] using hall

theorem parent_connections_collected (hg : WellFormed g) {fuel : Nat} (hnode : g.stores node = true)
    (hnodup : seen.Nodup) (hstored : ∀ c ∈ seen, c ∈ g.connections.values)
    (hfuel : g.connections.values.length < fuel + seen.length) :
    Collects g node seen (g.getParentConnectionsRecursive fuel node seen) := by
  induction fuel generalizing node seen with
  | zero =>
    have := hnodup.length_le_of_subset hstored
    omega
  | succ fuel ih =>
    have htodo : ∀ c ∈ g.connections.values.filter (·.toNode = node),
        c ∈ g.connections.values ∧ c.toNode = node := by simp
    obtain ⟨after, hrun, hcollected, hall⟩ := parents_loop_collected hg htodo hnodup hstored
      fun node seen' hnode hnodup hstored hlonger => ih hnode hnodup hstored (by omega)
    refine ⟨after, ?_, hcollected, fun c hc hto => hall c (by simp [hc, hto])⟩
    unfold getParentConnectionsRecursive
    rw [parent_connections_eq hnode]
    exact hrun

theorem get_parent_connections_eq (hg : WellFormed g) (hnode : g.stores node = true) :
    ∃ parents, g.getParentConnections node = .ok parents ∧ ∀ c, c ∈ parents ↔
      c ∈ g.connections.values ∧ Relation.ReflTransGen (Feeds g) c.toNode node := by
  obtain ⟨parents, hrun, hcollected, hdirect⟩ :=
    parent_connections_collected hg hnode List.nodup_nil (by simp)
      (by simp : g.connections.values.length < g.connections.values.length + 1 + [].length)
  refine ⟨parents, hrun, fun c => ⟨fun hc => ?_, fun ⟨hc, hleads⟩ => ?_⟩⟩
  · exact ⟨hcollected.stored c hc, hcollected.leads c hc (by simp)⟩
  · -- every connection into a node from which the given one is fed is collected
    have hall : ∀ a, Relation.ReflTransGen (Feeds g) a node →
        ∀ c ∈ g.connections.values, c.toNode = a → c ∈ parents := by
      intro a ha
      induction ha using Relation.ReflTransGen.head_induction_on with
      | refl => exact hdirect
      | head hstep _ ih =>
        obtain ⟨next, hnext, rfl, hto⟩ := hstep
        exact fun c hc hinto => hcollected.closed next (ih next hnext hto) (by simp) c hc hinto
    exact hall _ hleads c hc rfl

/-! ## The subgraph -/

/-- The parts that are added again for a node: the connections of other types from which it is
fed, and their ends. -/
def ReaddedFor (g : DirectedGraph) (node : INode) (part : GraphConnection ⊕ INode) : Prop :=
  ∃ c ∈ g.connections.values, c.type ≠ .main ∧ Relation.ReflTransGen (Feeds g) c.toNode node ∧
    IsPartOf c part

theorem readd_parents_adds (hg : WellFormed g) (hsub : SubgraphOf g sub)
    (hnode : g.stores node = true) :
    ∃ sub', readdParents g sub node = .ok sub' ∧ SubgraphOf g sub' ∧
      ∀ part, Holds sub' part ↔ Holds sub part ∨ ReaddedFor g node part := by
  obtain ⟨parents, hparents, hmem⟩ := get_parent_connections_eq hg hnode
  have hstep : ∀ start, SubgraphOf g start → ∀ c ∈ parents,
      ∃ sub', (if c.type = .main then .ok start else keepConnection start c) = Except.ok sub' ∧
        SubgraphOf g sub' ∧
        ∀ part, Holds sub' part ↔ Holds start part ∨ c.type ≠ .main ∧ IsPartOf c part := by
    intro start hstart c hc
    by_cases hmain : c.type = .main
    · exact ⟨start, if_pos hmain, hstart, fun part => by simp [hmain]⟩
    · rw [if_neg hmain]
      obtain ⟨sub', hrun, hsub', hparts⟩ := keep_connection_adds hg hstart ((hmem c).mp hc).1
      exact ⟨sub', hrun, hsub', fun part => by simp [hparts, hmain]⟩
  obtain ⟨sub', hrun, hsub', hparts⟩ := foldlM_adds (SubgraphOf g) Holds
    (fun c part => c.type ≠ .main ∧ IsPartOf c part) hstep hsub
  refine ⟨sub', ?_, hsub', fun part => (hparts part).trans (or_congr_right ?_)⟩
  · unfold readdParents
    rw [hparents]
    exact hrun
  · simp only [ReaddedFor, hmem]
    refine ⟨fun ⟨c, ⟨hc, hleads⟩, hmain, hpart⟩ => ⟨c, hc, hmain, hleads, hpart⟩,
      fun ⟨c, hc, hmain, hleads, hpart⟩ => ⟨c, ⟨hc, hleads⟩, hmain, hpart⟩⟩

/-- `findSubgraph` succeeds: its main connections are those that the search keeps, and every
connection of another type into one of its nodes is in it, with the source. -/
theorem find_subgraph_parts (hg : WellFormed g) (trigger : INode)
    (hdest : g.stores destination = true) :
    ∃ sub, findSubgraph g destination trigger = .ok sub ∧
      (∀ c, c.type = .main → (c ∈ sub.connections.values ↔
        Keeps (mainGraph g) trigger destination (destination, []) c)) ∧
      ∀ c ∈ g.connections.values, c.type ≠ .main → sub.stores c.toNode = true →
        c ∈ sub.connections.values ∧ sub.stores c.fromNode = true := by
  have hcall : CallOf g destination [] := ⟨hdest, by simp, List.nodup_nil⟩
  obtain ⟨found, hfound, hpart, hkeeps⟩ := find_recursive_adds hg destination trigger hcall
    (by simp : g.getNodes.length < g.getNodes.length + 1 + _) empty_subgraph_of
  obtain ⟨sub, hrun, _, hparts⟩ := foldlM_adds (SubgraphOf g) Holds (ReaddedFor g)
    (fun start hstart node hnode => readd_parents_adds hg hstart
      (hpart.nodes node ((mem_get_nodes_iff hpart.wf).mp hnode))) hpart
  simp only [mem_get_nodes_iff hpart.wf] at hparts
  refine ⟨sub, ?_, fun c hmain => ?_, fun c hc hmain hto => ?_⟩
  · unfold findSubgraph
    rw [hfound]
    exact hrun
  · have hnone : ¬ ∃ node, found.stores node = true ∧ ReaddedFor g node (.inl c) := by
      rintro ⟨node, _, c', _, hother, _, rfl⟩
      exact hother hmain
    have hconn := (hparts (.inl c)).trans (or_iff_left hnone)
    rw [show Holds found (.inl c) ↔ _ from hkeeps c] at hconn
    simpa [Holds, DirectedGraph.empty, InsertionMap.values] using hconn
  · -- the target feeds a node that the search found
    obtain ⟨node, hnode, hleads⟩ : ∃ node, found.stores node = true ∧
        Relation.ReflTransGen (Feeds g) c.toNode node := by
      rcases (hparts (.inr c.toNode)).mp hto with hold | ⟨node, hnode, c', hc', _, hleads, hend⟩
      · exact ⟨_, hold, .refl⟩
      · rcases hend with hfrom | hto'
        · exact ⟨node, hnode, .head ⟨c', hc', hfrom.symm, rfl⟩ hleads⟩
        · exact ⟨node, hnode, hto' ▸ hleads⟩
    exact ⟨(hparts (.inl c)).mpr (.inr ⟨node, hnode, c, hc, hmain, hleads, rfl⟩),
      (hparts (.inr c.fromNode)).mpr (.inr ⟨node, hnode, c, hc, hmain, hleads, .inl rfl⟩)⟩

/-- A connection of another type than main leads from the first node to the second. -/
def Supports (g : DirectedGraph) (a b : INode) : Prop :=
  ∃ c ∈ g.connections.values, c.type ≠ .main ∧ c.fromNode = a ∧ c.toNode = b

/-- `findSubgraph` keeps exactly the main connections on passages from the trigger to the
destination, and for every kept node the connections of other types that support it. -/
def KeepsWhatIsNeeded (g : DirectedGraph) (destination trigger : INode) : Prop :=
  ∃ sub, findSubgraph g destination trigger = .ok sub ∧
    (∀ c, c.type = .main → (c ∈ sub.connections.values ↔
      OnPassage (mainGraph g) trigger destination c)) ∧
    ∀ kept, sub.stores kept = true → ∀ c ∈ g.connections.values, c.type ≠ .main →
      Relation.ReflTransGen (Supports g) c.toNode kept →
        c ∈ sub.connections.values ∧ sub.stores c.fromNode = true

/-- `findSubgraph` keeps exactly what is needed unless a loop of main connections without the
trigger and the destination leads to the destination but is not reached from the trigger. -/
theorem keeps_what_is_needed_iff (hg : WellFormed g) {destination trigger : INode}
    (hdest : g.stores destination = true) :
    KeepsWhatIsNeeded g destination trigger ↔
      (trigger ≠ destination → NoStrayLoop (mainGraph g) trigger destination) := by
  obtain ⟨sub, hrun, hmain, hother⟩ := find_subgraph_parts hg trigger hdest
  rw [← keeps_iff_on_passage]
  refine ⟨fun ⟨sub', hrun', hmain', _⟩ c => ?_, fun h => ⟨sub, hrun, fun c hc => ?_, ?_⟩⟩
  · cases hrun.symm.trans hrun'
    by_cases hc : c.type = .main
    · exact (hmain c hc).symm.trans (hmain' c hc)
    · -- the search and the passages know main connections only
      have hkept : ¬ Keeps (mainGraph g) trigger destination (destination, []) c :=
        fun ⟨s, hvisit, _, hmem⟩ => hc ((visits_is_branch hvisit).edges c hmem).2
      have hpass : ¬ OnPassage (mainGraph g) trigger destination c :=
        fun ⟨walk, hwalk, hmem⟩ => hc (hwalk.edges c hmem).2
      exact iff_of_false hkept hpass
  · exact (hmain c hc).trans (h c)
  · intro kept hkept c hc hnot hleads
    refine hother c hc hnot ?_
    -- along the connections of other types, stored nodes are fed by stored nodes only
    have hstored : ∀ a, Relation.ReflTransGen (Supports g) a kept → sub.stores a = true := by
      intro a ha
      induction ha using Relation.ReflTransGen.head_induction_on with
      | refl => exact hkept
      | head hstep _ ih =>
        obtain ⟨c', hc', hnot', rfl, rfl⟩ := hstep
        exact (hother c' hc' hnot' ih).2
    exact hstored _ hleads

/-- The trigger feeds `a`, which forms a loop with `b` and feeds the destination. -/
def reachedLoop : DirectedGraph :=
  graphOf (.create [{ name := "trigger" }, { name := "a" }, { name := "b" }, { name := "end" }]
    (InsertionMap.set (InsertionMap.set (InsertionMap.set .empty
      "trigger" (InsertionMap.set .empty .main [some [⟨"a", .main, 0⟩]]))
      "a" (InsertionMap.set .empty .main [some [⟨"b", .main, 0⟩, ⟨"end", .main, 0⟩]]))
      "b" (InsertionMap.set .empty .main [some [⟨"a", .main, 0⟩]])) none)

/-- The loop is kept as it is needed. -/
theorem keeps_reached_loop :
    KeepsWhatIsNeeded reachedLoop { name := "end" } { name := "trigger" } := by
  have hg : WellFormed reachedLoop := graph_of_well_formed _
  refine (keeps_what_is_needed_iff hg (by decide +kernel)).mpr fun _ v hloop _ => ?_
  have hedges : ∀ c ∈ reachedLoop.connections.values, c.fromNode ≠ { name := "trigger" } →
      c.fromNode = { name := "a" } ∨ c.fromNode = { name := "b" } := by decide +kernel
  have ha : FromStart (mainGraph reachedLoop) { name := "trigger" } { name := "end" }
      ({ name := "a" } : INode) :=
    @FromStart.step _ _ (mainGraph reachedLoop) { name := "trigger" } { name := "end" }
      ⟨{ name := "trigger" }, { name := "a" }, .main, 0, 0⟩ (by
        refine ⟨?_, rfl⟩
        decide +kernel) .start ⟨by decide, by decide⟩
  obtain ⟨u, ⟨⟨c, ⟨hc, _⟩, hfrom, _⟩, hv, _⟩, _⟩ := Relation.TransGen.head'_iff.mp hloop
  have hsource : c.fromNode = v := hfrom
  rcases hedges c hc (hsource ▸ hv.1) with hname | hname
  · rw [← hsource, hname]
    exact ha
  · rw [← hsource, hname]
    exact @FromStart.step _ _ (mainGraph reachedLoop) { name := "trigger" } { name := "end" }
      ⟨{ name := "a" }, { name := "b" }, .main, 0, 0⟩ (by
        refine ⟨?_, rfl⟩
        decide +kernel) ha ⟨by decide, by decide⟩

/-- The trigger feeds the destination, and so does a loop that the trigger does not reach. -/
def strayLoop : DirectedGraph :=
  graphOf (.create [{ name := "trigger" }, { name := "a" }, { name := "b" }, { name := "end" }]
    (InsertionMap.set (InsertionMap.set (InsertionMap.set .empty
      "trigger" (InsertionMap.set .empty .main [some [⟨"end", .main, 0⟩]]))
      "a" (InsertionMap.set .empty .main [some [⟨"b", .main, 0⟩, ⟨"end", .main, 0⟩]]))
      "b" (InsertionMap.set .empty .main [some [⟨"a", .main, 0⟩]])) none)

/-- The loop is kept although nothing leads to it from the trigger. -/
theorem keeps_stray_loop : WellFormed strayLoop ∧
    strayLoop.stores { name := "end" } = true ∧
    ¬ KeepsWhatIsNeeded strayLoop { name := "end" } { name := "trigger" } := by
  refine ⟨graph_of_well_formed _, by decide +kernel, ?_⟩
  rintro ⟨sub, hrun, hmain, _⟩
  have hkept : (findSubgraph strayLoop { name := "end" } { name := "trigger" }).toOption.any
      (·.connections.values.contains ⟨{ name := "b" }, { name := "a" }, .main, 0, 0⟩) = true := by
    decide +kernel
  rw [hrun] at hkept
  have hpass := (hmain ⟨{ name := "b" }, { name := "a" }, .main, 0, 0⟩ rfl).mp
    (by simpa [Except.toOption] using hkept)
  have hedges : ∀ c ∈ strayLoop.connections.values, c.fromNode = { name := "trigger" } →
      c.toNode = { name := "end" } := by decide +kernel
  have honly : ∀ v, FromStart (mainGraph strayLoop) { name := "trigger" } { name := "end" } v →
      v = { name := "trigger" } := by
    intro v hv
    induction hv with
    | start => rfl
    | @step c hc _ hinner ih => exact absurd (hedges c hc.1 ih) hinner.2
  exact absurd (honly _ (on_passage_iff.mp hpass).2.2.1) (by decide)

end N8n.PartialExecution
