import Mathlib.Data.List.Infix
import Mathlib.Logic.Relation
import N8n.Collections.Fallible
import N8n.Graph.Contraction
import N8n.PartialExecution.GraphInvariant

/-!
# Reachability in the filtered graph

`filterDisabledNodes` contracts the disabled nodes one after the other. The connections that it
makes stand for main paths through disabled nodes, but it files them under keys that different
connections may share. `reachability_preserved`: it preserves reachability when no two connections
share a key while it runs.
-/

namespace N8n.PartialExecution

open Collections DirectedGraph N8n.Graph

/-! ## Filtering disabled nodes

`filterDisabledNodes` keeps the endpoint invariant of graphs when no cycle of main connections
runs through disabled nodes only. With such a cycle, its last node gets a connection to itself
before it is deleted, and that connection stays behind.
-/

/-- A main connection leads from the first node to the second. -/
def MainStep (g : DirectedGraph) (a b : INode) : Prop :=
  ∃ c ∈ g.connections.values, c.type = .main ∧ c.fromNode = a ∧ c.toNode = b

/-- The node is disabled. -/
def IsDisabled (node : INode) : Prop := node.disabled = some true

/-- A main connection between disabled nodes. -/
def DisabledStep (g : DirectedGraph) (a b : INode) : Prop :=
  MainStep g a b ∧ IsDisabled a ∧ IsDisabled b

/-- No cycle of main connections runs through disabled nodes only. -/
def NoDisabledCycle (g : DirectedGraph) : Prop :=
  ∀ node, ¬ Relation.TransGen (DisabledStep g) node node

/-- A walk of main connections whose inner nodes are disabled. -/
inductive DisabledWalk (g : DirectedGraph) : INode → INode → Prop where
  | step {a b : INode} : MainStep g a b → DisabledWalk g a b
  | through {a b c : INode} :
      DisabledWalk g a b → IsDisabled b → DisabledWalk g b c → DisabledWalk g a c

variable {g : DirectedGraph}

theorem disabled_walk_steps {a b : INode} (h : DisabledWalk g a b) (ha : IsDisabled a)
    (hb : IsDisabled b) : Relation.TransGen (DisabledStep g) a b := by
  induction h with
  | step h => exact .single ⟨h, ha, hb⟩
  | through _ hmid _ ih ih' => exact (ih ha hmid).trans (ih' hmid hb)

/-- What the loop of `filterDisabledNodes` keeps about the graph it works on, while `rest` is
left to visit: its main connections stand for walks of the input through disabled nodes. -/
structure Filtering (g : DirectedGraph) (rest : List INode) (filtered : DirectedGraph) :
    Prop where
  wf : WellFormed filtered
  stored : ∀ node ∈ rest, filtered.stores node = true
  walks : ∀ c ∈ filtered.connections.values, c.type = .main → DisabledWalk g c.fromNode c.toNode

theorem filter_node_step {filtered : DirectedGraph} {node : INode} {rest : List INode}
    (hcycle : NoDisabledCycle g) (hnames : ((node :: rest).map (·.name)).Nodup)
    (h : Filtering g (node :: rest) filtered) :
    ∃ filtered', filterNode filtered node = .ok filtered' ∧ Filtering g rest filtered' := by
  obtain ⟨hwf, hstored, hwalks⟩ := h
  by_cases hdisabled : node.disabled = some true
  · have hnode := hstored node (by simp)
    have hloop : ∀ c ∈ filtered.connections.values, c.fromNode = node → c.toNode = node →
        decide (c.type ≠ .main) = true := by
      intro c hc hfrom hto
      rw [decide_eq_true_eq]
      intro hmain
      have hwalk := hwalks c hc hmain
      rw [hfrom, hto] at hwalk
      exact hcycle node (disabled_walk_steps hwalk hdisabled hdisabled)
    obtain ⟨hbypass, hnodes, hmem⟩ := bypass_well_formed hwf node (·.type ≠ .main)
    have huntouched := bypass_untouched hwf hloop
    refine ⟨(filtered.bypass node (·.type ≠ .main)).deleteNode node, ?_, ?_, ?_, ?_⟩
    · unfold filterNode
      rw [if_pos hdisabled, remove_node_reconnect_eq rfl hnode]
      rfl
    · refine delete_node_well_formed hbypass fun old hold => ?_
      have hold' : some old = some node :=
        hold.symm.trans ((congrArg (·.get? node.name) hnodes).trans (stores_iff.mp hnode))
      cases hold'
      exact huntouched
    · intro other hother
      rw [List.map_cons, List.nodup_cons] at hnames
      have hname : other.name ≠ node.name := fun heq =>
        hnames.1 (heq ▸ List.mem_map.mpr ⟨other, hother, rfl⟩)
      rw [stores_iff, deleteNode, InsertionMap.get_delete, if_neg hname, hnodes]
      exact stores_iff.mp (hstored other (by simp [hother]))
    · intro c hc hmain
      rcases hmem c hc with ⟨hold, _⟩ | ⟨i, hi, hito, hiskip, o, ho, hofrom, hoskip, rfl⟩
      · exact hwalks c hold hmain
      · rw [decide_eq_false_iff_not, not_not] at hiskip hoskip
        have hin := hwalks i hi hiskip
        have hout := hwalks o ho hoskip
        rw [hito] at hin
        rw [hofrom] at hout
        exact .through hin hdisabled hout
  · refine ⟨filtered, ?_, hwf, fun other hother => hstored other (by simp [hother]), hwalks⟩
    unfold filterNode
    rw [if_neg hdisabled]
    rfl

theorem filter_nodes_run {filtered : DirectedGraph} {rest : List INode}
    (hcycle : NoDisabledCycle g) (hnames : (rest.map (·.name)).Nodup)
    (h : Filtering g rest filtered) :
    ∃ filtered', rest.foldlM filterNode filtered = .ok filtered' ∧ WellFormed filtered' := by
  induction rest generalizing filtered with
  | nil => exact ⟨filtered, rfl, h.wf⟩
  | cons node rest ih =>
    obtain ⟨next, hnext, hnextInv⟩ := filter_node_step hcycle hnames h
    rw [List.map_cons, List.nodup_cons] at hnames
    obtain ⟨last, hlast, hwf⟩ := ih hnames.2 hnextInv
    refine ⟨last, ?_, hwf⟩
    rw [List.foldlM_cons, hnext]
    exact hlast

/-- `filterDisabledNodes` of a graph without a cycle of disabled nodes succeeds and has the
invariant. -/
theorem filter_disabled_nodes_well_formed (hg : WellFormed g) (hcycle : NoDisabledCycle g) :
    ∃ g', filterDisabledNodes g = .ok g' ∧ WellFormed g' := by
  obtain ⟨copy, hclone, hwf, _, hmem⟩ := clone_well_formed hg
  have hstart : Filtering g copy.getNodes copy :=
    { wf := hwf
      stored := fun node hnode => (mem_get_nodes_iff hwf).mp hnode
      walks := fun c hc hmain => .step ⟨c, hmem c hc, hmain, rfl, rfl⟩ }
  obtain ⟨g', hrun, hwf'⟩ := filter_nodes_run hcycle (get_nodes_names_nodup hwf) hstart
  refine ⟨g', ?_, hwf'⟩
  unfold filterDisabledNodes
  rw [hclone]
  exact hrun

theorem no_disabled_cycle_of_rank (rank : INode → Nat)
    (h : ∀ c ∈ g.connections.values, c.type = .main → rank c.fromNode < rank c.toNode) :
    NoDisabledCycle g := by
  have hup : ∀ a b, Relation.TransGen (DisabledStep g) a b → rank a < rank b := by
    intro a b hab
    induction hab with
    | single hstep =>
      obtain ⟨⟨c, hc, hmain, rfl, rfl⟩, _, _⟩ := hstep
      exact h c hc hmain
    | tail _ hstep ih =>
      obtain ⟨⟨c, hc, hmain, rfl, rfl⟩, _, _⟩ := hstep
      exact Nat.lt_trans ih (h c hc hmain)
  exact fun node hnode => Nat.lt_irrefl _ (hup node node hnode)

/-- The graphs that a run starts from. -/
def IsStart (g : DirectedGraph) : Prop :=
  g = .empty ∨ ∃ w, fromWorkflow w = .ok g

/-- From an empty graph or a workflow, runs of safe operations keep the endpoint invariant and
leave removed nodes without connections; and so does `filterDisabledNodes` on a workflow
without a cycle of disabled nodes. -/
theorem endpoints_kept (start : DirectedGraph) (ops : List Operation) (w : Workflow)
    (g : DirectedGraph) :
    (IsStart start → SafeRun start ops →
      (∀ pre, pre <+: ops → WellFormed (start.run pre)) ∧
        ∀ pre op, pre ++ [op] <+: ops → op.Detaches (start.run (pre ++ [op]))) ∧
      (fromWorkflow w = .ok g → NoDisabledCycle g →
        ∃ g', filterDisabledNodes g = .ok g' ∧ WellFormed g') := by
  refine ⟨fun hstart hsafe => ?_, fun hg hcycle => ?_⟩
  · have hwf : WellFormed start := by
      rcases hstart with rfl | ⟨w, hw⟩
      · exact empty_well_formed
      · exact from_workflow_well_formed hw
    exact run_well_formed hwf hsafe
  · exact filter_disabled_nodes_well_formed (from_workflow_well_formed hg) hcycle

/-- A node, disabled or not, with a position that tells how far right it is. -/
def nodeAt (name : String) (disabled : Bool) (x : Int) : INode :=
  { name, disabled := some disabled, position := (x, 0) }

/-- Connections from the first main output of each node to the first main input of another. -/
def mainChain (pairs : List (String × String)) : IConnections :=
  pairs.foldl (fun result (source, target) =>
    result.set source (InsertionMap.set .empty .main [some [⟨target, .main, 0⟩]])) .empty

/-- Four nodes in a row, the two in the middle disabled. -/
def disabledRow : Workflow :=
  .create [nodeAt "start" false 0, nodeAt "first" true 1, nodeAt "second" true 2,
    nodeAt "end" false 3] (mainChain [("start", "first"), ("first", "second"), ("second", "end")])
    none

/-- Remove the first of the two disabled nodes and reconnect its neighbours. -/
def rowRemoval : List Operation :=
  [.removeNode (nodeAt "first" true 1) { reconnectConnections := true }]

/-- In the graph of the row, removing a node with reconnection is safe, and the row has no cycle
of disabled nodes. -/
theorem endpoints_kept_row :
    ((∀ pre, pre <+: rowRemoval → WellFormed ((graphOf disabledRow).run pre)) ∧
      ∀ pre op, pre ++ [op] <+: rowRemoval →
        op.Detaches ((graphOf disabledRow).run (pre ++ [op]))) ∧
      ∃ g', filterDisabledNodes (graphOf disabledRow) = .ok g' ∧ WellFormed g' := by
  have hrow : fromWorkflow disabledRow = .ok (graphOf disabledRow) := by decide +kernel
  have hkept := endpoints_kept (graphOf disabledRow) rowRemoval disabledRow (graphOf disabledRow)
  refine ⟨hkept.1 (.inr ⟨_, hrow⟩) ?_, hkept.2 hrow ?_⟩
  · refine safe_run_cons ?_ ?_
    · have hloop : ∀ c ∈ (graphOf disabledRow).connections.values,
          c.fromNode = nodeAt "first" true 1 → c.toNode = nodeAt "first" true 1 → False := by
        decide +kernel
      simp only [Operation.Safe, if_true]
      exact fun c hc hfrom hto => (hloop c hc hfrom hto).elim
    · exact fun pre op hpre => absurd (List.prefix_nil.mp hpre) (by simp)
  · refine no_disabled_cycle_of_rank (fun node => node.position.1.toNat) ?_
    decide +kernel

/-- Two disabled nodes that feed each other. -/
def disabledLoop : Workflow :=
  .create [nodeAt "a" true 0, nodeAt "b" true 1] (mainChain [("a", "b"), ("b", "a")]) none

/-- Filtering the two nodes deletes both of them and leaves a connection from the second to
itself. -/
theorem endpoints_lost_loop :
    ∃ g g', fromWorkflow disabledLoop = .ok g ∧ filterDisabledNodes g = .ok g' ∧
      g'.nodes.values = [] ∧ ¬ WellFormed g' := by
  let g' : DirectedGraph :=
    ⟨.empty, InsertionMap.set .empty "b-main-0-0-b"
      ⟨nodeAt "b" true 1, nodeAt "b" true 1, .main, 0, 0⟩⟩
  refine ⟨graphOf disabledLoop, g', by decide +kernel, by decide +kernel, by decide, fun hwf => ?_⟩
  have hends : ∀ c ∈ g'.connections.values, g'.stores c.fromNode = true :=
    fun c hc => (hwf.endpoints c hc).1
  revert hends
  decide +kernel

/-! ## Reachability in the filtered graph -/

/-- The connections of a graph, of which those of the main type are joined. -/
def mainJoining : Joining INode GraphConnection where
  source := (·.fromNode)
  target := (·.toNode)
  joins := fun c => c.type = .main
  join a b := { a with toNode := b.toNode, inputIndex := b.inputIndex }
  source_join _ _ := rfl
  target_join _ _ := rfl
  joins_join _ _ := rfl
  join_assoc _ _ _ := rfl
  join_between _ _ _ := rfl

/-- The nodes that are filtered out, in the order of the graph. -/
def disabledNodes (g : DirectedGraph) : List INode := g.getNodes.filter (·.disabled = some true)

/-- The connections after some of the nodes were contracted. -/
def contracted (g : DirectedGraph) (removed : List INode) : List GraphConnection :=
  mainJoining.contractAll g.connections.values removed

/-- No two of the connections have the same key. -/
def KeysDiffer (cs : List GraphConnection) : Prop :=
  ∀ c ∈ cs, ∀ c' ∈ cs, makeKey c = makeKey c' → c = c'

instance (cs : List GraphConnection) : Decidable (KeysDiffer cs) :=
  inferInstanceAs (Decidable (∀ c ∈ cs, ∀ c' ∈ cs, _))

/-- While the disabled nodes are contracted in the order of the graph, no two connections ever have
the same key. -/
def KeepsKeysApart (g : DirectedGraph) : Prop :=
  ∀ removed, removed <+: disabledNodes g → KeysDiffer (contracted g removed)

instance (g : DirectedGraph) : Decidable (KeepsKeysApart g) :=
  decidable_of_iff (∀ removed ∈ (disabledNodes g).inits, KeysDiffer (contracted g removed)) (by
    simp only [List.mem_inits, KeepsKeysApart])

/-- A main path from an output of one node to an input of another, all intermediate nodes of which
are disabled. -/
inductive DisabledPath (g : DirectedGraph) : INode → Nat → INode → Nat → Prop where
  | connection {u v : INode} {o i : Nat} (h : ⟨u, v, .main, o, i⟩ ∈ g.connections.values) :
      DisabledPath g u o v i
  | step {u w v : INode} {o i' o' i : Nat} (h : ⟨u, w, .main, o, i'⟩ ∈ g.connections.values)
      (hdisabled : IsDisabled w) (hrest : DisabledPath g w o' v i) : DisabledPath g u o v i

/-- The filtered graph has exactly the enabled nodes; its main connections between them are the
main paths through disabled nodes, and its other connections between them are those of the graph. -/
structure PreservesReachability (g filtered : DirectedGraph) : Prop where
  nodes : ∀ node, filtered.stores node = true ↔ g.stores node = true ∧ ¬ IsDisabled node
  main : ∀ u o v i, ¬ IsDisabled u → ¬ IsDisabled v →
    (⟨u, v, .main, o, i⟩ ∈ filtered.connections.values ↔ DisabledPath g u o v i)
  others : ∀ c, c.type ≠ .main → ¬ IsDisabled c.fromNode → ¬ IsDisabled c.toNode →
    (c ∈ filtered.connections.values ↔ c ∈ g.connections.values)

variable {g filtered : DirectedGraph} {node u v w : INode} {o o' i i' : Nat}
  {c : GraphConnection} {removed : List INode}

/-! ## Paths -/

theorem DisabledPath.append (h : DisabledPath g u o w i') (hdisabled : IsDisabled w)
    (h' : DisabledPath g w o' v i) : DisabledPath g u o v i := by
  induction h with
  | connection h => exact .step h hdisabled h'
  | step h hmiddle _ ih => exact .step h hmiddle (ih hdisabled h')

theorem mem_disabled_nodes_iff (hg : WellFormed g) :
    node ∈ disabledNodes g ↔ g.stores node = true ∧ IsDisabled node := by
  rw [disabledNodes, List.mem_filter, mem_get_nodes_iff hg, decide_eq_true_eq, IsDisabled]

theorem disabled_path_iff (hg : WellFormed g) :
    mainJoining.Joined g.connections.values (· ∈ disabledNodes g) ⟨u, v, .main, o, i⟩ ↔
      DisabledPath g u o v i := by
  constructor
  · intro h
    have hgen : ∀ c, mainJoining.Joined g.connections.values (· ∈ disabledNodes g) c →
        DisabledPath g c.fromNode c.outputIndex c.toNode c.inputIndex := by
      intro c h
      induction h with
      | @edge c hc hmain =>
        obtain ⟨fromNode, toNode, type, outputIndex, inputIndex⟩ := c
        cases of_decide_eq_true hmain
        exact .connection hc
      | @join a b _ _ hlink hinner iha ihb =>
        have hlink : a.toNode = b.fromNode := hlink
        exact iha.append ((mem_disabled_nodes_iff hg).mp hinner).2 (hlink ▸ ihb)
    exact hgen _ h
  · intro h
    induction h with
    | connection h => exact .edge h rfl
    | @step u w v o i' o' i h hdisabled _ ih =>
      have hstored : g.stores w = true := (hg.endpoints _ h).2
      exact .join (.edge h rfl) ih rfl ((mem_disabled_nodes_iff hg).mpr ⟨hstored, hdisabled⟩)

/-! ## The loop -/

/-- The loop has contracted the nodes: the graph that it works on holds their connections, each
under its key, and the other nodes. -/
structure HasContracted (g : DirectedGraph) (removed : List INode) (filtered : DirectedGraph) :
    Prop where
  filed : ∀ key c, filtered.connections.get? key = some c → key = makeKey c
  connections : ∀ c, c ∈ filtered.connections.values ↔ c ∈ contracted g removed
  stored : ∀ node, filtered.stores node = true ↔ g.stores node = true ∧ node ∉ removed

theorem mem_set_connection_iff (hfiled : ∀ key c, g.connections.get? key = some c → key = makeKey c)
    (hkey : ∀ c' ∈ g.connections.values, makeKey c' = makeKey c → c' = c) {c' : GraphConnection} :
    c' ∈ (g.setConnection c).connections.values ↔ c' ∈ g.connections.values ∨ c' = c := by
  rw [InsertionMap.mem_values_iff]
  simp only [setConnection, InsertionMap.get_set]
  constructor
  · rintro ⟨key, hget⟩
    split at hget
    · cases hget
      exact .inr rfl
    · exact .inl (InsertionMap.mem_values_iff.mpr ⟨key, hget⟩)
  · rintro (hmem | rfl)
    · by_cases heq : makeKey c' = makeKey c
      · exact ⟨makeKey c, by rw [if_pos rfl, hkey c' hmem heq]⟩
      · obtain ⟨key, hget⟩ := InsertionMap.mem_values_iff.mp hmem
        refine ⟨key, ?_⟩
        rwa [if_neg (hfiled key c' hget ▸ heq)]
    · exact ⟨makeKey c', if_pos rfl⟩

theorem set_connection_filed
    (hfiled : ∀ key c, g.connections.get? key = some c → key = makeKey c) (key : String)
    (c' : GraphConnection) (h : (g.setConnection c).connections.get? key = some c') :
    key = makeKey c' := by
  rw [setConnection, InsertionMap.get_set] at h
  split at h
  · rename_i heq
    cases h
    exact heq
  · exact hfiled key c' h

theorem mem_set_connections_iff (cs : List GraphConnection)
    (hfiled : ∀ key c, g.connections.get? key = some c → key = makeKey c)
    (hkeys : KeysDiffer (g.connections.values ++ cs)) :
    (∀ key c, (cs.foldl setConnection g).connections.get? key = some c → key = makeKey c) ∧
      ∀ c, c ∈ (cs.foldl setConnection g).connections.values ↔
        c ∈ g.connections.values ∨ c ∈ cs := by
  obtain ⟨⟨hfiled', -⟩, hmem⟩ := foldl_adds
    (fun f : DirectedGraph => (∀ key c, f.connections.get? key = some c → key = makeKey c) ∧
      ∀ c ∈ f.connections.values, c ∈ g.connections.values ++ cs)
    (fun f c => c ∈ f.connections.values) (fun c c' => c' = c) (l := cs) (fun f hf c hc => by
      obtain ⟨hfiled, hsub⟩ := hf
      have hmem : ∀ c', c' ∈ (f.setConnection c).connections.values ↔
          c' ∈ f.connections.values ∨ c' = c := fun c' =>
        mem_set_connection_iff hfiled fun c' hc' heq =>
          hkeys c' (hsub c' hc') c (List.mem_append_right _ hc) heq
      refine ⟨⟨set_connection_filed hfiled, fun c' hc' => ?_⟩, hmem⟩
      rcases (hmem c').mp hc' with hold | rfl
      · exact hsub c' hold
      · exact List.mem_append_right _ hc)
    (b := g) ⟨hfiled, fun c hc => List.mem_append_left cs hc⟩
  exact ⟨hfiled', fun c => (hmem c).trans (or_congr_right (by simp))⟩

theorem set_connections_nodes (cs : List GraphConnection) (g : DirectedGraph) :
    (cs.foldl setConnection g).nodes = g.nodes := by
  induction cs generalizing g with
  | nil => rfl
  | cons c rest ih => exact ih (g.setConnection c)

/-- The connections after one more node is contracted: those that do not touch it, and the joined
ones. -/
theorem mem_contracted_snoc (h : HasContracted g removed filtered) :
    c ∈ contracted g (removed ++ [node]) ↔
      c ∈ (filtered.disconnect node).connections.values ∨
        c ∈ reconnect (·.type ≠ .main) (filtered.connections.values.filter (·.toNode = node))
          (filtered.connections.values.filter (·.fromNode = node)) := by
  rw [contracted, Joining.contract_all_snoc, Joining.mem_contract_iff, mem_disconnect_iff,
    mem_reconnect_iff]
  refine or_congr ?_ ?_
  · rw [h.connections, GraphConnection.touches, Bool.or_eq_false_iff, decide_eq_false_iff_not,
      decide_eq_false_iff_not]
    exact and_congr_right fun _ => And.comm
  · simp only [List.mem_filter, h.connections, decide_eq_true_eq, decide_eq_false_iff_not, ne_eq,
      not_not, mainJoining, and_assoc, contracted]

theorem filter_node_contracts (h : HasContracted g removed filtered)
    (hstored : g.stores node = true) (hnew : node ∉ removed) (hdisabled : IsDisabled node)
    (hkeys : KeysDiffer (contracted g (removed ++ [node]))) :
    ∃ filtered', filterNode filtered node = .ok filtered' ∧
      HasContracted g (removed ++ [node]) filtered' := by
  have hnode : filtered.stores node = true := (h.stored node).mpr ⟨hstored, hnew⟩
  refine ⟨(filtered.bypass node (·.type ≠ .main)).deleteNode node, ?_, ?_⟩
  · unfold filterNode
    rw [if_pos (show node.disabled = some true from hdisabled), remove_node_reconnect_eq rfl hnode]
    rfl
  · obtain ⟨hfiled, hmem⟩ := mem_set_connections_iff (g := filtered.disconnect node)
      (reconnect (·.type ≠ .main) (filtered.connections.values.filter (·.toNode = node))
        (filtered.connections.values.filter (·.fromNode = node)))
      (fun key c hget => h.filed key c (InsertionMap.get_filter_eq_some_iff.mp hget).1)
      fun c hc c' hc' heq => hkeys c ((mem_contracted_snoc h).mpr (List.mem_append.mp hc)) c'
        ((mem_contracted_snoc h).mpr (List.mem_append.mp hc')) heq
    refine ⟨hfiled, fun c => (hmem c).trans (mem_contracted_snoc h).symm, fun other => ?_⟩
    rw [stores_iff, deleteNode, InsertionMap.get_delete, bypass, set_connections_nodes,
      List.mem_append, List.mem_singleton, not_or, ← and_assoc, ← h.stored]
    split
    · -- the name is that of the contracted node, which is the one stored under it
      rename_i hname
      refine ⟨(fun hget => by cases hget), ?_⟩
      rintro ⟨hother, hne⟩
      rw [stores_iff] at hother hnode
      rw [hname, hnode] at hother
      exact absurd (Option.some.inj hother).symm hne
    · rename_i hname
      rw [disconnect, ← stores_iff]
      exact ⟨fun hother => ⟨hother, fun heq => hname (heq ▸ rfl)⟩, And.left⟩

theorem filter_nodes_contract {nodes : List INode} (hnodes : nodes <+: g.getNodes)
    (hnodup : g.getNodes.Nodup) (hg : WellFormed g) (hkeys : KeepsKeysApart g)
    (h : HasContracted g [] filtered) :
    ∃ filtered', nodes.foldlM filterNode filtered = .ok filtered' ∧
      HasContracted g (nodes.filter (·.disabled = some true)) filtered' := by
  induction nodes using List.reverseRecOn with
  | nil => exact ⟨filtered, rfl, h⟩
  | append_singleton nodes node ih =>
    obtain ⟨middle, hmiddle, hcontracted⟩ := ih ((List.prefix_append nodes [node]).trans hnodes)
    have hstored : g.stores node = true :=
      (mem_get_nodes_iff hg).mp (hnodes.subset (by simp))
    have hnew : node ∉ nodes := by
      have hlast := (List.nodup_append.mp (hnodes.sublist.nodup hnodup)).2.2
      exact fun hmem => hlast node hmem node (by simp) rfl
    by_cases hdisabled : node.disabled = some true
    · have hfilter : (nodes ++ [node]).filter (·.disabled = some true) =
          nodes.filter (·.disabled = some true) ++ [node] := by simp [hdisabled]
      obtain ⟨filtered', hlast, hcontracted'⟩ := filter_node_contracts hcontracted hstored
        (fun hmem => hnew (List.mem_filter.mp hmem).1) hdisabled
        (hfilter ▸ hkeys _ (hnodes.filter _))
      exact ⟨filtered', foldlM_snoc_eq_ok.mpr ⟨middle, hmiddle, hlast⟩, hfilter ▸ hcontracted'⟩
    · refine ⟨middle, foldlM_snoc_eq_ok.mpr ⟨middle, hmiddle, ?_⟩, by simpa [hdisabled]⟩
      unfold filterNode
      rw [if_neg hdisabled]
      rfl

theorem add_nodes_get_nodes {nodes : List INode} (hnames : (nodes.map (·.name)).Nodup) :
    (empty.addNodes nodes).getNodes = nodes := by
  induction nodes using List.reverseRecOn with
  | nil => rfl
  | append_singleton nodes node ih =>
    rw [List.map_append, List.nodup_append] at hnames
    obtain ⟨hnames, -, hlast⟩ := hnames
    have hwf := (add_nodes_well_formed nodes empty_well_formed rfl).1
    have hnew : node.name ∉ (empty.addNodes nodes).nodes.keys := by
      intro hmem
      obtain ⟨other, hget⟩ := InsertionMap.mem_keys_iff.mp hmem
      have hother : other ∈ nodes := ih hnames ▸ InsertionMap.mem_values_iff.mpr ⟨_, hget⟩
      exact hlast other.name (List.mem_map_of_mem hother) node.name (by simp)
        (hwf.named _ _ hget)
    have hadd : empty.addNodes (nodes ++ [node]) = (empty.addNodes nodes).addNode node := by
      rw [addNodes, List.foldl_append]
      rfl
    have hvalues : ((empty.addNodes nodes).addNode node).getNodes =
        (empty.addNodes nodes).getNodes ++ [node] := by
      simp [addNode, getNodes, InsertionMap.set, InsertionMap.values, hnew]
    rw [hadd, hvalues, ih hnames]

theorem clone_has_contracted (hg : WellFormed g) (hkeys : KeysDiffer g.connections.values) :
    ∃ copy, g.clone = .ok copy ∧ copy.getNodes = g.getNodes ∧ HasContracted g [] copy := by
  have hnames := get_nodes_names_nodup hg
  have hstores : ∀ node, (empty.addNodes g.getNodes).stores node = true ↔
      g.stores node = true := by
    intro node
    rw [add_nodes_stores hnames, mem_get_nodes_iff hg]
    simp [stores, empty]
  have hconns : g.getConnections = g.connections.values := by simp [getConnections]
  obtain ⟨hbase, hnone⟩ := add_nodes_well_formed g.getNodes empty_well_formed rfl
  obtain ⟨hfiled, hmem⟩ := mem_set_connections_iff g.getConnections hbase.filed
    (hnone ▸ hconns ▸ hkeys)
  have hnodes := set_connections_nodes g.getConnections (empty.addNodes g.getNodes)
  refine ⟨g.getConnections.foldl setConnection (empty.addNodes g.getNodes),
    add_connections_to_input fun c hc => ?_, ?_, hfiled, fun c => ?_, fun node => ?_⟩
  · rw [hstores, hstores]
    exact hg.endpoints c (hconns ▸ hc)
  · rw [getNodes, hnodes]
    exact add_nodes_get_nodes hnames
  · rw [hmem, hnone, hconns]
    exact or_iff_right List.not_mem_nil
  · rw [stores_iff, hnodes, ← stores_iff, hstores]
    exact (and_iff_left List.not_mem_nil).symm

theorem HasContracted.keys_differ (h : HasContracted g removed filtered) :
    KeysDiffer (contracted g removed) := by
  intro c hc c' hc' heq
  obtain ⟨key, hget⟩ := InsertionMap.mem_values_iff.mp ((h.connections c).mpr hc)
  obtain ⟨key', hget'⟩ := InsertionMap.mem_values_iff.mp ((h.connections c').mpr hc')
  rw [h.filed key c hget, heq, ← h.filed key' c' hget', hget'] at hget
  exact (Option.some.inj hget).symm

/-- The keys stay apart exactly when every prefix of the loop contracts its nodes. -/
theorem keeps_keys_apart_iff (hg : WellFormed g) :
    KeepsKeysApart g ↔ ∀ nodes, nodes <+: g.getNodes → ∃ copy filtered, g.clone = .ok copy ∧
      nodes.foldlM filterNode copy = .ok filtered ∧
        HasContracted g (nodes.filter (·.disabled = some true)) filtered := by
  constructor
  · intro hkeys nodes hnodes
    obtain ⟨copy, hclone, -, hcopy⟩ := clone_has_contracted hg (hkeys [] List.nil_prefix)
    obtain ⟨filtered, hrun, hfiltered⟩ := filter_nodes_contract hnodes
      (List.Nodup.of_map _ (get_nodes_names_nodup hg)) hg hkeys hcopy
    exact ⟨copy, filtered, hclone, hrun, hfiltered⟩
  · intro h removed hremoved
    obtain ⟨nodes, hnodes, rfl⟩ := List.prefix_filter_iff.mp hremoved
    obtain ⟨copy, filtered, -, -, hfiltered⟩ := h nodes hnodes
    exact hfiltered.keys_differ

/-- The row of two disabled nodes between two enabled ones. -/
theorem keeps_keys_apart_row : ∃ copy filtered, (graphOf disabledRow).clone = .ok copy ∧
    (graphOf disabledRow).getNodes.foldlM filterNode copy = .ok filtered ∧
      HasContracted (graphOf disabledRow)
        ((graphOf disabledRow).getNodes.filter (·.disabled = some true)) filtered :=
  (keeps_keys_apart_iff (graph_of_well_formed disabledRow)).mp (by decide +kernel) _
    (List.prefix_refl _)

/-- `filterDisabledNodes` preserves reachability when the keys stay apart. -/
theorem reachability_preserved (hg : WellFormed g) (hkeys : KeepsKeysApart g) :
    ∃ filtered, filterDisabledNodes g = .ok filtered ∧ PreservesReachability g filtered := by
  obtain ⟨copy, hclone, hnodes, hcopy⟩ := clone_has_contracted hg (hkeys [] (List.nil_prefix))
  obtain ⟨filtered, hrun, hfiltered⟩ := filter_nodes_contract (List.prefix_refl _)
    (List.Nodup.of_map _ (get_nodes_names_nodup hg)) hg hkeys hcopy
  have hrun' : filterDisabledNodes g = .ok filtered := by
    unfold filterDisabledNodes
    rw [hclone]
    exact (congrArg (List.foldlM filterNode copy) hnodes).trans hrun
  have henabled : ∀ {node}, ¬ IsDisabled node → node ∉ disabledNodes g :=
    fun h hmem => h ((mem_disabled_nodes_iff hg).mp hmem).2
  refine ⟨filtered, hrun', fun node => ?_, fun u o v i hu hv => ?_, fun c htype hfrom hto => ?_⟩
  · rw [hfiltered.stored]
    refine and_congr_right fun hstored => not_congr ?_
    exact (mem_disabled_nodes_iff hg).trans (and_iff_right hstored)
  · rw [hfiltered.connections, ← disabled_path_iff hg]
    exact Joining.mem_contract_all_iff (List.Nodup.filter _
      (List.Nodup.of_map _ (get_nodes_names_nodup hg))) (henabled hu) (henabled hv) rfl
  · rw [hfiltered.connections]
    refine (Joining.mem_contract_all_iff_of_not_joins (decide_eq_false htype)).trans ?_
    exact and_iff_left ⟨henabled hfrom, henabled hto⟩

/-- The row of two disabled nodes between two enabled ones keeps its keys apart. -/
theorem reachability_preserved_row :
    ∃ filtered, filterDisabledNodes (graphOf disabledRow) = .ok filtered ∧
      PreservesReachability (graphOf disabledRow) filtered :=
  reachability_preserved (graph_of_well_formed disabledRow) (by decide +kernel)

/-- A disabled node between two nodes whose names, joined, look like those of another connection. -/
def dashedRow : Workflow :=
  .create [nodeAt "a" false 0, nodeAt "d" true 1, nodeAt "b-main-0-0-c" false 2,
    nodeAt "a-main-0-0-b" false 3, nodeAt "c" false 4]
    (mainChain [("a", "d"), ("d", "b-main-0-0-c"), ("a-main-0-0-b", "c")]) none

/-- The connection past the disabled node replaces the other one, which has the same key. -/
theorem reachability_lost_dashed :
    ¬ ∀ g, WellFormed g →
      ∃ filtered, filterDisabledNodes g = .ok filtered ∧ PreservesReachability g filtered := by
  intro h
  obtain ⟨filtered, hrun, hpreserves⟩ := h _ (graph_of_well_formed dashedRow)
  have hpath : DisabledPath (graphOf dashedRow) (nodeAt "a-main-0-0-b" false 3) 0
      (nodeAt "c" false 4) 0 := .connection (by decide +kernel)
  have hmem := (hpreserves.main _ _ _ _ (by simp [IsDisabled, nodeAt])
    (by simp [IsDisabled, nodeAt])).mpr hpath
  have hfiltered : (filterDisabledNodes (graphOf dashedRow)).toOption.map
      (·.connections.values) =
        some [⟨nodeAt "a" false 0, nodeAt "b-main-0-0-c" false 2, .main, 0, 0⟩] := by
    decide +kernel
  rw [hrun] at hfiltered
  have hvalues := Option.some.inj hfiltered
  dsimp only at hvalues
  rw [hvalues] at hmem
  revert hmem
  decide +kernel

end N8n.PartialExecution
