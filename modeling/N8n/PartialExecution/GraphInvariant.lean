import Mathlib.Data.List.Induction
import N8n.PartialExecution.DirectedGraph

/-!
# The endpoint invariant of graphs

`WellFormed` says that nodes are filed under their names, that both ends of every connection
are stored, and that connections are filed under their keys. `exec_well_formed` gives, for each
operation, the condition under which it keeps the invariant, and `run_well_formed` carries this
through any sequence of operations.
-/

namespace N8n.PartialExecution

open Collections

/-- The invariant of a graph. -/
structure WellFormed (g : DirectedGraph) : Prop where
  named : ∀ name node, g.nodes.get? name = some node → node.name = name
  endpoints : ∀ c ∈ g.connections.values, g.stores c.fromNode = true ∧ g.stores c.toNode = true
  filed : ∀ key c, g.connections.get? key = some c → key = makeKey c

/-- No connection of the graph touches the node. -/
def Untouched (g : DirectedGraph) (node : INode) : Prop :=
  ∀ c ∈ g.connections.values, c.touches node = false

namespace DirectedGraph

variable {g g' : DirectedGraph} {node : INode}

theorem stores_iff : g.stores node = true ↔ g.nodes.get? node.name = some node := by
  simp [stores]

theorem mem_get_nodes_iff (hg : WellFormed g) : node ∈ g.getNodes ↔ g.stores node = true := by
  rw [getNodes, InsertionMap.mem_values_iff, stores_iff]
  constructor
  · rintro ⟨name, hname⟩
    rwa [hg.named name node hname]
  · exact fun h => ⟨_, h⟩

theorem empty_well_formed : WellFormed empty where
  named _ _ h := by cases h
  endpoints _ h := by cases h
  filed _ _ h := by cases h

@[simp] theorem add_node_connections : (g.addNode node).connections = g.connections := rfl

theorem add_node_stores {other : INode} :
    (g.addNode node).stores other = true ↔
      other = node ∨ other.name ≠ node.name ∧ g.stores other = true := by
  rw [stores_iff, stores_iff, addNode, InsertionMap.get_set]
  split
  · rename_i hname
    constructor
    · intro h
      exact .inl (Option.some.inj h).symm
    · rintro (rfl | ⟨hne, _⟩)
      · rfl
      · exact absurd hname hne
  · rename_i hname
    constructor
    · exact fun h => .inr ⟨hname, h⟩
    · rintro (rfl | ⟨_, h⟩)
      · exact absurd rfl hname
      · exact h

theorem add_node_well_formed (hg : WellFormed g)
    (hsafe : ∀ old, g.nodes.get? node.name = some old → old = node ∨ Untouched g old) :
    WellFormed (g.addNode node) where
  named name other h := by
    rw [addNode, InsertionMap.get_set] at h
    split at h
    · rename_i hname
      cases h
      exact hname.symm
    · exact hg.named name other h
  endpoints c hc := by
    -- an end with the name of the new node was stored, so it is the node that gets replaced
    have hend : ∀ other, g.stores other = true → c.touches other = true →
        (g.addNode node).stores other = true := by
      intro other hother htouch
      rw [add_node_stores]
      by_cases hname : other.name = node.name
      · rcases hsafe other (hname ▸ stores_iff.mp hother) with heq | huntouched
        · exact .inl heq
        · rw [huntouched c hc] at htouch
          cases htouch
      · exact .inr ⟨hname, hother⟩
    obtain ⟨hfrom, hto⟩ := hg.endpoints c hc
    exact ⟨hend _ hfrom (by simp [GraphConnection.touches]),
      hend _ hto (by simp [GraphConnection.touches])⟩
  filed := hg.filed

variable {c : GraphConnection}

theorem set_connection_well_formed (hg : WellFormed g) (hfrom : g.stores c.fromNode = true)
    (hto : g.stores c.toNode = true) :
    WellFormed (g.setConnection c) where
  named := hg.named
  endpoints c' hc' := by
    obtain ⟨key, hkey⟩ := InsertionMap.mem_values_iff.mp hc'
    rw [setConnection, InsertionMap.get_set] at hkey
    split at hkey
    · cases hkey
      exact ⟨hfrom, hto⟩
    · exact hg.endpoints c' (InsertionMap.mem_values_iff.mpr ⟨key, hkey⟩)
  filed key c' hkey := by
    rw [setConnection, InsertionMap.get_set] at hkey
    split at hkey
    · rename_i heq
      cases hkey
      exact heq
    · exact hg.filed key c' hkey

/-- The connection that `addConnection` stores. -/
def inputConnection (input : ConnectionInput) : GraphConnection where
  fromNode := input.fromNode
  toNode := input.toNode
  type := input.type.getD .main
  outputIndex := input.outputIndex.getD 0
  inputIndex := input.inputIndex.getD 0

theorem add_connection_eq_ok_iff {input : ConnectionInput} :
    g.addConnection input = .ok g' ↔
      (g.stores input.fromNode = true ∧ g.stores input.toNode = true) ∧
        g.setConnection (inputConnection input) = g' := by
  unfold addConnection
  split
  · rename_i h
    rw [Bool.and_eq_true] at h
    simp [h, setConnection, inputConnection]
  · rename_i h
    rw [Bool.and_eq_true] at h
    simp [h]

theorem add_connection_well_formed {input : ConnectionInput} (hg : WellFormed g)
    (h : g.addConnection input = .ok g') : WellFormed g' := by
  obtain ⟨⟨hfrom, hto⟩, rfl⟩ := add_connection_eq_ok_iff.mp h
  exact set_connection_well_formed hg hfrom hto

theorem mem_disconnect_iff :
    c ∈ (g.disconnect node).connections.values ↔
      c ∈ g.connections.values ∧ c.touches node = false := by
  simp only [disconnect, InsertionMap.values, InsertionMap.filter_entries, List.mem_map,
    List.mem_filter, Bool.not_eq_true']
  constructor
  · rintro ⟨e, ⟨he, htouch⟩, rfl⟩
    exact ⟨⟨e, he, rfl⟩, htouch⟩
  · rintro ⟨⟨e, he, rfl⟩, htouch⟩
    exact ⟨e, ⟨he, htouch⟩, rfl⟩

theorem disconnect_well_formed (hg : WellFormed g) : WellFormed (g.disconnect node) where
  named := hg.named
  endpoints c hc := hg.endpoints c (mem_disconnect_iff.mp hc).1
  filed key c hkey := hg.filed key c (InsertionMap.get_filter_eq_some_iff.mp hkey).1

theorem delete_node_well_formed (hg : WellFormed g)
    (hsafe : ∀ old, g.nodes.get? node.name = some old → Untouched g old) :
    WellFormed (g.deleteNode node) where
  named name other h := by
    rw [deleteNode, InsertionMap.get_delete] at h
    split at h
    · cases h
    · exact hg.named name other h
  endpoints c hc := by
    have hend : ∀ other, g.stores other = true → c.touches other = true →
        (g.deleteNode node).stores other = true := by
      intro other hother htouch
      rw [stores_iff, deleteNode, InsertionMap.get_delete]
      split
      · rename_i hname
        rw [hsafe other (hname ▸ stores_iff.mp hother) c hc] at htouch
        cases htouch
      · exact stores_iff.mp hother
    obtain ⟨hfrom, hto⟩ := hg.endpoints c hc
    exact ⟨hend _ hfrom (by simp [GraphConnection.touches]),
      hend _ hto (by simp [GraphConnection.touches])⟩
  filed := hg.filed

/-- What `reconnect` makes: each kept incoming connection goes on like each kept outgoing
one. -/
theorem mem_reconnect_iff {skip : GraphConnection → Bool}
    {incoming outgoing : List GraphConnection} :
    c ∈ reconnect skip incoming outgoing ↔
      ∃ i ∈ incoming, skip i = false ∧ ∃ o ∈ outgoing, skip o = false ∧
        c = { i with toNode := o.toNode, inputIndex := o.inputIndex } := by
  simp only [reconnect, List.mem_flatMap, List.mem_filter, Bool.not_eq_true', List.mem_map]
  constructor
  · rintro ⟨i, ⟨hi, hiskip⟩, o, ⟨ho, hoskip⟩, rfl⟩
    exact ⟨i, hi, hiskip, o, ho, hoskip, rfl⟩
  · rintro ⟨i, hi, hiskip, o, ho, hoskip, rfl⟩
    exact ⟨i, ⟨hi, hiskip⟩, o, ⟨ho, hoskip⟩, rfl⟩

/-- Storing several connections between stored nodes keeps the invariant, and every connection
is then an old or a new one. -/
theorem set_connections_well_formed {cs : List GraphConnection} (hg : WellFormed g)
    (hcs : ∀ c ∈ cs, g.stores c.fromNode = true ∧ g.stores c.toNode = true) :
    WellFormed (cs.foldl setConnection g) ∧ (cs.foldl setConnection g).nodes = g.nodes ∧
      ∀ c ∈ (cs.foldl setConnection g).connections.values, c ∈ g.connections.values ∨ c ∈ cs := by
  induction cs generalizing g with
  | nil => exact ⟨hg, rfl, fun c hc => .inl hc⟩
  | cons first rest ih =>
    obtain ⟨hfrom, hto⟩ := hcs first (by simp)
    have hfirst := set_connection_well_formed hg hfrom hto
    obtain ⟨hwf, hnodes, hmem⟩ := ih hfirst fun c hc => hcs c (by simp [hc])
    refine ⟨hwf, hnodes, fun c hc => ?_⟩
    rcases hmem c hc with hold | hnew
    · obtain ⟨key, hkey⟩ := InsertionMap.mem_values_iff.mp hold
      rw [setConnection, InsertionMap.get_set] at hkey
      split at hkey
      · cases hkey
        exact .inr (by simp)
      · exact .inl (InsertionMap.mem_values_iff.mpr ⟨key, hkey⟩)
    · exact .inr (by simp [hnew])

variable {options : RemoveNodeOptions}

theorem remove_node_reconnect_eq (hopt : options.reconnectConnections = true)
    (hnode : g.stores node = true) :
    g.removeNode node options =
      .ok (((reconnect (options.skipConnectionFn.getD fun _ => false)
          (g.connections.values.filter (·.toNode = node))
          (g.connections.values.filter (·.fromNode = node))).foldl setConnection
            (g.disconnect node)).deleteNode node,
        some (reconnect (options.skipConnectionFn.getD fun _ => false)
          (g.connections.values.filter (·.toNode = node))
          (g.connections.values.filter (·.fromNode = node)))) := by
  simp [removeNode, hopt, getDirectParentConnections, getDirectChildConnections, hnode, bind,
    Except.bind, pure, Except.pure]

theorem remove_node_reconnect_error (hopt : options.reconnectConnections = true)
    (hnode : g.stores node = false) : g.removeNode node options = .error .assertion := by
  simp [removeNode, hopt, getDirectParentConnections, hnode, bind, Except.bind]

theorem remove_node_plain_eq (hopt : options.reconnectConnections = false) :
    g.removeNode node options = .ok ((g.disconnect node).deleteNode node, none) := by
  simp [removeNode, hopt, pure, Except.pure]

theorem untouched_of_not_stores (hg : WellFormed g) (hnode : g.stores node = false) :
    Untouched g node := by
  intro c hc
  obtain ⟨hfrom, hto⟩ := hg.endpoints c hc
  rw [GraphConnection.touches, Bool.or_eq_false_iff, decide_eq_false_iff_not,
    decide_eq_false_iff_not]
  refine ⟨fun h => ?_, fun h => ?_⟩
  · rw [h, hnode] at hto
    cases hto
  · rw [h, hnode] at hfrom
    cases hfrom

theorem disconnect_untouched : Untouched (g.disconnect node) node :=
  fun _ hc => (mem_disconnect_iff.mp hc).2

/-- The graph in which the connections around a node lead past it. -/
def bypass (g : DirectedGraph) (node : INode) (skip : GraphConnection → Bool) : DirectedGraph :=
  (reconnect skip (g.connections.values.filter (·.toNode = node))
    (g.connections.values.filter (·.fromNode = node))).foldl setConnection (g.disconnect node)

/-- Bypassing a stored node keeps the invariant. A connection is then an old one that does not
touch the node, or leads from a source of the node to a target of it. -/
theorem bypass_well_formed (hg : WellFormed g) (node : INode) (skip : GraphConnection → Bool) :
    WellFormed (g.bypass node skip) ∧ (g.bypass node skip).nodes = g.nodes ∧
      ∀ c ∈ (g.bypass node skip).connections.values,
        c ∈ g.connections.values ∧ c.touches node = false ∨
        ∃ i ∈ g.connections.values, i.toNode = node ∧ skip i = false ∧
          ∃ o ∈ g.connections.values, o.fromNode = node ∧ skip o = false ∧
            c = { i with toNode := o.toNode, inputIndex := o.inputIndex } := by
  have hnew : ∀ c ∈ reconnect skip (g.connections.values.filter (·.toNode = node))
      (g.connections.values.filter (·.fromNode = node)),
      ∃ i ∈ g.connections.values, i.toNode = node ∧ skip i = false ∧
        ∃ o ∈ g.connections.values, o.fromNode = node ∧ skip o = false ∧
          c = { i with toNode := o.toNode, inputIndex := o.inputIndex } := by
    intro c hc
    obtain ⟨i, hi, hiskip, o, ho, hoskip, heq⟩ := mem_reconnect_iff.mp hc
    rw [List.mem_filter, decide_eq_true_eq] at hi ho
    exact ⟨i, hi.1, hi.2, hiskip, o, ho.1, ho.2, hoskip, heq⟩
  have hdisconnect : WellFormed (g.disconnect node) := disconnect_well_formed hg
  obtain ⟨hwf, hnodes, hmem⟩ := set_connections_well_formed hdisconnect fun c hc => by
    obtain ⟨i, hi, _, _, o, ho, _, _, rfl⟩ := hnew c hc
    exact ⟨(hg.endpoints i hi).1, (hg.endpoints o ho).2⟩
  refine ⟨hwf, hnodes, fun c hc => ?_⟩
  rcases hmem c hc with hold | hc
  · exact .inl (mem_disconnect_iff.mp hold)
  · exact .inr (hnew c hc)

theorem bypass_untouched {skip : GraphConnection → Bool} (hg : WellFormed g)
    (hloop : ∀ c ∈ g.connections.values, c.fromNode = node → c.toNode = node → skip c = true) :
    Untouched (g.bypass node skip) node := by
  intro c hc
  obtain ⟨_, _, hmem⟩ := bypass_well_formed hg node skip
  rcases hmem c hc with ⟨_, htouch⟩ | ⟨i, hi, hito, hiskip, o, ho, hofrom, hoskip, rfl⟩
  · exact htouch
  · rw [GraphConnection.touches, Bool.or_eq_false_iff, decide_eq_false_iff_not,
      decide_eq_false_iff_not]
    refine ⟨fun h => ?_, fun h => ?_⟩
    · rw [hloop o ho hofrom h] at hoskip
      cases hoskip
    · rw [hloop i hi h hito] at hiskip
      cases hiskip

theorem add_nodes_well_formed (nodes : List INode) (hg : WellFormed g)
    (hnone : g.connections.values = []) :
    WellFormed (g.addNodes nodes) ∧ (g.addNodes nodes).connections.values = [] := by
  induction nodes generalizing g with
  | nil => exact ⟨hg, hnone⟩
  | cons node rest ih =>
    refine ih (add_node_well_formed hg fun old _ => .inr ?_) hnone
    intro c hc
    rw [hnone] at hc
    cases hc

theorem add_nodes_stores {nodes : List INode} (hnames : (nodes.map (·.name)).Nodup) :
    (g.addNodes nodes).stores node = true ↔
      node ∈ nodes ∨ node.name ∉ nodes.map (·.name) ∧ g.stores node = true := by
  induction nodes generalizing g with
  | nil => simp [addNodes]
  | cons first rest ih =>
    rw [List.map_cons, List.nodup_cons] at hnames
    change ((g.addNode first).addNodes rest).stores node = true ↔ _
    rw [ih hnames.2, add_node_stores]
    by_cases heq : node = first
    · subst heq
      simp [hnames.1]
    · by_cases hname : node.name = first.name
      · have hrest : node ∉ rest := fun h => hnames.1 (hname ▸ List.mem_map.mpr ⟨_, h, rfl⟩)
        simp [heq, hname, hnames.1]
      · simp [heq, hname]

theorem get_nodes_names_nodup (hg : WellFormed g) : (g.getNodes.map (·.name)).Nodup := by
  have hkeys : g.getNodes.map (·.name) = g.nodes.entries.map Prod.fst := by
    rw [getNodes, InsertionMap.values, List.map_map]
    refine List.map_congr_left fun e he => ?_
    exact hg.named e.1 e.2 (InsertionMap.get_eq_some_iff.mpr he)
  rw [hkeys]
  exact g.nodes.nodup

theorem add_connections_well_formed {inputs : List ConnectionInput} (hg : WellFormed g)
    (h : g.addConnections inputs = .ok g') : WellFormed g' := by
  induction inputs generalizing g with
  | nil =>
    cases h
    exact hg
  | cons input rest ih =>
    rw [addConnections, List.foldlM_cons] at h
    cases hfirst : g.addConnection input with
    | error e =>
      rw [hfirst] at h
      cases h
    | ok middle =>
      rw [hfirst] at h
      exact ih (add_connection_well_formed hg hfirst) h

theorem from_workflow_well_formed {w : Workflow} (h : fromWorkflow w = .ok g) :
    WellFormed g := by
  unfold fromWorkflow at h
  cases hconns : workflowConnections w with
  | error e =>
    rw [hconns] at h
    cases h
  | ok inputs =>
    rw [hconns] at h
    exact add_connections_well_formed (add_nodes_well_formed _ empty_well_formed rfl).1 h

theorem add_connections_to_input {cs : List GraphConnection}
    (hcs : ∀ c ∈ cs, g.stores c.fromNode = true ∧ g.stores c.toNode = true) :
    g.addConnections (cs.map (·.toInput)) = .ok (cs.foldl setConnection g) := by
  induction cs generalizing g with
  | nil => rfl
  | cons first rest ih =>
    have hfirst : g.addConnection first.toInput = .ok (g.setConnection first) :=
      add_connection_eq_ok_iff.mpr ⟨hcs first (by simp), rfl⟩
    rw [List.map_cons, addConnections, List.foldlM_cons, hfirst]
    exact ih fun c hc => hcs c (by simp [hc])

/-- `clone` of a graph with the invariant succeeds. The clone has the invariant, the same
nodes, and no further connections. -/
theorem clone_well_formed (hg : WellFormed g) :
    ∃ g', g.clone = .ok g' ∧ WellFormed g' ∧
      (∀ node, g'.stores node = true ↔ g.stores node = true) ∧
      ∀ c ∈ g'.connections.values, c ∈ g.connections.values := by
  have hstores : ∀ node, (empty.addNodes g.getNodes).stores node = true ↔
      g.stores node = true := by
    intro node
    rw [add_nodes_stores (get_nodes_names_nodup hg), mem_get_nodes_iff hg]
    simp [stores, empty]
  have hconns : g.getConnections = g.connections.values := by simp [getConnections]
  obtain ⟨hbase, hnone⟩ := add_nodes_well_formed g.getNodes empty_well_formed rfl
  have hends : ∀ c ∈ g.getConnections, (empty.addNodes g.getNodes).stores c.fromNode = true ∧
      (empty.addNodes g.getNodes).stores c.toNode = true := by
    intro c hc
    rw [hstores, hstores]
    exact hg.endpoints c (hconns ▸ hc)
  obtain ⟨hwf, hnodes, hmem⟩ := set_connections_well_formed hbase hends
  refine ⟨_, add_connections_to_input hends, hwf, fun node => ?_, fun c hc => ?_⟩
  · rw [← hstores, stores_iff, stores_iff, hnodes]
  · rcases hmem c hc with hold | hnew
    · rw [hnone] at hold
      cases hold
    · exact hconns ▸ hnew

end DirectedGraph

open DirectedGraph

/-- The graph of a workflow, which is empty when `fromWorkflow` throws. -/
def graphOf (w : Workflow) : DirectedGraph :=
  match fromWorkflow w with
  | .ok g => g
  | .error _ => .empty

theorem graph_of_well_formed (w : Workflow) : WellFormed (graphOf w) := by
  unfold graphOf
  split
  · rename_i h
    exact from_workflow_well_formed h
  · exact empty_well_formed

/-! ## Sequences of operations -/

/-- The operations that change a graph, or that go on with a copy of it. -/
inductive Operation where
  | addNode (node : INode)
  | addConnection (input : ConnectionInput)
  | removeNode (node : INode) (options : RemoveNodeOptions)
  | clone

/-- The graph after an operation, which is the old one when the operation throws. -/
def DirectedGraph.exec (g : DirectedGraph) : Operation → DirectedGraph
  | .addNode node => g.addNode node
  | .addConnection input =>
    match g.addConnection input with
    | .ok g' => g'
    | .error _ => g
  | .removeNode node options =>
    match g.removeNode node options with
    | .ok (g', _) => g'
    | .error _ => g
  | .clone =>
    match g.clone with
    | .ok g' => g'
    | .error _ => g

/-- The condition under which an operation keeps the invariant. Adding or removing a node
replaces or deletes the node stored under its name, so no connection may touch that one when it
is another object; and a node removed with reconnection has no connection to itself, apart from
skipped ones. -/
def Operation.Safe (g : DirectedGraph) : Operation → Prop
  | .addNode node => ∀ old, g.nodes.get? node.name = some old → old = node ∨ Untouched g old
  | .removeNode node options =>
    if options.reconnectConnections then
      ∀ c ∈ g.connections.values, c.fromNode = node → c.toNode = node →
        (options.skipConnectionFn.getD fun _ => false) c = true
    else ∀ old, g.nodes.get? node.name = some old → old = node ∨ Untouched g old
  | .addConnection _ | .clone => True

/-- A node is left without connections. -/
def Operation.Detaches (g : DirectedGraph) : Operation → Prop
  | .removeNode node _ => Untouched g node
  | .addNode _ | .addConnection _ | .clone => True

theorem exec_well_formed {g : DirectedGraph} {op : Operation} (hg : WellFormed g)
    (hsafe : op.Safe g) : WellFormed (g.exec op) ∧ op.Detaches (g.exec op) := by
  cases op with
  | addNode node => exact ⟨add_node_well_formed hg hsafe, trivial⟩
  | addConnection input =>
    refine ⟨?_, trivial⟩
    cases h : g.addConnection input with
    | error e => simpa only [exec, h] using hg
    | ok g' => simpa only [exec, h] using add_connection_well_formed hg h
  | clone =>
    obtain ⟨g', hclone, hwf, _⟩ := clone_well_formed hg
    refine ⟨?_, trivial⟩
    simpa only [exec, hclone] using hwf
  | removeNode node options =>
    simp only [Operation.Safe] at hsafe
    simp only [exec, Operation.Detaches]
    cases hopt : options.reconnectConnections with
    | false =>
      rw [hopt] at hsafe
      simp only [remove_node_plain_eq hopt]
      refine ⟨delete_node_well_formed (disconnect_well_formed hg) fun old hold => ?_,
        disconnect_untouched⟩
      rcases hsafe old hold with rfl | huntouched
      · exact disconnect_untouched
      · exact fun c hc => huntouched c (mem_disconnect_iff.mp hc).1
    | true =>
      rw [hopt, if_pos rfl] at hsafe
      cases hnode : g.stores node with
      | false =>
        simp only [remove_node_reconnect_error hopt hnode]
        exact ⟨hg, untouched_of_not_stores hg hnode⟩
      | true =>
        simp only [remove_node_reconnect_eq hopt hnode]
        obtain ⟨hwf, hnodes, _⟩ := bypass_well_formed hg node
          (options.skipConnectionFn.getD fun _ => false)
        have huntouched := bypass_untouched hg hsafe
        refine ⟨delete_node_well_formed hwf fun old hold => ?_, huntouched⟩
        have hold' : some old = some node :=
          hold.symm.trans ((congrArg (·.get? node.name) hnodes).trans (stores_iff.mp hnode))
        cases hold'
        exact huntouched

/-- The graph after a sequence of operations. -/
def DirectedGraph.run (g : DirectedGraph) (ops : List Operation) : DirectedGraph :=
  ops.foldl exec g

/-- Every operation is safe in the graph that it is applied to. -/
def SafeRun (g : DirectedGraph) (ops : List Operation) : Prop :=
  ∀ pre op, pre ++ [op] <+: ops → op.Safe (g.run pre)

/-- Along a run of safe operations every graph has the invariant, and after each removal no
connection touches the removed node. -/
theorem run_well_formed {g : DirectedGraph} {ops : List Operation} (hg : WellFormed g)
    (hsafe : SafeRun g ops) :
    (∀ pre, pre <+: ops → WellFormed (g.run pre)) ∧
      ∀ pre op, pre ++ [op] <+: ops → op.Detaches (g.run (pre ++ [op])) := by
  have hwf : ∀ pre, pre <+: ops → WellFormed (g.run pre) := by
    intro pre
    induction pre using List.reverseRecOn with
    | nil => exact fun _ => hg
    | append_singleton pre op ih =>
      intro hpre
      have hg' := ih ((List.prefix_append pre [op]).trans hpre)
      rw [run, List.foldl_append]
      exact (exec_well_formed hg' (hsafe pre op hpre)).1
  refine ⟨hwf, fun pre op hpre => ?_⟩
  have hg' := hwf pre ((List.prefix_append pre [op]).trans hpre)
  rw [run, List.foldl_append]
  exact (exec_well_formed hg' (hsafe pre op hpre)).2

theorem safe_run_cons {g : DirectedGraph} {op : Operation} {ops : List Operation}
    (hop : op.Safe g) (hops : SafeRun (g.exec op) ops) : SafeRun g (op :: ops) := by
  intro pre next hpre
  cases pre with
  | nil =>
    have hnext : next = op := by simpa using hpre
    rwa [hnext]
  | cons first pre =>
    obtain ⟨rfl, hrest⟩ := List.cons_prefix_cons.mp hpre
    exact hops pre next hrest

end N8n.PartialExecution
