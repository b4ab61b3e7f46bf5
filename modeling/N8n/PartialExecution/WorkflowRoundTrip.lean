import N8n.PartialExecution.GraphInvariant
import N8n.Workflow.Connections

/-!
# Workflows to graphs and back

`fromWorkflow` files the connections of a workflow under their keys, and `toIConnections` builds
the nested form again. `round_trip_iff` says for which workflows the way there and back
succeeds and loses nothing: each source has connections of one type only, no two connections
have the same key, and the names of nodes do not hide or inherit properties of
`Object.prototype`.
-/

namespace N8n.PartialExecution

open Collections
open DirectedGraph

variable {outputs : NodeInputConnections} {outputIndex : Nat}

theorem write_output_get {index : Nat} {conns conns' : List IConnection} :
    (writeOutput outputs outputIndex conns)[index]? = some (some conns') ↔
      if index = outputIndex then conns' = conns else outputs[index]? = some (some conns') := by
  rw [writeOutput, List.getElem?_set]
  by_cases heq : outputIndex = index
  · subst heq
    have hlen : outputIndex < outputs.length + (outputIndex + 1 - outputs.length) := by omega
    simp [hlen, eq_comm]
  · rw [if_neg heq, if_neg (Ne.symm heq), List.getElem?_append]
    split
    · rfl
    · rename_i hlen
      rw [List.getElem?_eq_none (Nat.le_of_not_lt hlen), List.getElem?_replicate]
      split <;> simp

theorem write_output_has {index : Nat} {conn connection : IConnection} :
    NodeInputConnections.Has
        (writeOutput outputs outputIndex ((outputs[outputIndex]?.join).getD [] ++ [conn]))
        index connection ↔
      NodeInputConnections.Has outputs index connection ∨
        index = outputIndex ∧ connection = conn := by
  simp only [NodeInputConnections.Has, write_output_get]
  by_cases heq : index = outputIndex
  · subst heq
    simp only [if_true, exists_eq_left, List.mem_append, List.mem_singleton, true_and]
    refine or_congr_left ?_
    -- an output that is missing or `null` holds no connection on either side
    match outputs[index]? with
    | none => simp
    | some none => simp
    | some (some conns) => simp
  · simp [heq]

/-! ## From a graph to a workflow -/

/-- The end of a connection that `toIConnections` writes. -/
def GraphConnection.target (c : GraphConnection) : IConnection :=
  { node := c.toNode.name, type := c.type, index := c.inputIndex }

/-- What the loop of `toIConnections` has built from the connections `cs`. -/
structure Rebuilt (cs : List GraphConnection) (result : IConnections) : Prop where
  has : ∀ name type outputIndex conn, result.Has name type outputIndex conn ↔
    ∃ c ∈ cs, c.fromNode.name = name ∧ c.type = type ∧ c.outputIndex = outputIndex ∧
      conn = c.target
  sources : ∀ name, result.has name = true ↔ ∃ c ∈ cs, c.fromNode.name = name
  types : ∀ name iConnection, result.get? name = some iConnection → ∀ type,
    (iConnection.get? type).isSome = true ↔ ∃ c ∈ cs, c.fromNode.name = name ∧ c.type = type

theorem rebuilt_nil : Rebuilt [] .empty where
  has name type outputIndex conn := by
    simpa using IConnections.not_has_of_none (InsertionMap.get_empty name)
  sources name := by simp [InsertionMap.has]
  types name iConnection h := by simp at h

/-- The connection can be added to what was built from `cs`: its source has no connections of
another type, and is not named like an inherited property. -/
def Addable (cs : List GraphConnection) (c : GraphConnection) : Prop :=
  (∀ c' ∈ cs, c'.fromNode.name = c.fromNode.name → c'.type = c.type) ∧
    ((∀ c' ∈ cs, c'.fromNode.name ≠ c.fromNode.name) → c.fromNode.name ∉ prototypeKeys)

/-- The object that a round of the loop works on. -/
def openedObject (result : IConnections) (c : GraphConnection) : INodeConnections :=
  (result.get? c.fromNode.name).getD (InsertionMap.set .empty c.type [])

variable {result : IConnections} {c : GraphConnection} {type : NodeConnectionType}

theorem opened_object_has {conn : IConnection} :
    INodeConnections.Has (openedObject result c) type outputIndex conn ↔
      result.Has c.fromNode.name type outputIndex conn := by
  rw [IConnections.has_iff, openedObject]
  cases result.get? c.fromNode.name with
  | some iConnection => simp
  | none =>
    rw [Option.getD_none, INodeConnections.has_set]
    split <;> simp [INodeConnections.Has, NodeInputConnections.Has]

variable {cs : List GraphConnection}

theorem opened_object_types (h : Rebuilt cs result) :
    ((openedObject result c).get? type).isSome = true ↔
      if result.has c.fromNode.name then
        ∃ c' ∈ cs, c'.fromNode.name = c.fromNode.name ∧ c'.type = type
      else type = c.type := by
  rw [openedObject, InsertionMap.has]
  cases hget : result.get? c.fromNode.name with
  | some iConnection =>
    rw [Option.isSome_some, if_pos rfl]
    exact h.types _ _ hget type
  | none =>
    rw [Option.isSome_none, if_neg Bool.false_ne_true, Option.getD_none, InsertionMap.get_set]
    split <;> simp_all

theorem add_eq_ok_iff {result' : IConnections} (h : Rebuilt cs result) (hone : ∀ c₁ ∈ cs, ∀ c₂ ∈ cs,
      c₁.fromNode.name = c₂.fromNode.name → c₁.type = c₂.type) :
    addToIConnections result c = .ok result' ↔
      Addable cs c ∧ ∃ outputs, (openedObject result c).get? c.type = some outputs ∧
        result' = result.set c.fromNode.name ((openedObject result c).set c.type
          (writeOutput outputs c.outputIndex
            ((outputs[c.outputIndex]?.join).getD [] ++ [c.target]))) := by
  have hfresh : result.has c.fromNode.name = false ↔
      ∀ c' ∈ cs, c'.fromNode.name ≠ c.fromNode.name := by
    rw [← Bool.not_eq_true, h.sources]
    simp
  -- the object has the type of the connection exactly when the source has no other type
  have htype : ((openedObject result c).get? c.type).isSome = true ↔
      ∀ c' ∈ cs, c'.fromNode.name = c.fromNode.name → c'.type = c.type := by
    rw [opened_object_types h]
    split
    · rename_i hhas
      obtain ⟨c₀, hc₀, hname₀⟩ := (h.sources _).mp hhas
      constructor
      · rintro ⟨c₁, hc₁, hname₁, htype₁⟩ c' hc' hname'
        exact (hone c' hc' c₁ hc₁ (hname'.trans hname₁.symm)).trans htype₁
      · exact fun hall => ⟨c₀, hc₀, hname₀, hall c₀ hc₀ hname₀⟩
    · rename_i hhas
      have hnone := hfresh.mp (Bool.not_eq_true _ ▸ hhas)
      exact ⟨fun _ c' hc' hname' => absurd hname' (hnone c' hc'), fun _ => rfl⟩
  rw [Addable, ← htype, ← hfresh]
  have hopened : (result.get? c.fromNode.name).getD (InsertionMap.set .empty c.type []) =
      openedObject result c := rfl
  unfold addToIConnections
  dsimp only
  rw [hopened]
  split
  · rename_i hproto
    simp [hproto]
  · rename_i hproto
    rw [not_and] at hproto
    cases hget : (openedObject result c).get? c.type with
    | none => simp
    | some outputs =>
      simp only [Except.ok.injEq, Option.isSome_some, true_and, Option.some.injEq,
        exists_eq_left']
      exact ⟨fun heq => ⟨hproto, heq.symm⟩, fun heq => heq.2.symm⟩

theorem add_rebuilt (h : Rebuilt cs result)
    (hget : (openedObject result c).get? c.type = some outputs) :
    Rebuilt (cs ++ [c]) (result.set c.fromNode.name ((openedObject result c).set c.type
      (writeOutput outputs c.outputIndex
        ((outputs[c.outputIndex]?.join).getD [] ++ [c.target])))) where
  has name type outputIndex conn := by
    simp only [List.mem_append, List.mem_singleton, or_and_right, exists_or, exists_eq_left]
    rw [IConnections.has_set, ← h.has]
    by_cases hname : name = c.fromNode.name
    · subst hname
      rw [if_pos rfl, INodeConnections.has_set, ← opened_object_has]
      by_cases htype : type = c.type
      · subst htype
        rw [if_pos rfl, write_output_has]
        simp [INodeConnections.Has, hget, eq_comm]
      · simp [htype, Ne.symm htype]
    · simp [hname, Ne.symm hname]
  sources name := by
    simp only [List.mem_append, List.mem_singleton, or_and_right, exists_or, exists_eq_left]
    rw [← h.sources, InsertionMap.has, InsertionMap.get_set, InsertionMap.has]
    by_cases hname : name = c.fromNode.name
    · simp [hname]
    · simp [hname, Ne.symm hname]
  types name iConnection hentry type := by
    simp only [List.mem_append, List.mem_singleton, or_and_right, exists_or, exists_eq_left]
    rw [InsertionMap.get_set] at hentry
    by_cases hname : name = c.fromNode.name
    · subst hname
      rw [if_pos rfl, Option.some.injEq] at hentry
      subst hentry
      rw [InsertionMap.get_set]
      by_cases htype : type = c.type
      · simp [htype]
      · rw [if_neg htype, opened_object_types h]
        split
        · simp [Ne.symm htype]
        · rename_i hhas
          have hnone : ¬ ∃ c' ∈ cs, c'.fromNode.name = c.fromNode.name := by
            rwa [← h.sources]
          simp only [htype, Ne.symm htype, and_false, or_false, false_iff]
          rintro ⟨c', hc', hname', _⟩
          exact hnone ⟨c', hc', hname'⟩
    · rw [if_neg hname] at hentry
      rw [h.types name iConnection hentry]
      simp [Ne.symm hname]

/-- Every source has connections of one type, and none is named like an inherited property. -/
structure Expressible (cs : List GraphConnection) : Prop where
  oneType : ∀ c₁ ∈ cs, ∀ c₂ ∈ cs, c₁.fromNode.name = c₂.fromNode.name → c₁.type = c₂.type
  noPrototype : ∀ c ∈ cs, c.fromNode.name ∉ prototypeKeys

theorem expressible_snoc : Expressible (cs ++ [c]) ↔ Expressible cs ∧ Addable cs c := by
  refine ⟨fun h => ⟨⟨?_, ?_⟩, ?_, ?_⟩, fun ⟨h, htypes, hproto⟩ => ⟨?_, ?_⟩⟩
  · exact fun c₁ hc₁ c₂ hc₂ => h.oneType c₁ (by simp [hc₁]) c₂ (by simp [hc₂])
  · exact fun c' hc' => h.noPrototype c' (by simp [hc'])
  · exact fun c' hc' => h.oneType c' (by simp [hc']) c (by simp)
  · exact fun _ => h.noPrototype c (by simp)
  · intro c₁ hc₁ c₂ hc₂ hname
    rw [List.mem_append, List.mem_singleton] at hc₁ hc₂
    rcases hc₁ with hc₁ | rfl
    · rcases hc₂ with hc₂ | rfl
      · exact h.oneType c₁ hc₁ c₂ hc₂ hname
      · exact htypes c₁ hc₁ hname
    · rcases hc₂ with hc₂ | rfl
      · exact (htypes c₂ hc₂ hname.symm).symm
      · rfl
  · intro c' hc'
    rw [List.mem_append, List.mem_singleton] at hc'
    rcases hc' with hc' | rfl
    · exact h.noPrototype c' hc'
    · by_cases hold : ∃ c₀ ∈ cs, c₀.fromNode.name = c'.fromNode.name
      · obtain ⟨c₀, hc₀, hname⟩ := hold
        exact hname ▸ h.noPrototype c₀ hc₀
      · exact hproto fun c₀ hc₀ hname => hold ⟨c₀, hc₀, hname⟩

/-- The loop of `toIConnections` succeeds exactly on expressible connections, and then builds
all of them. -/
theorem add_all_rebuilt :
    (∀ result, cs.foldlM addToIConnections .empty = .ok result →
      Expressible cs ∧ Rebuilt cs result) ∧
    (Expressible cs → ∃ result, cs.foldlM addToIConnections .empty = .ok result) := by
  induction cs using List.reverseRecOn with
  | nil =>
    refine ⟨fun result h => ?_, fun _ => ⟨_, rfl⟩⟩
    cases h
    exact ⟨⟨by simp, by simp⟩, rebuilt_nil⟩
  | append_singleton cs c ih =>
    refine ⟨fun result h => ?_, fun h => ?_⟩
    · obtain ⟨middle, hmiddle, hadd⟩ := foldlM_snoc_eq_ok.mp h
      obtain ⟨hexpr, hbuilt⟩ := ih.1 middle hmiddle
      obtain ⟨haddable, outputs, hget, rfl⟩ := (add_eq_ok_iff hbuilt hexpr.oneType).mp hadd
      exact ⟨expressible_snoc.mpr ⟨hexpr, haddable⟩, add_rebuilt hbuilt hget⟩
    · obtain ⟨hexpr, haddable⟩ := expressible_snoc.mp h
      obtain ⟨middle, hmiddle⟩ := ih.2 hexpr
      have hbuilt := (ih.1 middle hmiddle).2
      have hsome : ((openedObject middle c).get? c.type).isSome = true := by
        rw [opened_object_types hbuilt]
        split
        · rename_i hhas
          obtain ⟨c', hc', hname⟩ := (hbuilt.sources _).mp hhas
          exact ⟨c', hc', hname, haddable.1 c' hc' hname⟩
        · rfl
      obtain ⟨outputs, hget⟩ := Option.isSome_iff_exists.mp hsome
      exact ⟨_, foldlM_snoc_eq_ok.mpr ⟨middle, hmiddle,
        (add_eq_ok_iff hbuilt hexpr.oneType).mpr ⟨haddable, outputs, hget, rfl⟩⟩⟩

/-! ## From a workflow to a graph -/

/-- The connection leads from one named output to one named input. -/
def Connects (connections : IConnections) (source : String) (type : NodeConnectionType)
    (outputIndex : Nat) (destination : String) (inputIndex : Nat) : Prop :=
  ∃ conn, connections.Has source type outputIndex conn ∧ conn.node = destination ∧
    conn.index = inputIndex

/-- The connections of the workflow name existing nodes. -/
structure NamesNodes (w : Workflow) : Prop where
  sources : ∀ name ∈ w.connectionsBySourceNode.keys, ∃ node, w.getNode name = some node
  targets : ∀ source type outputIndex conn,
    w.connectionsBySourceNode.Has source type outputIndex conn →
      ∃ node, w.getNode conn.node = some node

/-- The node of a name, or a blank one. -/
def nodeNamed (w : Workflow) (name : String) : INode :=
  (w.getNode name).getD { name := name }

/-- The graph connection of one connection of a workflow. -/
def link (w : Workflow) (source : String) (type : NodeConnectionType) (outputIndex : Nat)
    (conn : IConnection) : GraphConnection :=
  { fromNode := nodeNamed w source, toNode := nodeNamed w conn.node, type := type,
    outputIndex := outputIndex, inputIndex := conn.index }

/-- The graph connections of a workflow in the order of `fromWorkflow`. -/
def links (w : Workflow) : List GraphConnection :=
  w.connectionsBySourceNode.entries.flatMap fun (source, iConnection) =>
    iConnection.entries.flatMap fun (type, outputs) =>
      outputs.zipIdx.flatMap fun (conns, outputIndex) =>
        (conns.getD []).map (link w source type outputIndex)

@[simp] theorem node_named_name (w : Workflow) (name : String) :
    (nodeNamed w name).name = name := by
  rw [nodeNamed]
  cases h : w.getNode name with
  | none => rfl
  | some node => exact (w.named name node h).1

variable {w : Workflow}

theorem mem_links_iff :
    c ∈ links w ↔ ∃ source type outputIndex conn,
      w.connectionsBySourceNode.Has source type outputIndex conn ∧
        c = link w source type outputIndex conn := by
  simp only [links, List.mem_flatMap, List.mem_map, Prod.exists, IConnections.Has,
    InsertionMap.get_eq_some_iff, List.mem_zipIdx_iff_getElem?]
  refine ⟨fun h => ?_, fun h => ?_⟩
  · obtain ⟨source, iConnection, hsource, type, outputs, htype, conns, outputIndex, hindex,
      conn, hconn, rfl⟩ := h
    cases conns with
    | none => simp at hconn
    | some conns =>
      exact ⟨source, type, outputIndex, conn,
        ⟨iConnection, outputs, conns, hsource, htype, hindex, hconn⟩, rfl⟩
  · obtain ⟨source, type, outputIndex, conn,
      ⟨iConnection, outputs, conns, hsource, htype, hindex, hconn⟩, rfl⟩ := h
    exact ⟨source, iConnection, hsource, type, outputs, htype, some conns, outputIndex, hindex,
      conn, hconn, rfl⟩

theorem lookup_node_eq_ok {name : String} {node : INode}
    (hvisible : w.nodes.has "hasOwnProperty" = false) (h : w.getNode name = some node) :
    lookupNode w name = .ok (nodeNamed w name) := by
  rw [lookupNode, if_neg (by simp [hvisible]), nodeNamed, h]
  rfl

theorem workflow_connections_eq (h : NamesNodes w)
    (hvisible : w.connectionsBySourceNode.entries ≠ [] →
      w.nodes.has "hasOwnProperty" = false) :
    workflowConnections w = .ok ((links w).map (·.toInput)) := by
  unfold workflowConnections
  rw [links, List.map_flatMap]
  refine flatMapM_eq_ok fun ⟨source, iConnection⟩ hsource => ?_
  have hvisible := hvisible (List.ne_nil_of_mem hsource)
  obtain ⟨node, hnode⟩ := h.sources source (List.mem_map.mpr ⟨_, hsource, rfl⟩)
  simp only [lookup_node_eq_ok hvisible hnode, List.map_flatMap]
  refine flatMapM_eq_ok fun ⟨type, outputs⟩ htype => flatMapM_eq_ok fun ⟨conns, outputIndex⟩
    hindex => ?_
  rw [List.map_map]
  refine mapM_eq_ok fun conn hconn => ?_
  rw [List.mem_zipIdx_iff_getElem?] at hindex
  have hhas : w.connectionsBySourceNode.Has source type outputIndex conn := by
    match conns with
    | none => simp at hconn
    | some conns =>
      exact ⟨iConnection, outputs, conns, InsertionMap.get_eq_some_iff.mpr hsource,
        InsertionMap.get_eq_some_iff.mpr htype, hindex, hconn⟩
  obtain ⟨target, htarget⟩ := h.targets _ _ _ _ hhas
  rw [lookup_node_eq_ok hvisible htarget]
  rfl

variable {g : DirectedGraph}

theorem from_workflow_hidden (hhidden : w.nodes.has "hasOwnProperty" = true)
    (h : fromWorkflow w = .ok g) : w.connectionsBySourceNode.entries = [] := by
  match hentries : w.connectionsBySourceNode.entries with
  | [] => rfl
  | (source, iConnection) :: rest =>
    have hlookup : lookupNode w source = .error .typeError := by
      rw [lookupNode, if_pos hhidden]
    have hthrows : workflowConnections w = .error .typeError := by
      unfold workflowConnections
      rw [hentries, List.flatMapM_cons]
      simp only [hlookup]
      rfl
    rw [fromWorkflow, hthrows] at h
    cases h

theorem workflow_nodes_stores {node : INode} :
    (empty.addNodes w.nodes.values).stores node = true ↔ w.getNode node.name = some node := by
  have hnames : (w.nodes.values.map (·.name)).Nodup := by
    have hkeys : w.nodes.values.map (·.name) = w.nodes.entries.map Prod.fst := by
      rw [InsertionMap.values, List.map_map]
      refine List.map_congr_left fun e he => ?_
      exact (w.named e.1 e.2 (InsertionMap.get_eq_some_iff.mpr he)).1
    rw [hkeys]
    exact w.nodes.nodup
  rw [add_nodes_stores hnames, InsertionMap.mem_values_iff, Workflow.getNode]
  have hempty : empty.stores node = false := by simp [stores, empty]
  rw [hempty]
  refine ⟨fun h => ?_, fun h => .inl ⟨_, h⟩⟩
  rcases h with ⟨name, hname⟩ | ⟨_, hfalse⟩
  · rwa [(w.named name node hname).1]
  · cases hfalse

theorem links_stored (h : NamesNodes w) (hc : c ∈ links w) :
    (empty.addNodes w.nodes.values).stores c.fromNode = true ∧
      (empty.addNodes w.nodes.values).stores c.toNode = true := by
  obtain ⟨source, type, outputIndex, conn, hhas, rfl⟩ := mem_links_iff.mp hc
  have hentry := hhas
  obtain ⟨iConnection, _, _, hsource, _⟩ := hentry
  obtain ⟨node, hnode⟩ := h.sources source (InsertionMap.mem_keys_iff.mpr ⟨_, hsource⟩)
  obtain ⟨target, htarget⟩ := h.targets _ _ _ _ hhas
  rw [workflow_nodes_stores, workflow_nodes_stores]
  simp [link, nodeNamed, hnode, htarget, (w.named _ _ hnode).1, (w.named _ _ htarget).1]

theorem from_workflow_eq (h : NamesNodes w) (hvisible : w.connectionsBySourceNode.entries ≠ [] →
      w.nodes.has "hasOwnProperty" = false) :
    fromWorkflow w =
      .ok ((links w).foldl setConnection (empty.addNodes w.nodes.values)) := by
  rw [fromWorkflow, workflow_connections_eq h hvisible]
  exact add_connections_to_input fun c hc => links_stored h hc

theorem set_connections_get (hc : c ∈ cs) (hkey : ∀ c' ∈ cs, makeKey c' = makeKey c → c' = c) :
    (cs.foldl setConnection g).connections.get? (makeKey c) = some c := by
  induction cs using List.reverseRecOn with
  | nil => cases hc
  | append_singleton cs last ih =>
    rw [List.foldl_append]
    change ((cs.foldl setConnection g).connections.set (makeKey last) last).get? _ = _
    rw [InsertionMap.get_set]
    split
    · rename_i heq
      rw [hkey last (by simp) heq.symm]
    · rename_i hne
      refine ih ?_ fun c' hc' => hkey c' (by simp [hc'])
      rw [List.mem_append, List.mem_singleton] at hc
      rcases hc with hc | rfl
      · exact hc
      · exact absurd rfl hne

theorem nodes_by_name_eq {nodes : List INode} (h : ∀ node ∈ nodes, node.name ≠ "__proto__") :
    Workflow.nodesByName nodes = (empty.addNodes nodes).nodes := by
  have hgen : ∀ g : DirectedGraph,
      nodes.foldl Workflow.fileNode g.nodes = (g.addNodes nodes).nodes := by
    induction nodes with
    | nil => exact fun g => rfl
    | cons node rest ih =>
      intro g
      change rest.foldl Workflow.fileNode (Workflow.fileNode g.nodes node) = _
      rw [Workflow.fileNode, if_neg (h node (by simp))]
      exact ih (fun other hother => h other (by simp [hother])) (g.addNode node)
  exact hgen empty

/-! ## There and back -/

/-- Converting the workflow to a graph and back succeeds, and yields the same nodes and the same
connections. -/
def RoundTrips (w : Workflow) (executionOrder : Option ExecutionOrder) : Prop :=
  ∃ g w', fromWorkflow w = .ok g ∧ g.toWorkflow executionOrder = .ok w' ∧
    (∀ name, w'.getNode name = w.getNode name) ∧
    ∀ source type outputIndex destination inputIndex,
      Connects w'.connectionsBySourceNode source type outputIndex destination inputIndex ↔
        Connects w.connectionsBySourceNode source type outputIndex destination inputIndex

/-- What a workflow must be like to survive the conversion. -/
structure Convertible (w : Workflow) : Prop where
  visible : w.connectionsBySourceNode.entries ≠ [] → w.nodes.has "hasOwnProperty" = false
  oneType : ∀ source type outputIndex destination inputIndex type' outputIndex' destination'
    inputIndex',
    Connects w.connectionsBySourceNode source type outputIndex destination inputIndex →
    Connects w.connectionsBySourceNode source type' outputIndex' destination' inputIndex' →
    type = type'
  noPrototype : ∀ source type outputIndex destination inputIndex,
    Connects w.connectionsBySourceNode source type outputIndex destination inputIndex →
    source ∉ prototypeKeys
  keysDistinct : ∀ source type outputIndex destination inputIndex source' type' outputIndex'
    destination' inputIndex',
    Connects w.connectionsBySourceNode source type outputIndex destination inputIndex →
    Connects w.connectionsBySourceNode source' type' outputIndex' destination' inputIndex' →
    connectionKey source type outputIndex inputIndex destination =
      connectionKey source' type' outputIndex' inputIndex' destination' →
    (source, type, outputIndex, destination, inputIndex) =
      (source', type', outputIndex', destination', inputIndex')

/-- The connection is among the graph connections. -/
def Linked (cs : List GraphConnection) (source : String) (type : NodeConnectionType)
    (outputIndex : Nat) (destination : String) (inputIndex : Nat) : Prop :=
  ∃ c ∈ cs, c.fromNode.name = source ∧ c.type = type ∧ c.outputIndex = outputIndex ∧
    c.toNode.name = destination ∧ c.inputIndex = inputIndex

theorem connects_rebuilt (h : Rebuilt cs result) {source : String} {destination : String}
    {inputIndex : Nat} :
    Connects result source type outputIndex destination inputIndex ↔
      Linked cs source type outputIndex destination inputIndex := by
  refine ⟨fun ⟨conn, hhas, hnode, hindex⟩ => ?_, fun ⟨c, hc, hname, htype, hout, hto, hin⟩ => ?_⟩
  · obtain ⟨c, hc, hname, htype, hout, rfl⟩ := (h.has _ _ _ _).mp hhas
    exact ⟨c, hc, hname, htype, hout, hnode, hindex⟩
  · exact ⟨c.target, (h.has _ _ _ _).mpr ⟨c, hc, hname, htype, hout, rfl⟩, hto, hin⟩

theorem connects_links {source : String} {destination : String} {inputIndex : Nat} :
    Connects w.connectionsBySourceNode source type outputIndex destination inputIndex ↔
      Linked (links w) source type outputIndex destination inputIndex := by
  refine ⟨fun ⟨conn, hhas, hnode, hindex⟩ => ?_, fun ⟨c, hc, hname, htype, hout, hto, hin⟩ => ?_⟩
  · exact ⟨_, mem_links_iff.mpr ⟨source, type, outputIndex, conn, hhas, rfl⟩,
      node_named_name w source, rfl, rfl, (node_named_name w conn.node).trans hnode, hindex⟩
  · obtain ⟨_, _, _, conn, hhas, rfl⟩ := mem_links_iff.mp hc
    cases (node_named_name w _).symm.trans hname
    cases htype
    cases hout
    exact ⟨conn, hhas, (node_named_name w conn.node).symm.trans hto, hin⟩

variable {executionOrder : Option ExecutionOrder}

theorem to_workflow_eq_ok {w' : Workflow} (h : g.toWorkflow executionOrder = .ok w') :
    Expressible g.connections.values ∧ Rebuilt g.connections.values w'.connectionsBySourceNode := by
  rw [toWorkflow, toIConnections] at h
  cases hrun : g.connections.values.foldlM addToIConnections .empty with
  | error e =>
    rw [hrun] at h
    cases h
  | ok result =>
    rw [hrun] at h
    cases h
    exact add_all_rebuilt.1 result hrun

theorem convertible_of_round_trips (h : RoundTrips w executionOrder) : Convertible w := by
  obtain ⟨g, w', hgraph, hback, _, hsame⟩ := h
  have hg := from_workflow_well_formed hgraph
  obtain ⟨hexpr, hbuilt⟩ := to_workflow_eq_ok hback
  have hlinked : ∀ source type outputIndex destination inputIndex,
      Connects w.connectionsBySourceNode source type outputIndex destination inputIndex →
      Linked g.connections.values source type outputIndex destination inputIndex :=
    fun source type outputIndex destination inputIndex hconn =>
      (connects_rebuilt hbuilt).mp ((hsame _ _ _ _ _).mpr hconn)
  refine ⟨fun hentries => ?_, ?_, ?_, ?_⟩
  · refine Bool.eq_false_iff.mpr fun hhidden => ?_
    exact hentries (from_workflow_hidden hhidden hgraph)
  · intro source type outputIndex destination inputIndex type' outputIndex' destination'
      inputIndex' hconn hconn'
    obtain ⟨c, hc, hname, rfl, _⟩ := hlinked _ _ _ _ _ hconn
    obtain ⟨c', hc', hname', rfl, _⟩ := hlinked _ _ _ _ _ hconn'
    exact hexpr.oneType c hc c' hc' (hname.trans hname'.symm)
  · intro source type outputIndex destination inputIndex hconn
    obtain ⟨c, hc, rfl, _⟩ := hlinked _ _ _ _ _ hconn
    exact hexpr.noPrototype c hc
  · intro source type outputIndex destination inputIndex source' type' outputIndex'
      destination' inputIndex' hconn hconn' hkey
    obtain ⟨c, hc, rfl, rfl, rfl, rfl, rfl⟩ := hlinked _ _ _ _ _ hconn
    obtain ⟨c', hc', rfl, rfl, rfl, rfl, rfl⟩ := hlinked _ _ _ _ _ hconn'
    -- connections are filed under their keys, so those of one key are one
    obtain ⟨key, hc⟩ := InsertionMap.mem_values_iff.mp hc
    obtain ⟨key', hc'⟩ := InsertionMap.mem_values_iff.mp hc'
    have heq : key = key' :=
      ((hg.filed key c hc).trans hkey).trans (hg.filed key' c' hc').symm
    rw [heq, hc'] at hc
    cases hc
    rfl

theorem links_eq_of_key (h : Convertible w) {c' : GraphConnection} (hc : c ∈ links w)
    (hc' : c' ∈ links w) (hkey : makeKey c' = makeKey c) : c' = c := by
  have hconn := connects_links.mpr ⟨c, hc, rfl, rfl, rfl, rfl, rfl⟩
  have hconn' := connects_links.mpr ⟨c', hc', rfl, rfl, rfl, rfl, rfl⟩
  have heq := h.keysDistinct _ _ _ _ _ _ _ _ _ _ hconn' hconn hkey
  obtain ⟨source, type, outputIndex, conn, _, rfl⟩ := mem_links_iff.mp hc
  obtain ⟨source', type', outputIndex', conn', _, rfl⟩ := mem_links_iff.mp hc'
  simp only [link, node_named_name, Prod.mk.injEq] at heq ⊢
  obtain ⟨rfl, rfl, rfl, hnode, hindex⟩ := heq
  rw [hnode, hindex]

theorem expressible_of_convertible (h : Convertible w) (hcs : ∀ c ∈ cs, c ∈ links w) :
    Expressible cs := by
  have hconn : ∀ c ∈ cs, Connects w.connectionsBySourceNode c.fromNode.name c.type c.outputIndex
      c.toNode.name c.inputIndex :=
    fun c hc => connects_links.mpr ⟨c, hcs c hc, rfl, rfl, rfl, rfl, rfl⟩
  refine ⟨fun c hc c' hc' hname => ?_, fun c hc => h.noPrototype _ _ _ _ _ (hconn c hc)⟩
  exact h.oneType _ _ _ _ _ _ _ _ _ (hconn c hc) (hname ▸ hconn c' hc')

theorem create_get_node {connections : IConnections} (hg : WellFormed g)
    (hnodes : g.nodes = (empty.addNodes w.nodes.values).nodes) (name : String) :
    (Workflow.create g.getNodes connections executionOrder).getNode name = w.getNode name := by
  have hstores : ∀ node, g.stores node = true ↔ w.getNode node.name = some node := by
    intro node
    rw [← workflow_nodes_stores, stores_iff, stores_iff, hnodes]
  have hplain : ∀ node ∈ g.getNodes, node.name ≠ "__proto__" := by
    intro node hnode
    exact (w.named _ _ ((hstores node).mp ((mem_get_nodes_iff hg).mp hnode))).2
  have hcreated : ∀ node, (Workflow.nodesByName g.getNodes).get? node.name = some node ↔
      w.getNode node.name = some node := by
    intro node
    rw [nodes_by_name_eq hplain, ← stores_iff, add_nodes_stores (get_nodes_names_nodup hg),
      mem_get_nodes_iff hg, hstores]
    simp [stores, empty]
  ext node
  change (Workflow.nodesByName g.getNodes).get? name = some node ↔ _
  refine ⟨fun h => ?_, fun h => ?_⟩
  · obtain ⟨rfl, _⟩ := Workflow.nodes_by_name_named h
    exact (hcreated node).mp h
  · obtain ⟨rfl, _⟩ := w.named name node h
    exact (hcreated node).mpr h

theorem round_trips_of_convertible (hw : NamesNodes w) (h : Convertible w) :
    RoundTrips w executionOrder := by
  have hgraph := from_workflow_eq hw h.visible
  have hg := from_workflow_well_formed hgraph
  obtain ⟨hbase, hnone⟩ := add_nodes_well_formed w.nodes.values empty_well_formed rfl
  obtain ⟨_, hnodes, hold⟩ := set_connections_well_formed hbase fun c hc => links_stored hw hc
  have hget := fun c (hc : c ∈ links w) =>
    set_connections_get (g := empty.addNodes w.nodes.values) hc fun c' hc' =>
      links_eq_of_key h hc hc'
  generalize (links w).foldl setConnection (empty.addNodes w.nodes.values) = g at *
  have hmem : ∀ c, c ∈ g.connections.values ↔ c ∈ links w := by
    refine fun c => ⟨fun hc => ?_, fun hc => ?_⟩
    · rcases hold c hc with hbefore | hlink
      · rw [hnone] at hbefore
        cases hbefore
      · exact hlink
    · exact InsertionMap.mem_values_iff.mpr ⟨_, hget c hc⟩
  obtain ⟨result, hrun⟩ :=
    add_all_rebuilt.2 (expressible_of_convertible h fun c hc => (hmem c).mp hc)
  have hback : g.toWorkflow executionOrder =
      .ok (Workflow.create g.getNodes result executionOrder) := by
    rw [toWorkflow, toIConnections, hrun]
    rfl
  refine ⟨g, _, hgraph, hback, create_get_node hg hnodes, fun source type outputIndex destination
    inputIndex => ?_⟩
  change Connects result _ _ _ _ _ ↔ _
  rw [connects_rebuilt (add_all_rebuilt.1 result hrun).2, connects_links]
  simp only [Linked, hmem]

/-- A workflow whose connections name existing nodes survives the conversion to a graph and back
exactly when it is convertible. -/
theorem round_trip_iff {w : Workflow} {executionOrder : Option ExecutionOrder}
    (hw : NamesNodes w) : RoundTrips w executionOrder ↔ Convertible w :=
  ⟨convertible_of_round_trips, round_trips_of_convertible hw⟩

theorem names_nodes_of_all
    (h : ∀ e ∈ w.connectionsBySourceNode.entries, (w.getNode e.1).isSome = true ∧
      ∀ t ∈ e.2.entries, ∀ conns ∈ t.2, ∀ conn ∈ conns.getD [],
        (w.getNode conn.node).isSome = true) : NamesNodes w where
  sources name hname := by
    obtain ⟨e, he, rfl⟩ := List.mem_map.mp hname
    exact Option.isSome_iff_exists.mp (h e he).1
  targets source type outputIndex conn hhas := by
    obtain ⟨iConnection, outputs, conns, hsource, htype, hindex, hconn⟩ := hhas
    have he := InsertionMap.get_eq_some_iff.mp hsource
    have ht := InsertionMap.get_eq_some_iff.mp htype
    exact Option.isSome_iff_exists.mp
      ((h _ he).2 _ ht _ (List.mem_of_getElem? hindex) conn hconn)

/-- A node that leaves its first output free and feeds both inputs of another one. -/
def gapped : Workflow :=
  .create [{ name := "trigger" }, { name := "merge" }]
    (InsertionMap.set .empty "trigger" (InsertionMap.set .empty .main
      [none, some [⟨"merge", .main, 1⟩], some [⟨"merge", .main, 0⟩]])) none

/-- The conversion of that workflow. -/
theorem round_trip_gapped : RoundTrips gapped none ↔ Convertible gapped :=
  round_trip_iff (names_nodes_of_all (by decide))

/-- A store that serves both the data path and an agent. -/
def mixedTypes : Workflow :=
  .create [{ name := "store" }, { name := "set" }, { name := "agent" }]
    (InsertionMap.set .empty "store"
      (InsertionMap.set (InsertionMap.set .empty .main [some [⟨"set", .main, 0⟩]])
        .aiTool [some [⟨"agent", .aiTool, 0⟩]])) none

/-- Two connections of one key, because a node name contains the separator. -/
def dashedNames : Workflow :=
  .create [{ name := "a" }, { name := "b-main-0-0-c" }, { name := "a-main-0-0-b" },
      { name := "c" }]
    (InsertionMap.set (InsertionMap.set .empty "a"
        (InsertionMap.set .empty .main [some [⟨"b-main-0-0-c", .main, 0⟩]]))
      "a-main-0-0-b" (InsertionMap.set .empty .main [some [⟨"c", .main, 0⟩]])) none

/-- The conversion throws for a source with two types of connections, and loses a connection
when keys collide. -/
theorem round_trip_lost :
    (NamesNodes mixedTypes ∧ ∃ g, fromWorkflow mixedTypes = .ok g ∧
      g.toWorkflow none = .error .typeError) ∧
      NamesNodes dashedNames ∧ ¬ RoundTrips dashedNames none := by
  refine ⟨⟨names_nodes_of_all (by decide), ?_⟩, names_nodes_of_all (by decide), fun h => ?_⟩
  · have hthrows : (do (← fromWorkflow mixedTypes).toIConnections) = .error .typeError := by
      decide +kernel
    have hok : (fromWorkflow mixedTypes).toOption.isSome = true := by decide +kernel
    cases hgraph : fromWorkflow mixedTypes with
    | error e =>
      rw [hgraph] at hok
      cases hok
    | ok g =>
      rw [hgraph] at hthrows
      refine ⟨g, rfl, ?_⟩
      rw [toWorkflow, show g.toIConnections = .error .typeError from hthrows]
      rfl
  · have hdistinct := (convertible_of_round_trips h).keysDistinct "a" .main 0 "b-main-0-0-c" 0
      "a-main-0-0-b" .main 0 "c" 0
      ⟨⟨"b-main-0-0-c", .main, 0⟩, ⟨_, _, _, rfl, rfl, rfl, by simp⟩, rfl, rfl⟩
      ⟨⟨"c", .main, 0⟩, ⟨_, _, _, rfl, rfl, rfl, by simp⟩, rfl, rfl⟩ (by decide)
    exact absurd (congrArg Prod.fst hdistinct) (by decide)

end N8n.PartialExecution
