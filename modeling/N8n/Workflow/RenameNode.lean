import N8n.Workflow.Connections
import N8n.Workflow.RenamedParameters

/-!
# Renaming a node

`renameNode` of `packages/workflow/src/workflow.ts`: it moves the node and its connections to the
new name, renames the node in the parameters of all nodes and in the targets of all connections,
and derives the connections by destination again. `RenamedWorkflow` says what a renamed workflow
is, and `rename_node_iff` when `renameNode` makes one.
-/

namespace N8n

open Collections

/-! ## The source -/

/-- A node with its parameters. The type of the node says which of them hold code. -/
structure ParameterizedNode extends INode where
  parameters : INodeParameters

/-- A workflow whose nodes have parameters. -/
structure ParameterizedWorkflow where
  nodes : InsertionMap String ParameterizedNode
  connectionsBySourceNode : IConnections
  named : ∀ name node, nodes.get? name = some node → node.name = name ∧ name ≠ "__proto__"

/-- The connections by destination node, which are derived whenever the connections change. -/
def ParameterizedWorkflow.connectionsByDestinationNode (w : ParameterizedWorkflow) :
    IConnections :=
  mapConnectionsByDestination w.connectionsBySourceNode

/-- The `restrictedKeys` of `renameNode`. -/
def restrictedKeys : List String :=
  ["hasOwnProperty", "isPrototypeOf", "propertyIsEnumerable", "toLocaleString", "toString",
    "valueOf", "constructor", "prototype", "__proto__", "__defineGetter__", "__defineSetter__",
    "__lookupGetter__", "__lookupSetter__"]

/-- `toLowerCase()`, as far as its result can be an ASCII text: the sign for Kelvin is the one
other character whose lower case is an ASCII letter. -/
def toLowerCase (text : String) : List Char :=
  text.toList.map fun c => if c = '\u212a' then 'k' else c.toLower

/-- `restrictedKeys.map((k) => k.toLowerCase()).includes(newName.toLowerCase())`. -/
def isRestricted (newName : String) : Bool :=
  (restrictedKeys.map toLowerCase).contains (toLowerCase newName)

/-- The errors of `renameNode`: a restricted name, and a call of an own property
`hasOwnProperty`, which is no function. -/
inductive RenameError where
  | userError (message description : String)
  | typeError
  deriving DecidableEq, Repr

/-- `new UserError` for a restricted name. -/
def restrictedName (newName : String) : RenameError :=
  .userError ("Node name \"" ++ newName ++ "\" is a restricted name.")
    ("Node names cannot be any of the following: " ++ ", ".intercalate restrictedKeys)

/-- Move the node to its new name: `nodes[newName] = nodes[currentName]`, and then
`delete nodes[currentName]`. -/
def moveNode (nodes : InsertionMap String ParameterizedNode) (currentName newName : String) :
    InsertionMap String ParameterizedNode :=
  match nodes.get? currentName with
  | some node => (nodes.set newName { node with name := newName }).delete currentName
  | none => nodes

/-- Rename the node in the parameters of a node. -/
def ParameterizedNode.renameReferences (currentName newName : String) (node : ParameterizedNode) :
    ParameterizedNode :=
  { node with
    parameters :=
      renameNodeInParameters currentName.toList newName.toList node.type node.parameters }

/-- Move the connections of the node to its new name. -/
def moveConnections (connections : IConnections) (currentName newName : String) : IConnections :=
  match connections.get? currentName with
  | some ofNode => InsertionMap.delete (connections.set newName ofNode) currentName
  | none => connections

/-- Change the targets of the connections of a node. -/
def INodeConnections.mapTargets (ofNode : INodeConnections) (rename : String → String) :
    INodeConnections :=
  InsertionMap.mapValues ofNode fun outputs => outputs.map fun conns =>
    conns.map fun conns => conns.map fun connection =>
      { connection with node := rename connection.node }

/-- `if (connectionData?.node === currentName) connectionData.node = newName`. -/
def renamed (currentName newName name : String) : String :=
  if name = currentName then newName else name

/-- The targets of the connections in the order in which `mapConnectionsByDestination` meets
them. -/
def IConnections.targets (connections : IConnections) : List String :=
  connections.entries.flatMap fun ofNode => ofNode.2.entries.flatMap fun outputs =>
    outputs.2.flatMap fun conns => (conns.getD []).map (·.node)

/-- After a target `hasOwnProperty`, `mapConnectionsByDestination` fails at the next one. -/
def IConnections.hidesOwn (connections : IConnections) : Bool :=
  connections.targets.dropLast.contains "hasOwnProperty"

variable {node : ParameterizedNode}

theorem named_after_move {w : ParameterizedWorkflow} {currentName newName name : String}
    (hrestricted : isRestricted newName = false)
    (h : ((moveNode w.nodes currentName newName).mapValues
      (·.renameReferences currentName newName)).get? name = some node) :
    node.name = name ∧ name ≠ "__proto__" := by
  rw [InsertionMap.get_mapValues] at h
  obtain ⟨moved, hmoved, rfl⟩ := Option.map_eq_some_iff.mp h
  show moved.name = name ∧ _
  unfold moveNode at hmoved
  split at hmoved
  · rename_i current hcurrent
    rw [InsertionMap.get_delete] at hmoved
    split at hmoved
    · cases hmoved
    · rw [InsertionMap.get_set] at hmoved
      split at hmoved
      · rename_i hname
        cases hmoved
        refine ⟨hname.symm, fun hproto => ?_⟩
        rw [hname.symm.trans hproto] at hrestricted
        exact absurd hrestricted (by decide +kernel)
      · exact w.named _ _ hmoved
  · exact w.named _ _ hmoved

/-- `renameNode(currentName, newName)`. -/
def renameNode (w : ParameterizedWorkflow) (currentName newName : String) :
    Except RenameError ParameterizedWorkflow :=
  if hrestricted : isRestricted newName = true then .error (restrictedName newName)
  else if w.connectionsBySourceNode.has "hasOwnProperty" then .error .typeError
  else
    let connections : IConnections := InsertionMap.mapValues
      (moveConnections w.connectionsBySourceNode currentName newName)
      (INodeConnections.mapTargets · (renamed currentName newName))
    if connections.hidesOwn then .error .typeError
    else .ok {
      nodes := (moveNode w.nodes currentName newName).mapValues
        (·.renameReferences currentName newName)
      connectionsBySourceNode := connections
      named := fun _ _ h => named_after_move ((Bool.not_eq_true _).mp hrestricted) h }

/-! ## Renamed workflows -/

open Expression

/-- A node of a renamed workflow. -/
structure RenamedNode (g : Grammar) (currentName newName : String)
    (node node' : ParameterizedNode) : Prop where
  same : node' = { node with
    name := renamed currentName newName node.name, parameters := node'.parameters }
  parameters : RenamedValue g currentName.toList newName.toList (.parameters node.type)
    (.object node.parameters) (.object node'.parameters)

/-- A workflow is another one with a node renamed: its nodes and its connections are the images of
the other's, read from the sources as from the destinations. -/
structure RenamedWorkflow (g : Grammar) (currentName newName : String)
    (w w' : ParameterizedWorkflow) : Prop where
  nodes : ∀ name node, w.nodes.get? name = some node →
    ∃ node', w'.nodes.get? (renamed currentName newName name) = some node' ∧
      RenamedNode g currentName newName node node'
  noOtherNode : ∀ name' node', w'.nodes.get? name' = some node' →
    ∃ name node, w.nodes.get? name = some node ∧ renamed currentName newName name = name'
  sources : ∀ name ofNode, w.connectionsBySourceNode.get? name = some ofNode →
    w'.connectionsBySourceNode.get? (renamed currentName newName name) =
      some (INodeConnections.mapTargets ofNode (renamed currentName newName))
  noOtherSource : ∀ name' ofNode', w'.connectionsBySourceNode.get? name' = some ofNode' →
    ∃ name ofNode, w.connectionsBySourceNode.get? name = some ofNode ∧
      renamed currentName newName name = name'
  destinations : ∀ target' type index connection',
    w'.connectionsByDestinationNode.Has target' type index connection' ↔
      ∃ target connection, w.connectionsByDestinationNode.Has target type index connection ∧
        renamed currentName newName target = target' ∧
        { connection with node := renamed currentName newName connection.node } = connection'

/-- The new name has no connections that those of the node would replace. -/
def Unclobbered (currentName newName : String) (connections : IConnections) : Prop :=
  ∀ ofNode ofNode', connections.get? currentName = some ofNode →
    connections.get? newName = some ofNode' →
    INodeConnections.mapTargets ofNode (renamed currentName newName) =
      INodeConnections.mapTargets ofNode' (renamed currentName newName)

/-- The references to the node can be renamed in the parameters of all nodes. -/
def RenamableParameters (g : Grammar) (currentName newName : String)
    (w : ParameterizedWorkflow) : Prop :=
  ∀ name node, w.nodes.get? name = some node →
    Renamable g currentName.toList newName.toList (.parameters node.type) (.object node.parameters)

variable {g : Grammar} {currentName newName name : String} {w : ParameterizedWorkflow}

@[simp] theorem renamed_current : renamed currentName newName currentName = newName :=
  if_pos rfl

@[simp] theorem renamed_new : renamed currentName newName newName = newName := by
  unfold renamed
  split
  · rfl
  · rfl

theorem renamed_other (h : name ≠ currentName) : renamed currentName newName name = name :=
  if_neg h

theorem get_move_node (hne : currentName ≠ newName) (hother : w.nodes.get? newName = none)
    (h : w.nodes.get? name = some node) :
    (moveNode w.nodes currentName newName).get? (renamed currentName newName name) =
      some { node with name := renamed currentName newName node.name } := by
  have hname := (w.named _ _ h).1
  by_cases hcurrent : name = currentName
  · subst hcurrent
    rw [moveNode, h, renamed_current, InsertionMap.get_delete, if_neg (Ne.symm hne),
      InsertionMap.get_set_same, hname, renamed_current]
  · have hnew : name ≠ newName := by
      intro heq
      rw [heq, hother] at h
      cases h
    rw [renamed_other hcurrent, hname, renamed_other hcurrent]
    unfold moveNode
    split
    · rw [InsertionMap.get_delete, if_neg hcurrent, InsertionMap.get_set_other _ _ hnew, h, ← hname]
    · rw [h, ← hname]

theorem of_get_move_node (h : (moveNode w.nodes currentName newName).get? name = some node) :
    ∃ name' node', w.nodes.get? name' = some node' ∧ renamed currentName newName name' = name := by
  unfold moveNode at h
  split at h
  · rename_i current hcurrent
    rw [InsertionMap.get_delete] at h
    split at h
    · cases h
    · rename_i hname
      rw [InsertionMap.get_set] at h
      split at h
      · rename_i hnew
        exact ⟨currentName, current, hcurrent, hnew ▸ renamed_current⟩
      · exact ⟨name, node, h, renamed_other hname⟩
  · rename_i hnone
    refine ⟨name, node, h, renamed_other fun heq => ?_⟩
    rw [heq, hnone] at h
    cases h

/-- The connections after the move, with their targets renamed. -/
def renamedConnections (connections : IConnections) (currentName newName : String) :
    IConnections :=
  InsertionMap.mapValues (moveConnections connections currentName newName)
    (INodeConnections.mapTargets · (renamed currentName newName))

variable {connections : IConnections} {ofNode : INodeConnections}

theorem get_renamed_connections (hne : currentName ≠ newName)
    (hfree : Unclobbered currentName newName connections)
    (h : connections.get? name = some ofNode) :
    (renamedConnections connections currentName newName).get? (renamed currentName newName name) =
      some (INodeConnections.mapTargets ofNode (renamed currentName newName)) := by
  rw [renamedConnections, InsertionMap.get_mapValues]
  by_cases hcurrent : name = currentName
  · subst hcurrent
    rw [moveConnections, h, renamed_current, InsertionMap.get_delete, if_neg (Ne.symm hne),
      InsertionMap.get_set_same]
    rfl
  · rw [renamed_other hcurrent]
    unfold moveConnections
    split
    · rename_i moved hmoved
      rw [InsertionMap.get_delete, if_neg hcurrent, InsertionMap.get_set]
      split
      · rename_i hnew
        rw [hnew] at h
        exact congrArg some (hfree _ _ hmoved h)
      · rw [h]
        rfl
    · rw [h]
      rfl

theorem of_get_renamed_connections
    (h : (renamedConnections connections currentName newName).get? name = some ofNode) :
    ∃ name' ofNode', connections.get? name' = some ofNode' ∧
      renamed currentName newName name' = name := by
  rw [renamedConnections, InsertionMap.get_mapValues] at h
  obtain ⟨moved, hmoved, -⟩ := Option.map_eq_some_iff.mp h
  unfold moveConnections at hmoved
  split at hmoved
  · rename_i current hcurrent
    rw [InsertionMap.get_delete] at hmoved
    split at hmoved
    · cases hmoved
    · rename_i hname
      rw [InsertionMap.get_set] at hmoved
      split at hmoved
      · rename_i hnew
        exact ⟨currentName, current, hcurrent, hnew ▸ renamed_current⟩
      · exact ⟨name, moved, hmoved, renamed_other hname⟩
  · rename_i hnone
    refine ⟨name, moved, hmoved, renamed_other fun heq => ?_⟩
    rw [heq, hnone] at hmoved
    cases hmoved

variable {type : NodeConnectionType} {connection' : IConnection}

theorem has_map_targets {rename : String → String} {outputIndex : Nat} :
    INodeConnections.Has (INodeConnections.mapTargets ofNode rename) type outputIndex
        connection' ↔
      ∃ connection, INodeConnections.Has ofNode type outputIndex connection ∧
        { connection with node := rename connection.node } = connection' := by
  unfold INodeConnections.Has NodeInputConnections.Has INodeConnections.mapTargets
  rw [InsertionMap.get_mapValues]
  constructor
  · intro h
    obtain ⟨outputs', houtputs, conns', hconns, hmem⟩ := h
    obtain ⟨outputs, htype, rfl⟩ := Option.map_eq_some_iff.mp houtputs
    rw [List.getElem?_map] at hconns
    obtain ⟨conns, hget, hmap⟩ := Option.map_eq_some_iff.mp hconns
    obtain ⟨conns, rfl, rfl⟩ := Option.map_eq_some_iff.mp hmap
    obtain ⟨connection, hconnection, heq⟩ := List.mem_map.mp hmem
    exact ⟨connection, ⟨outputs, htype, conns, hget, hconnection⟩, heq⟩
  · intro h
    obtain ⟨connection, ⟨outputs, htype, conns, hget, hconnection⟩, heq⟩ := h
    refine ⟨_, Option.map_eq_some_iff.mpr ⟨outputs, htype, rfl⟩,
      conns.map fun connection => { connection with node := rename connection.node }, ?_,
      List.mem_map.mpr ⟨connection, hconnection, heq⟩⟩
    rw [List.getElem?_map, hget]
    rfl

theorem has_renamed_connections (hne : currentName ≠ newName)
    (hfree : Unclobbered currentName newName connections) {source' : String} {outputIndex : Nat} :
    (renamedConnections connections currentName newName).Has source' type outputIndex
        connection' ↔
      ∃ source connection, connections.Has source type outputIndex connection ∧
        renamed currentName newName source = source' ∧
        { connection with node := renamed currentName newName connection.node } =
          connection' := by
  simp only [IConnections.has_iff]
  constructor
  · intro h
    obtain ⟨ofNode', hsource', hhas⟩ := h
    obtain ⟨source, ofNode, hsource, hname⟩ := of_get_renamed_connections hsource'
    have himage := get_renamed_connections hne hfree hsource
    rw [hname, hsource'] at himage
    rw [Option.some.inj himage] at hhas
    obtain ⟨connection, hconnection, heq⟩ := has_map_targets.mp hhas
    exact ⟨source, connection, ⟨ofNode, hsource, hconnection⟩, hname, heq⟩
  · intro h
    obtain ⟨source, connection, ⟨ofNode, hsource, hconnection⟩, hname, heq⟩ := h
    refine ⟨_, hname ▸ get_renamed_connections hne hfree hsource, ?_⟩
    exact has_map_targets.mpr ⟨connection, hconnection, heq⟩

/-- The arrivals after the move are the images of those before. -/
theorem has_renamed_destinations (hne : currentName ≠ newName)
    (hfree : Unclobbered currentName newName connections) {target' : String} {index : Nat} :
    (mapConnectionsByDestination (renamedConnections connections currentName newName)).Has target'
        type index connection' ↔
      ∃ target connection,
        (mapConnectionsByDestination connections).Has target type index connection ∧
        renamed currentName newName target = target' ∧
        { connection with node := renamed currentName newName connection.node } =
          connection' := by
  refine (has_map_connections_by_destination _ ⟨target', type, index, connection'⟩).trans
    ((has_renamed_connections hne hfree).trans ?_)
  constructor
  · intro h
    obtain ⟨source, connection, hhas, hsource, heq⟩ := h
    cases heq
    refine ⟨connection.node, ⟨source, connection'.type, connection'.index⟩,
      (has_map_connections_by_destination _ ⟨_, _, _, _⟩).mpr hhas, rfl, ?_⟩
    rw [hsource]
  · intro h
    obtain ⟨target, connection, hhas, htarget, rfl⟩ := h
    refine ⟨connection.node, ⟨target, type, index⟩,
      (has_map_connections_by_destination _ ⟨_, _, _, _⟩).mp hhas, rfl, ?_⟩
    rw [htarget]

theorem mem_targets_iff {target : String} :
    target ∈ connections.targets ↔ ∃ source type outputIndex connection,
      connections.Has source type outputIndex connection ∧ connection.node = target := by
  unfold IConnections.targets
  simp only [List.mem_flatMap, List.mem_map, Prod.exists]
  constructor
  · intro h
    obtain ⟨source, ofNode, hsource, type, outputs, htype, conns, hconns, connection, hconnection,
      heq⟩ := h
    obtain ⟨outputIndex, hindex⟩ := List.mem_iff_getElem?.mp hconns
    cases conns with
    | none => cases hconnection
    | some conns =>
      exact ⟨source, type, outputIndex, connection, ⟨ofNode, outputs, conns,
        InsertionMap.get_eq_some_iff.mpr hsource, InsertionMap.get_eq_some_iff.mpr htype, hindex,
        hconnection⟩, heq⟩
  · intro h
    obtain ⟨source, type, outputIndex, connection, ⟨ofNode, outputs, conns, hsource, htype, hindex,
      hconnection⟩, heq⟩ := h
    exact ⟨source, ofNode, InsertionMap.get_eq_some_iff.mp hsource, type, outputs,
      InsertionMap.get_eq_some_iff.mp htype, some conns, List.mem_of_getElem? hindex, connection,
      hconnection, heq⟩

theorem ne_of_not_restricted (h : isRestricted name = false) : name ≠ "hasOwnProperty" := by
  intro heq
  rw [heq] at h
  exact absurd h (by decide +kernel)

theorem hides_own_renamed (hne : currentName ≠ newName)
    (hfree : Unclobbered currentName newName connections)
    (hrestricted : isRestricted newName = false)
    (hown : "hasOwnProperty" ∉ connections.targets) :
    (renamedConnections connections currentName newName).hidesOwn = false := by
  rw [IConnections.hidesOwn, ← Bool.not_eq_true, List.contains_iff_mem]
  intro hmem
  obtain ⟨source', type, outputIndex, connection', hhas, htarget⟩ :=
    mem_targets_iff.mp (List.dropLast_subset _ hmem)
  obtain ⟨source, connection, hconnection, -, heq⟩ := (has_renamed_connections hne hfree).mp hhas
  have hnode : renamed currentName newName connection.node = "hasOwnProperty" := by
    rw [← htarget, ← heq]
  unfold renamed at hnode
  split at hnode
  · exact ne_of_not_restricted hrestricted hnode
  · exact hown (mem_targets_iff.mpr ⟨_, _, _, _, hconnection, hnode⟩)

theorem rename_node_eq_ok {w' : ParameterizedWorkflow}
    (h : renameNode w currentName newName = .ok w') :
    isRestricted newName = false ∧ w.connectionsBySourceNode.has "hasOwnProperty" = false ∧
      w'.nodes = (moveNode w.nodes currentName newName).mapValues
        (·.renameReferences currentName newName) ∧
      w'.connectionsBySourceNode =
        renamedConnections w.connectionsBySourceNode currentName newName := by
  unfold renameNode at h
  split at h
  · cases h
  · rename_i hrestricted
    split at h
    · cases h
    · rename_i hown
      simp only at h
      split at h
      · cases h
      · cases h
        exact ⟨(Bool.not_eq_true _).mp hrestricted, (Bool.not_eq_true _).mp hown, rfl, rfl⟩

theorem rename_node_returns (hne : currentName ≠ newName)
    (hrestricted : isRestricted newName = false)
    (hsource : w.connectionsBySourceNode.has "hasOwnProperty" = false)
    (hfree : Unclobbered currentName newName w.connectionsBySourceNode)
    (hown : "hasOwnProperty" ∉ w.connectionsBySourceNode.targets) :
    ∃ w', renameNode w currentName newName = .ok w' := by
  have hhides := hides_own_renamed hne hfree hrestricted hown
  rw [renamedConnections] at hhides
  unfold renameNode
  simp [hrestricted, hsource, hhides]

theorem not_renamed_to_itself {w' : ParameterizedWorkflow} (hnode : w.nodes.has currentName)
    (h : renameNode w currentName currentName = .ok w') :
    ¬ RenamedWorkflow g currentName currentName w w' := by
  intro hrenamed
  obtain ⟨-, -, hnodes, -⟩ := rename_node_eq_ok h
  obtain ⟨node, hget⟩ := Option.isSome_iff_exists.mp hnode
  obtain ⟨node', hget', -⟩ := hrenamed.nodes _ _ hget
  rw [hnodes, InsertionMap.get_mapValues, moveNode, hget, InsertionMap.get_delete,
    renamed_current, if_pos rfl] at hget'
  cases hget'

/-- When `renameNode` gives a workflow with the node renamed. -/
theorem rename_node_iff (g : Grammar) (w : ParameterizedWorkflow) (currentName newName : String)
    (hnode : w.nodes.has currentName) (hother : newName ≠ currentName → ¬ w.nodes.has newName)
    (hown : "hasOwnProperty" ∉ w.connectionsBySourceNode.targets)
    (hparameters : RenamableParameters g currentName newName w) :
    (∃ w', renameNode w currentName newName = .ok w' ∧
      RenamedWorkflow g currentName newName w w') ↔
      currentName ≠ newName ∧ isRestricted newName = false ∧
        w.connectionsBySourceNode.has "hasOwnProperty" = false ∧
        Unclobbered currentName newName w.connectionsBySourceNode := by
  constructor
  · intro h
    obtain ⟨w', hrename, hrenamed⟩ := h
    obtain ⟨hrestricted, hsource, -⟩ := rename_node_eq_ok hrename
    refine ⟨fun heq => ?_, hrestricted, hsource, fun ofNode ofNode' hcurrent hnew => ?_⟩
    · subst heq
      exact not_renamed_to_itself hnode hrename hrenamed
    · have hcurrent' := hrenamed.sources _ _ hcurrent
      have hnew' := hrenamed.sources _ _ hnew
      rw [renamed_current] at hcurrent'
      rw [renamed_new, hcurrent'] at hnew'
      exact Option.some.inj hnew'
  · intro h
    obtain ⟨hne, hrestricted, hsource, hfree⟩ := h
    obtain ⟨w', hrename⟩ := rename_node_returns hne hrestricted hsource hfree hown
    obtain ⟨-, -, hnodes, hconnections⟩ := rename_node_eq_ok hrename
    have hnone : w.nodes.get? newName = none := by
      rw [← Option.not_isSome_iff_eq_none]
      exact hother (Ne.symm hne)
    refine ⟨w', hrename, fun name node hget => ?_, fun name node hget => ?_,
      fun name ofNode hget => ?_, fun name ofNode hget => ?_,
      fun target type index connection => ?_⟩
    · have hmoved := get_move_node hne hnone hget
      refine ⟨ParameterizedNode.renameReferences currentName newName
        { node with name := renamed currentName newName node.name }, ?_, rfl,
        renamed_parameters (hparameters name node hget)⟩
      rw [hnodes, InsertionMap.get_mapValues, hmoved]
      rfl
    · rw [hnodes, InsertionMap.get_mapValues] at hget
      obtain ⟨node', hmoved, -⟩ := Option.map_eq_some_iff.mp hget
      exact of_get_move_node hmoved
    · rw [hconnections]
      exact get_renamed_connections hne hfree hget
    · rw [hconnections] at hget
      exact of_get_renamed_connections hget
    · unfold ParameterizedWorkflow.connectionsByDestinationNode
      rw [hconnections]
      exact has_renamed_destinations hne hfree

/-! ## A workflow with two nodes -/

/-- A node `A` that refers to itself, and a code node `AB` that refers to it. -/
def twoNodes : ParameterizedWorkflow where
  nodes := ⟨[
    ("A", { name := "A", type := "n8n-nodes-base.set", parameters :=
      [("value", .string "=$node.A.json + $node[\"A\"].json + $('AB').first()".toList)] }),
    ("AB", { name := "AB", type := "n8n-nodes-base.code", parameters :=
      [("jsCode", .string "return $('A').all().concat($items('A', 0))".toList)] })], by decide⟩
  connectionsBySourceNode := ⟨[("A", ⟨[(.main, [some [⟨"AB", .main, 0⟩]])], by decide⟩)], by decide⟩
  named := by
    intro name node h
    rw [InsertionMap.get_eq_some_iff] at h
    simp only [List.mem_cons, Prod.mk.injEq, List.not_mem_nil, or_false] at h
    obtain ⟨rfl, rfl⟩ | ⟨rfl, rfl⟩ := h
    · decide
    · decide

theorem renamable_two_nodes : RenamableParameters .ascii "A" "My Node" twoNodes := by
  intro name node h
  rw [InsertionMap.get_eq_some_iff] at h
  simp only [twoNodes, List.mem_cons, Prod.mk.injEq, List.not_mem_nil, or_false] at h
  obtain ⟨rfl, rfl⟩ | ⟨rfl, rfl⟩ := h
  · refine ⟨by decide, fun _ => ⟨by decide +kernel, fun htwice => ?_⟩, trivial⟩
    exact absurd htwice (by decide)
  · refine ⟨by decide, fun _ => ⟨by decide +kernel, fun _ hequals => ?_⟩, trivial⟩
    exact absurd hequals (by decide)

/-- Renaming `A` to a name that cannot follow a dot. -/
theorem rename_node_two_nodes : ∃ w', renameNode twoNodes "A" "My Node" = .ok w' ∧
    RenamedWorkflow .ascii "A" "My Node" twoNodes w' :=
  (rename_node_iff .ascii twoNodes "A" "My Node" (by decide) (fun _ => by decide) (by decide)
    renamable_two_nodes).mpr
    ⟨by decide, by decide +kernel, by decide, fun _ ofNode' _ hnew => by
      have hnone : twoNodes.connectionsBySourceNode.get? "My Node" = none := by decide
      rw [hnone] at hnew
      cases hnew⟩

/-- Renaming `A` to `A` returns a workflow in which the node is gone. -/
theorem rename_node_to_itself : ∃ w', renameNode twoNodes "A" "A" = .ok w' ∧
    w'.nodes.has "A" = false ∧ ¬ RenamedWorkflow .ascii "A" "A" twoNodes w' := by
  cases h : renameNode twoNodes "A" "A" with
  | error e =>
    have hok : (renameNode twoNodes "A" "A").isOk = true := by decide +kernel
    rw [h] at hok
    cases hok
  | ok w' =>
    refine ⟨w', rfl, ?_, not_renamed_to_itself (by decide) h⟩
    rw [(rename_node_eq_ok h).2.2.1]
    decide +kernel

end N8n
