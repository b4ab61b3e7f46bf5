import N8n.Collections.Fallible
import N8n.Workflow.Types

/-!
# Connections

The connections of a workflow in nested form as facts: which output of which node is connected to
which input of which node. `has_map_connections_by_destination` says that
`mapConnectionsByDestination` has the same facts, read from the other end.
-/

namespace N8n

open Collections

/-- A connection of some output of one type. -/
def NodeInputConnections.Has (outputs : NodeInputConnections) (outputIndex : Nat)
    (connection : IConnection) : Prop :=
  ∃ conns, outputs[outputIndex]? = some (some conns) ∧ connection ∈ conns

/-- A connection of some output of a node. -/
def INodeConnections.Has (iConnection : INodeConnections) (type : NodeConnectionType)
    (outputIndex : Nat) (connection : IConnection) : Prop :=
  ∃ outputs, iConnection.get? type = some outputs ∧
    NodeInputConnections.Has outputs outputIndex connection

variable {connections : IConnections} {source : String} {type : NodeConnectionType}
  {outputIndex : Nat} {connection : IConnection}

theorem IConnections.has_iff :
    connections.Has source type outputIndex connection ↔
      ∃ iConnection, connections.get? source = some iConnection ∧
        INodeConnections.Has iConnection type outputIndex connection := by
  refine ⟨fun h => ?_, fun h => ?_⟩
  · obtain ⟨iConnection, outputs, conns, hsource, htype, hindex, hmem⟩ := h
    exact ⟨iConnection, hsource, outputs, htype, conns, hindex, hmem⟩
  · obtain ⟨iConnection, hsource, outputs, htype, conns, hindex, hmem⟩ := h
    exact ⟨iConnection, outputs, conns, hsource, htype, hindex, hmem⟩

theorem IConnections.not_has_of_none (h : connections.get? source = none) :
    ¬ connections.Has source type outputIndex connection := by
  intro hhas
  obtain ⟨iConnection, hsource, _⟩ := IConnections.has_iff.mp hhas
  rw [h] at hsource
  cases hsource

theorem IConnections.has_set {name : String} {iConnection : INodeConnections} :
    IConnections.Has (connections.set name iConnection) source type outputIndex connection ↔
      if source = name then INodeConnections.Has iConnection type outputIndex connection
      else connections.Has source type outputIndex connection := by
  rw [IConnections.has_iff, InsertionMap.get_set]
  split
  · simp
  · rw [IConnections.has_iff]

theorem INodeConnections.has_set {iConnection : INodeConnections} {type' : NodeConnectionType}
    {outputs : NodeInputConnections} :
    INodeConnections.Has (iConnection.set type outputs) type' outputIndex connection ↔
      if type' = type then NodeInputConnections.Has outputs outputIndex connection
      else INodeConnections.Has iConnection type' outputIndex connection := by
  rw [INodeConnections.Has, InsertionMap.get_set]
  split
  · simp
  · rfl

/-! ## Connections by destination -/

/-- What `addByDestination` makes of the inputs of a target. -/
def fillInput (inputs : NodeInputConnections) (index : Nat) (connection : IConnection) :
    NodeInputConnections :=
  (inputs ++ List.replicate (index + 1 - inputs.length) (some [])).modify index
    (·.map (· ++ [connection]))

/-- Every input of the connections by destination is an array. -/
def IConnections.Filled (connections : IConnections) : Prop :=
  ∀ target ofNode type inputs, connections.get? target = some ofNode →
    ofNode.get? type = some inputs → none ∉ inputs

variable {index : Nat}

theorem has_getD {target : String} :
    INodeConnections.Has ((connections.get? target).getD .empty) type index connection ↔
      connections.Has target type index connection := by
  rw [IConnections.has_iff]
  cases h : connections.get? target with
  | none => simp [INodeConnections.Has]
  | some ofNode => simp

theorem has_inputs_getD {ofNode : INodeConnections} :
    NodeInputConnections.Has ((ofNode.get? type).getD []) index connection ↔
      INodeConnections.Has ofNode type index connection := by
  rw [INodeConnections.Has]
  cases h : ofNode.get? type with
  | none => simp [NodeInputConnections.Has]
  | some inputs => simp

variable {inputs : NodeInputConnections}

theorem has_padded {missing : Nat} :
    NodeInputConnections.Has (inputs ++ List.replicate missing (some [])) index connection ↔
      NodeInputConnections.Has inputs index connection := by
  unfold NodeInputConnections.Has
  rw [List.getElem?_append]
  split
  · exact Iff.rfl
  · rename_i hlt
    rw [List.getElem?_eq_none (Nat.le_of_not_lt hlt), List.getElem?_replicate]
    constructor
    · intro h
      obtain ⟨conns, hget, hmem⟩ := h
      split at hget
      · cases hget
        cases hmem
      · cases hget
    · intro h
      obtain ⟨conns, hget, -⟩ := h
      cases hget

theorem has_modify {index' : Nat} {connection' : IConnection} (hinputs : none ∉ inputs)
    (hindex : index < inputs.length) :
    NodeInputConnections.Has (inputs.modify index (·.map (· ++ [connection]))) index'
        connection' ↔
      NodeInputConnections.Has inputs index' connection' ∨
        index' = index ∧ connection' = connection := by
  unfold NodeInputConnections.Has
  rw [List.getElem?_modify]
  by_cases heq : index = index'
  · subst heq
    cases hget : inputs[index] with
    | none => exact absurd (hget ▸ List.getElem_mem hindex) hinputs
    | some conns =>
      rw [List.getElem?_eq_getElem hindex, hget]
      simp
  · have hne : ¬ index' = index := fun h => heq h.symm
    simp [heq, hne]

theorem none_not_mem_padded {missing : Nat} (hinputs : none ∉ inputs) :
    none ∉ inputs ++ List.replicate missing (some []) := by
  rw [List.mem_append]
  intro h
  cases h with
  | inl h => exact hinputs h
  | inr h => exact absurd (List.eq_of_mem_replicate h) (by simp)

theorem has_fill_input {index' : Nat} {connection' : IConnection} (hinputs : none ∉ inputs) :
    NodeInputConnections.Has (fillInput inputs index connection) index' connection' ↔
      NodeInputConnections.Has inputs index' connection' ∨
        index' = index ∧ connection' = connection := by
  have hlength : index <
      (inputs ++ List.replicate (index + 1 - inputs.length) (some [])).length := by
    rw [List.length_append, List.length_replicate]
    omega
  exact (has_modify (none_not_mem_padded hinputs) hlength).trans (or_congr has_padded Iff.rfl)

theorem none_not_mem_fill_input (hinputs : none ∉ inputs) :
    none ∉ fillInput inputs index connection := by
  intro h
  obtain ⟨i, hi⟩ := List.mem_iff_getElem?.mp h
  rw [fillInput, List.getElem?_modify] at hi
  obtain ⟨conns, hconns, hmap⟩ := Option.map_eq_some_iff.mp hi
  have hsome : conns ≠ none := fun heq =>
    none_not_mem_padded hinputs (List.mem_of_getElem? (heq ▸ hconns))
  cases conns with
  | none => exact hsome rfl
  | some conns =>
    split at hmap
    · cases hmap
    · cases hmap

/-- A connection seen from its target. -/
structure Arrival where
  target : String
  type : NodeConnectionType
  index : Nat
  connection : IConnection

/-- The connections by destination have an arrival. -/
def IConnections.HasArrival (connections : IConnections) (arrival : Arrival) : Prop :=
  connections.Has arrival.target arrival.type arrival.index arrival.connection

/-- A connection as it arrives at its target. -/
def IConnection.arrival (connection : IConnection) (source : String) (type : NodeConnectionType)
    (outputIndex : Nat) : Arrival :=
  ⟨connection.node, connection.type, connection.index, ⟨source, type, outputIndex⟩⟩

variable {result : IConnections}

theorem has_add_by_destination (h : result.Filled) :
    (addByDestination source type outputIndex result connection).Filled ∧
      ∀ arrival, (addByDestination source type outputIndex result connection).HasArrival arrival ↔
        result.HasArrival arrival ∨ arrival = connection.arrival source type outputIndex := by
  have hinputs : none ∉ ((((result.get? connection.node).getD .empty).get?
      connection.type).getD [] : NodeInputConnections) := by
    cases htarget : result.get? connection.node with
    | none => exact List.not_mem_nil
    | some ofNode =>
      cases htype : ofNode.get? connection.type with
      | none => simp [htype]
      | some inputs =>
        simpa [htype] using h _ _ _ _ htarget htype
  have hadd : addByDestination source type outputIndex result connection =
      result.set connection.node (((result.get? connection.node).getD .empty).set connection.type
        (fillInput ((((result.get? connection.node).getD .empty).get? connection.type).getD [])
          connection.index ⟨source, type, outputIndex⟩)) := rfl
  rw [hadd]
  constructor
  · intro target ofNode type' inputs htarget htype
    rw [InsertionMap.get_set] at htarget
    split at htarget
    · cases htarget
      rw [InsertionMap.get_set] at htype
      split at htype
      · cases htype
        exact none_not_mem_fill_input hinputs
      · cases hold : result.get? connection.node with
        | none =>
          rw [hold] at htype
          cases htype
        | some ofNode =>
          rw [hold] at htype
          exact h _ _ _ _ hold htype
    · exact h _ _ _ _ htarget htype
  · intro arrival
    obtain ⟨target, type', index, arriving⟩ := arrival
    unfold IConnections.HasArrival IConnection.arrival
    rw [IConnections.has_set, Arrival.mk.injEq]
    split
    · rename_i htarget
      rw [INodeConnections.has_set, htarget]
      split
      · rename_i htype
        have htarget' : target = connection.node := htarget
        have htype' : type' = connection.type := htype
        rw [has_fill_input hinputs, has_inputs_getD, has_getD, htype]
        simp [htarget', htype']
      · rename_i htype
        rw [has_getD]
        simp [htype]
    · rename_i htarget
      simp [htarget]

theorem has_fold_connections (source : String) (type : NodeConnectionType) (outputIndex : Nat)
    (conns : List IConnection) (h : result.Filled) :
    (conns.foldl (addByDestination source type outputIndex) result).Filled ∧
      ∀ arrival, (conns.foldl (addByDestination source type outputIndex) result).HasArrival
        arrival ↔ result.HasArrival arrival ∨
          ∃ connection ∈ conns, arrival = connection.arrival source type outputIndex :=
  foldl_adds IConnections.Filled IConnections.HasArrival
    (fun (connection : IConnection) arrival =>
      arrival = connection.arrival source type outputIndex)
    (fun _ hfilled _ _ => has_add_by_destination hfilled) h

/-- An arrival comes from an output of one type of a node. -/
def NodeInputConnections.Sends (outputs : NodeInputConnections) (source : String)
    (type : NodeConnectionType) (arrival : Arrival) : Prop :=
  ∃ output ∈ outputs.zipIdx, ∃ connection ∈ output.1.getD [],
    arrival = connection.arrival source type output.2

/-- An arrival comes from an output of a node. -/
def INodeConnections.Sends (ofNode : INodeConnections) (source : String)
    (arrival : Arrival) : Prop :=
  ∃ ofType ∈ ofNode.entries, NodeInputConnections.Sends ofType.2 source ofType.1 arrival

theorem has_fold_outputs (source : String) (type : NodeConnectionType)
    (outputs : NodeInputConnections) (h : result.Filled) :
    (outputs.zipIdx.foldl (fun result (conns, outputIndex) =>
        (conns.getD []).foldl (addByDestination source type outputIndex) result) result).Filled ∧
      ∀ arrival, (outputs.zipIdx.foldl (fun result (conns, outputIndex) =>
        (conns.getD []).foldl (addByDestination source type outputIndex) result)
          result).HasArrival arrival ↔
        result.HasArrival arrival ∨ NodeInputConnections.Sends outputs source type arrival :=
  foldl_adds IConnections.Filled IConnections.HasArrival
    (fun (output : Option (List IConnection) × Nat) arrival => ∃ connection ∈ output.1.getD [],
      arrival = connection.arrival source type output.2)
    (fun _ hfilled output _ =>
      has_fold_connections source type output.2 (output.1.getD []) hfilled) h

theorem has_fold_types (source : String) (ofNode : INodeConnections) (h : result.Filled) :
    (ofNode.entries.foldl (fun result (type, outputs) =>
        outputs.zipIdx.foldl (fun result (conns, outputIndex) =>
          (conns.getD []).foldl (addByDestination source type outputIndex) result) result)
        result).Filled ∧
      ∀ arrival, (ofNode.entries.foldl (fun result (type, outputs) =>
        outputs.zipIdx.foldl (fun result (conns, outputIndex) =>
          (conns.getD []).foldl (addByDestination source type outputIndex) result) result)
          result).HasArrival arrival ↔
        result.HasArrival arrival ∨ INodeConnections.Sends ofNode source arrival :=
  foldl_adds IConnections.Filled IConnections.HasArrival
    (fun (ofType : NodeConnectionType × NodeInputConnections) arrival =>
      NodeInputConnections.Sends ofType.2 source ofType.1 arrival)
    (fun _ hfilled ofType _ => has_fold_outputs source ofType.1 ofType.2 hfilled) h

theorem sends_iff {ofNode : INodeConnections} {arrival : Arrival} :
    INodeConnections.Sends ofNode source arrival ↔ arrival.connection.node = source ∧
      INodeConnections.Has ofNode arrival.connection.type arrival.connection.index
        ⟨arrival.target, arrival.type, arrival.index⟩ := by
  constructor
  · intro h
    obtain ⟨⟨type, outputs⟩, htype, ⟨conns, outputIndex⟩, houtput, connection, hmem, rfl⟩ := h
    cases conns with
    | none => cases hmem
    | some conns =>
      exact ⟨rfl, outputs, InsertionMap.get_eq_some_iff.mpr htype, conns,
        List.mem_zipIdx_iff_getElem?.mp houtput, hmem⟩
  · intro h
    obtain ⟨hsource, outputs, htype, conns, houtput, hmem⟩ := h
    refine ⟨⟨_, outputs⟩, InsertionMap.get_eq_some_iff.mp htype, ⟨some conns, _⟩,
      List.mem_zipIdx_iff_getElem?.mpr houtput, _, hmem, ?_⟩
    rw [← hsource]
    rfl

theorem has_map_connections_by_destination (connections : IConnections) (arrival : Arrival) :
    (mapConnectionsByDestination connections).HasArrival arrival ↔
      connections.Has arrival.connection.node arrival.connection.type arrival.connection.index
        ⟨arrival.target, arrival.type, arrival.index⟩ := by
  have hempty : IConnections.Filled .empty := fun target ofNode type inputs htarget =>
    absurd htarget (by simp)
  have hnone : ¬ IConnections.HasArrival .empty arrival :=
    IConnections.not_has_of_none (InsertionMap.get_empty _)
  have hfold : (mapConnectionsByDestination connections).HasArrival arrival ↔
      IConnections.HasArrival .empty arrival ∨
        ∃ entry ∈ connections.entries, INodeConnections.Sends entry.2 entry.1 arrival :=
    (foldl_adds IConnections.Filled IConnections.HasArrival
      (fun (entry : String × INodeConnections) arrival =>
        INodeConnections.Sends entry.2 entry.1 arrival)
      (fun _ hfilled entry _ => has_fold_types entry.1 entry.2 hfilled) hempty).2 arrival
  refine hfold.trans ?_
  rw [IConnections.has_iff]
  constructor
  · intro h
    obtain ⟨⟨source, ofNode⟩, hentry, hsends⟩ := h.resolve_left hnone
    obtain ⟨hsource, hhas⟩ := sends_iff.mp hsends
    exact ⟨ofNode, InsertionMap.get_eq_some_iff.mpr (hsource ▸ hentry), hhas⟩
  · intro h
    obtain ⟨ofNode, hentry, hhas⟩ := h
    exact .inr ⟨⟨_, ofNode⟩, InsertionMap.get_eq_some_iff.mp hentry, sends_iff.mpr ⟨rfl, hhas⟩⟩

end N8n
