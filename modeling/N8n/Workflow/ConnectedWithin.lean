import N8n.Collections.Fallible
import N8n.Graph.BoundedSearch
import N8n.Graph.Distance
import N8n.Workflow.ConnectedNodes

/-!
# Connected nodes up to a depth

`getConnectedNodes` of `packages/workflow/src/common/get-connected-nodes.ts` with all of its
arguments. It finds the nodes that can be reached within the depth. A node that a connection of
the start leads to is put on the list without a look at the list, which has it twice when an
earlier connection led there too.
-/

namespace N8n.ConnectedWithin

open Collections Graph

/-- The argument `connectionType`: one type, `'ALL'` or `'ALL_NON_MAIN'`. -/
inductive ConnectionTypes where
  | only (type : NodeConnectionType)
  | all
  | allNonMain
  deriving DecidableEq, Repr

/-- The types among those of a node that are followed. -/
def ConnectionTypes.types (connectionType : ConnectionTypes) (ofNode : INodeConnections) :
    List NodeConnectionType :=
  match connectionType with
  | only type => [type]
  | all => ofNode.keys
  | allNonMain => ofNode.keys.filter (· ≠ .main)

/-- How the search can fail: a property is no function, or the model runs out of fuel. -/
inductive SearchError where
  | typeError
  | outOfFuel
  deriving DecidableEq, Repr

/-- `newDepth`. -/
def newDepth (depth : Int) : Int := if depth = -1 then depth else depth - 1

/-- `getConnectedNodes(connections, nodeName, connectionType, depth, checkedNodesIncoming)`, at
most `fuel` calls deep. An entry named `hasOwnProperty` hides the function. -/
def getConnectedNodes (connections : IConnections) (connectionType : ConnectionTypes) :
    Nat → String → Int → List String → Except SearchError (List String)
  | 0, _, _, _ => .error .outOfFuel
  | fuel + 1, nodeName, depth, checkedNodesIncoming =>
    if depth = 0 then .ok []
    else if connections.has "hasOwnProperty" then .error .typeError
    else
      match connections.get? nodeName with
      | none => .ok []
      | some ofNode =>
        (connectionType.types ofNode).foldlM (fun returnNodes type =>
          match ofNode.get? type with
          | none => .ok returnNodes
          | some outputs =>
            if nodeName ∈ checkedNodesIncoming then .ok returnNodes
            else
              let checkedNodes := checkedNodesIncoming ++ [nodeName]
              (outputs.flatMap (·.getD [])).foldlM (fun returnNodes connection =>
                if connection.node ∈ checkedNodes then .ok returnNodes
                else do
                  let addNodes ← getConnectedNodes connections connectionType fuel
                    connection.node (newDepth depth) checkedNodes
                  return Workflow.addConnected (connection.node :: returnNodes) addNodes)
                returnNodes) []

/-- `getConnectedNodes(connections, nodeName, connectionType, depth)`. -/
def connectedNodes (connections : IConnections) (nodeName : String)
    (connectionType : ConnectionTypes) (depth : Int) : Except SearchError (List String) :=
  getConnectedNodes connections connectionType (connections.entries.length + 1) nodeName depth []

/-- The depth that stands for a limit. -/
def depthOf : Option Nat → Int
  | none => -1
  | some d => d

/-! ## What the search is for -/

/-- Does the argument ask for connections of the type? -/
def ConnectionTypes.Asks (connectionType : ConnectionTypes) (type : NodeConnectionType) : Prop :=
  match connectionType with
  | only type' => type = type'
  | all => True
  | allNonMain => type ≠ .main

/-- A connection of a type that is asked for leads from one node to the other. -/
def Connected (connections : IConnections) (connectionType : ConnectionTypes) (a b : String) :
    Prop :=
  ∃ type outputIndex connection, connectionType.Asks type ∧
    connections.Has a type outputIndex connection ∧ connection.node = b

/-- `n` connections lead from one node to the other. -/
def Reaches (connections : IConnections) (connectionType : ConnectionTypes) :
    Nat → String → String → Prop :=
  Hops (Connected connections connectionType)

/-- The nodes that connections of one type lead to. -/
def typeNodes (ofNode : INodeConnections) (type : NodeConnectionType) : List String :=
  (((ofNode.get? type).getD []).flatMap (·.getD [])).map (·.node)

/-- The nodes that the connections of a node lead to, in the order of the search. -/
def nextNodes (connections : IConnections) (connectionType : ConnectionTypes) (nodeName : String) :
    List String :=
  match connections.get? nodeName with
  | none => []
  | some ofNode => (connectionType.types ofNode).flatMap (typeNodes ofNode)

variable {connections : IConnections} {nodeName : String} {ofNode : INodeConnections}

theorem nextNodes_eq (hget : connections.get? nodeName = some ofNode)
    (connectionType : ConnectionTypes) :
    nextNodes connections connectionType nodeName =
      (connectionType.types ofNode).flatMap (typeNodes ofNode) := by
  rw [nextNodes, hget]

variable {type : NodeConnectionType} {b : String}

theorem mem_typeNodes_iff :
    b ∈ typeNodes ofNode type ↔ ∃ outputs, ofNode.get? type = some outputs ∧
      ∃ (i : Nat) (conns : List IConnection), outputs[i]? = some (some conns) ∧
        ∃ connection ∈ conns, connection.node = b := by
  rw [typeNodes]
  cases ofNode.get? type with
  | none => simp
  | some outputs =>
    simp only [Option.getD_some, List.mem_map, List.mem_flatMap, Option.some.injEq,
      exists_eq_left']
    constructor
    · rintro ⟨connection, ⟨output, houtput, hconnection⟩, rfl⟩
      cases output with
      | none => cases hconnection
      | some conns =>
        obtain ⟨i, hi⟩ := List.mem_iff_getElem?.mp houtput
        exact ⟨i, conns, hi, connection, hconnection, rfl⟩
    · rintro ⟨i, conns, hi, connection, hconnection, rfl⟩
      exact ⟨connection, ⟨some conns, List.mem_of_getElem? hi, hconnection⟩, rfl⟩

variable {connectionType : ConnectionTypes}

theorem mem_types_iff {outputs : NodeInputConnections} (hget : ofNode.get? type = some outputs) :
    type ∈ connectionType.types ofNode ↔ connectionType.Asks type := by
  have hkey : type ∈ ofNode.keys := InsertionMap.mem_keys_iff.mpr ⟨outputs, hget⟩
  cases connectionType with
  | only type' => simp [ConnectionTypes.types, ConnectionTypes.Asks]
  | all => simp [ConnectionTypes.types, ConnectionTypes.Asks, hkey]
  | allNonMain => simp [ConnectionTypes.types, ConnectionTypes.Asks, hkey]

theorem mem_nextNodes_iff {a : String} :
    b ∈ nextNodes connections connectionType a ↔ Connected connections connectionType a b := by
  cases hget : connections.get? a with
  | none => simp [nextNodes, Connected, IConnections.Has, hget]
  | some ofNode =>
    rw [nextNodes_eq hget, List.mem_flatMap]
    constructor
    · rintro ⟨type, htype, hb⟩
      obtain ⟨outputs, hof, i, conns, hi, connection, hconnection, rfl⟩ :=
        mem_typeNodes_iff.mp hb
      exact ⟨type, i, connection, (mem_types_iff hof).mp htype,
        ⟨ofNode, outputs, conns, hget, hof, hi, hconnection⟩, rfl⟩
    · rintro ⟨type, i, connection, hasks, ⟨ofNode', outputs, conns, hget', hof, hi, hconnection⟩,
        rfl⟩
      rw [hget] at hget'
      cases hget'
      exact ⟨type, (mem_types_iff hof).mpr hasks,
        mem_typeNodes_iff.mpr ⟨outputs, hof, i, conns, hi, connection, hconnection, rfl⟩⟩

theorem walk_iff_reaches {n : Nat} {a : String} :
    WalkOutside (nextNodes connections connectionType) [] n a b ↔
      Reaches connections connectionType n a b := by
  induction n generalizing a with
  | zero =>
    refine ⟨fun h => ?_, fun h => ?_⟩
    · cases h
      rfl
    · cases h
      exact .refl _
  | succ n ih =>
    refine ⟨fun h => ?_, fun ⟨c, hedge, hrest⟩ => ?_⟩
    · cases h with
      | step hnext _ hwalk => exact ⟨_, mem_nextNodes_iff.mp hnext, ih.mp hwalk⟩
    · exact .step (mem_nextNodes_iff.mpr hedge) List.not_mem_nil (ih.mpr hrest)

/-! ## The search does what the library's does -/

variable {limit : Option Nat}

theorem newDepth_depthOf (h : limit ≠ some 0) :
    newDepth (depthOf limit) = depthOf (limit.map (· - 1)) := by
  cases limit with
  | none => rfl
  | some d =>
    have hd : d ≠ 0 := fun hzero => h (hzero ▸ rfl)
    simp only [newDepth, depthOf, Option.map_some]
    omega

theorem depthOf_eq_zero_iff : depthOf limit = 0 ↔ limit = some 0 := by
  cases limit <;> simp [depthOf]

theorem fuelled_start (connections : IConnections) (connectionType : ConnectionTypes) :
    Fuelled (nextNodes connections connectionType) connections.keys
      (connections.entries.length + 1) [] where
  hasKey v hv := by
    rw [nextNodes] at hv
    cases hget : connections.get? v with
    | none => simp [hget] at hv
    | some ofNode => exact InsertionMap.mem_keys_iff.mpr ⟨ofNode, hget⟩
  nodup := List.nodup_nil
  subset := List.nil_subset _
  enough := by simp [InsertionMap.keys]

theorem get_connected_nodes_eq (hplain : connections.has "hasOwnProperty" = false)
    {keys : List String} {fuel : Nat} {checkedNodes : List String}
    (hfuel : Fuelled (nextNodes connections connectionType) keys fuel checkedNodes)
    (hfresh : nodeName ∉ checkedNodes) :
    getConnectedNodes connections connectionType fuel nodeName (depthOf limit) checkedNodes =
      .ok (boundedSearch (nextNodes connections connectionType) fuel nodeName limit
        checkedNodes) := by
  induction fuel generalizing nodeName limit checkedNodes with
  | zero => exact hfuel.pos.elim
  | succ fuel ih =>
    rw [getConnectedNodes, boundedSearch]
    by_cases hlimit : limit = some 0
    · rw [if_pos (depthOf_eq_zero_iff.mpr hlimit), if_pos (.inl hlimit)]
    rw [if_neg (mt depthOf_eq_zero_iff.mp hlimit), if_neg (by simp [hplain]),
      if_neg (not_or.mpr ⟨hlimit, hfresh⟩)]
    cases hget : connections.get? nodeName with
    | none => simp [nextNodes, hget]
    | some ofNode =>
      rw [nextNodes_eq hget, List.foldl_flatMap]
      refine foldlM_eq_ok (fun returnNodes type htype => ?_) []
      rw [typeNodes]
      cases hof : ofNode.get? type with
      | none => rfl
      | some outputs =>
        dsimp only
        rw [if_neg hfresh, Option.getD_some, List.foldl_map]
        refine foldlM_eq_ok (fun returnNodes connection hconnection => ?_) returnNodes
        rw [takeUp]
        by_cases hchecked : connection.node ∈ checkedNodes ++ [nodeName]
        · rw [if_pos hchecked, if_pos hchecked]
        · have hnode : connection.node ∈ nextNodes connections connectionType nodeName := by
            rw [nextNodes_eq hget]
            refine List.mem_flatMap.mpr ⟨type, htype, ?_⟩
            rw [typeNodes, hof]
            exact List.mem_map_of_mem hconnection
          rw [if_neg hchecked, if_neg hchecked, newDepth_depthOf hlimit,
            ih (hfuel.check (List.ne_nil_of_mem hnode) hfresh) hchecked]
          rfl

theorem connected_nodes_hidden (hhidden : connections.has "hasOwnProperty" = true)
    (hlimit : limit ≠ some 0) :
    connectedNodes connections nodeName connectionType (depthOf limit) = .error .typeError := by
  rw [connectedNodes, getConnectedNodes, if_neg (mt depthOf_eq_zero_iff.mp hlimit), if_pos hhidden]

theorem connected_nodes_eq (h : limit = some 0 ∨ connections.has "hasOwnProperty" = false)
    (nodeName : String) (connectionType : ConnectionTypes) :
    connectedNodes connections nodeName connectionType (depthOf limit) =
      .ok (boundedSearch (nextNodes connections connectionType) (connections.entries.length + 1)
        nodeName limit []) := by
  by_cases hlimit : limit = some 0
  · rw [connectedNodes, getConnectedNodes, boundedSearch,
      if_pos (depthOf_eq_zero_iff.mpr hlimit), if_pos (.inl hlimit)]
  · exact get_connected_nodes_eq (h.resolve_left hlimit) (fuelled_start connections connectionType)
      List.not_mem_nil

theorem mem_connected_nodes_iff {result : List String}
    (h : connectedNodes connections nodeName connectionType (depthOf limit) = .ok result)
    (x : String) :
    x ∈ result ↔ x ≠ nodeName ∧ ∃ n, Within limit (n + 1) ∧
      Reaches connections connectionType (n + 1) nodeName x := by
  have hplain : limit = some 0 ∨ connections.has "hasOwnProperty" = false := by
    by_contra hnot
    obtain ⟨hlimit, hhidden⟩ := not_or.mp hnot
    rw [connected_nodes_hidden (by simpa using hhidden) hlimit] at h
    cases h
  rw [connected_nodes_eq hplain] at h
  cases h
  rw [mem_boundedSearch_iff (fuelled_start connections connectionType) List.not_mem_nil]
  simp only [walk_iff_reaches]

/-- `getConnectedNodes` returns the nodes within the limit once each exactly when no connection of
the start leads to a node that its earlier connections have led to. -/
theorem connected_once_iff (connections : IConnections) (nodeName : String)
    (connectionType : ConnectionTypes) (limit : Option Nat) :
    (∃ result, connectedNodes connections nodeName connectionType (depthOf limit) = .ok result ∧
      result.Nodup ∧ ∀ x, x ∈ result ↔ x ≠ nodeName ∧ ∃ n, Within limit (n + 1) ∧
        Reaches connections connectionType (n + 1) nodeName x) ↔
      (limit = some 0 ∨ connections.has "hasOwnProperty" = false) ∧
        NoRepeats (nextNodes connections connectionType) nodeName limit := by
  by_cases hlimit : limit = some 0
  · have hplain : limit = some 0 ∨ connections.has "hasOwnProperty" = false := .inl hlimit
    have heq := connected_nodes_eq hplain nodeName connectionType
    refine iff_of_true ⟨_, heq, ?_, mem_connected_nodes_iff heq⟩ ⟨.inl hlimit, ?_⟩
    · rw [boundedSearch, if_pos (.inl hlimit)]
      exact List.nodup_nil
    · intro _ _ _ _ _ _ _ _ n hn
      exact absurd (hn 0 (by simp [hlimit])) (by omega)
  · cases hhas : connections.has "hasOwnProperty" with
    | true => simp [connected_nodes_hidden hhas hlimit, hlimit]
    | false =>
      have hplain : limit = some 0 ∨ connections.has "hasOwnProperty" = false := .inr hhas
      have heq := connected_nodes_eq hplain nodeName connectionType
      rw [← nodup_boundedSearch_iff (fuelled_start connections connectionType) hlimit,
        and_iff_right (.inr rfl)]
      constructor
      · rintro ⟨result, hresult, hnd, -⟩
        rw [heq] at hresult
        cases hresult
        exact hnd
      · exact fun hnd => ⟨_, heq, hnd, mem_connected_nodes_iff heq⟩

/-- Two connections from `a` to `b`. -/
def parallelConnections : IConnections :=
  .set .empty "a" (.set .empty .main [some [⟨"b", .main, 0⟩, ⟨"b", .main, 1⟩]])

/-- Parallel connections put a node on the list twice. -/
theorem parallel_connections_repeat :
    connectedNodes parallelConnections "a" (.only .main) (depthOf none) = .ok ["b", "b"] ∧
      ¬ ∃ result, connectedNodes parallelConnections "a" (.only .main) (depthOf none) =
        .ok result ∧ result.Nodup := by
  have hresult : connectedNodes parallelConnections "a" (.only .main) (depthOf none) =
      .ok ["b", "b"] := by decide +kernel
  refine ⟨hresult, ?_⟩
  rintro ⟨result, heq, hnodup⟩
  rw [hresult] at heq
  cases heq
  exact absurd hnodup (by decide)

end N8n.ConnectedWithin
