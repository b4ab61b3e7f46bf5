import Mathlib.Data.List.Count
import Mathlib.Data.List.Perm.Basic
import N8n.Workflow.Connections

/-!
# Reversed connections

`mapConnectionsByDestination` of `packages/workflow/src/common/map-connections-by-destination.ts`
on objects: it asks the objects with `hasOwnProperty`, which an entry of that name hides, and an
assignment to `__proto__` makes no entry. Without such names it reverses every connection once,
and reversing the result gives the connections back.
-/

namespace N8n.ReversedConnections

open Collections

/-- `returnConnection` takes up a connection, or throws a `TypeError` when its property
`hasOwnProperty` is no function. What is assigned to `returnConnection["__proto__"]` becomes the
prototype of `returnConnection`, which then takes up the connection instead. -/
def enterConnection (sourceNode : String) (type : NodeConnectionType) (inputIndex : Nat)
    (returnConnection : IConnections) (connectionInfo : IConnection) : Option IConnections :=
  if returnConnection.has "hasOwnProperty" then none
  else if connectionInfo.node = "__proto__" then some returnConnection
  else some (addByDestination sourceNode type inputIndex returnConnection connectionInfo)

/-- `mapConnectionsByDestination(connections)`, `none` when it throws. -/
def mapConnectionsByDestination (connections : IConnections) : Option IConnections :=
  if connections.has "hasOwnProperty" then none
  else connections.entries.foldlM (fun returnConnection (sourceNode, iConnection) =>
    iConnection.entries.foldlM (fun returnConnection (type, outputs) =>
      outputs.zipIdx.foldlM (fun returnConnection (conns, inputIndex) =>
        (conns.getD []).foldlM (enterConnection sourceNode type inputIndex) returnConnection)
        returnConnection)
      returnConnection)
    .empty

/-- `Workflow.getConnectionsByDestination(connections)`, which has the same text. -/
def getConnectionsByDestination (connections : IConnections) : Option IConnections :=
  mapConnectionsByDestination connections

/-! ## Connections one by one -/

/-- A connection with both of its ends. -/
structure Edge where
  source : String
  type : NodeConnectionType
  outputIndex : Nat
  target : IConnection
  deriving DecidableEq

/-- The same connection from its other end. -/
def Edge.reversed (e : Edge) : Edge :=
  ⟨e.target.node, e.target.type, e.target.index, ⟨e.source, e.type, e.outputIndex⟩⟩

@[simp] theorem reversed_reversed (e : Edge) : e.reversed.reversed = e := rfl

/-- The connections of outputs of one type. -/
def outputEdges (source : String) (type : NodeConnectionType) (outputs : NodeInputConnections) :
    List Edge :=
  outputs.zipIdx.flatMap fun (conns, outputIndex) =>
    (conns.getD []).map fun target => ⟨source, type, outputIndex, target⟩

/-- The connections of a node. -/
def nodeEdges (source : String) (iConnection : INodeConnections) : List Edge :=
  iConnection.entries.flatMap fun (type, outputs) => outputEdges source type outputs

/-- The multiset of the connections. -/
def edges (connections : IConnections) : List Edge :=
  connections.entries.flatMap fun (source, iConnection) => nodeEdges source iConnection

/-- Take up a connection. -/
def enterEdge (returnConnection : IConnections) (e : Edge) : Option IConnections :=
  enterConnection e.source e.type e.outputIndex returnConnection e.target

theorem foldlM_flatMap {α β σ : Type} (f : α → List β) (g : σ → β → Option σ) (l : List α) (s : σ) :
    (l.flatMap f).foldlM g s = l.foldlM (fun s a => (f a).foldlM g s) s := by
  induction l generalizing s with
  | nil => rfl
  | cons a l ih =>
    rw [List.flatMap_cons, List.foldlM_append, List.foldlM_cons]
    exact congrArg _ (funext ih)

theorem map_connections_eq (connections : IConnections) :
    mapConnectionsByDestination connections =
      if connections.has "hasOwnProperty" then none
      else (edges connections).foldlM enterEdge .empty := by
  rw [mapConnectionsByDestination]
  congr 1
  simp only [edges, nodeEdges, outputEdges, foldlM_flatMap, List.foldlM_map]
  rfl

/-! ## How often there is a connection -/

theorem count_entries {κ ν β : Type} [DecidableEq κ] [DecidableEq β] (m : InsertionMap κ ν)
    (f : κ × ν → List β) (k : κ) (b : β) (hother : ∀ k' v, k' ≠ k → b ∉ f (k', v)) :
    (m.entries.flatMap f).count b = ((m.get? k).map fun v => (f (k, v)).count b).getD 0 := by
  cases h : m.get? k with
  | none =>
    refine List.count_eq_zero.mpr fun hmem => ?_
    obtain ⟨⟨k', v⟩, hentry, hb⟩ := List.mem_flatMap.mp hmem
    refine hother k' v (fun heq => ?_) hb
    rw [heq, ← InsertionMap.get_eq_some_iff, h] at hentry
    cases hentry
  | some v =>
    obtain ⟨before, after, hentries, _, hdelete⟩ := InsertionMap.split_at h
    -- the other entries are those that deleting the key leaves
    have hne : ∀ e ∈ before ++ after, e.1 ≠ k := by
      intro e he heq
      rw [← hdelete] at he
      have hget := InsertionMap.get_eq_some_iff.mpr he
      rw [heq, InsertionMap.get_delete, if_pos rfl] at hget
      cases hget
    have hnone : ∀ l : List (κ × ν), l ⊆ before ++ after → (l.flatMap f).count b = 0 :=
      fun l hl => List.count_eq_zero.mpr fun hmem => by
        obtain ⟨⟨k', v'⟩, hentry, hb⟩ := List.mem_flatMap.mp hmem
        exact hother k' v' (hne _ (hl hentry)) hb
    rw [hentries, List.flatMap_append, List.flatMap_cons, List.count_append, List.count_append,
      hnone before (List.subset_append_left ..), hnone after (List.subset_append_right ..)]
    simp

/-- The targets of an output. -/
def targetsOf (outputs : NodeInputConnections) (outputIndex : Nat) : List IConnection :=
  (outputs[outputIndex]?.join).getD []

/-- The targets of an output of a node. -/
def targetsAt (connections : IConnections) (source : String) (type : NodeConnectionType)
    (outputIndex : Nat) : List IConnection :=
  targetsOf ((((connections.get? source).getD .empty).get? type).getD []) outputIndex

theorem count_output_edges (source : String) (type : NodeConnectionType)
    (outputs : NodeInputConnections) (outputIndex : Nat) (target : IConnection) :
    (outputEdges source type outputs).count ⟨source, type, outputIndex, target⟩ =
      (targetsOf outputs outputIndex).count target := by
  have hgen : ∀ (outputs : NodeInputConnections) (start outputIndex : Nat),
      ((outputs.zipIdx start).flatMap fun (conns, i) =>
        (conns.getD []).map fun target => (⟨source, type, i, target⟩ : Edge)).count
          ⟨source, type, start + outputIndex, target⟩ =
        (targetsOf outputs outputIndex).count target := by
    intro outputs
    induction outputs with
    | nil => exact fun start outputIndex => by simp [targetsOf]
    | cons conns rest ih =>
      intro start outputIndex
      rw [List.zipIdx_cons, List.flatMap_cons, List.count_append]
      cases outputIndex with
      | zero =>
        -- the later outputs have larger indexes
        have hrest : ((rest.zipIdx (start + 1)).flatMap fun (conns, i) =>
            (conns.getD []).map fun target => (⟨source, type, i, target⟩ : Edge)).count
              ⟨source, type, start + 0, target⟩ = 0 := by
          refine List.count_eq_zero.mpr fun hmem => ?_
          simp only [List.mem_flatMap, List.mem_map] at hmem
          obtain ⟨⟨conns, i⟩, hi, _, _, heq⟩ := hmem
          have hle := List.le_snd_of_mem_zipIdx hi
          have := congrArg Edge.outputIndex heq
          simp only at this hle
          omega
        have hinj : Function.Injective fun target => (⟨source, type, start, target⟩ : Edge) :=
          fun a b heq => congrArg Edge.target heq
        rw [hrest, Nat.add_zero, Nat.add_zero]
        exact List.count_map_of_injective _ _ hinj _
      | succ outputIndex =>
        have hhead : ((conns.getD []).map fun target =>
            (⟨source, type, start, target⟩ : Edge)).count
              ⟨source, type, start + (outputIndex + 1), target⟩ = 0 := by
          refine List.count_eq_zero.mpr fun hmem => ?_
          obtain ⟨_, _, heq⟩ := List.mem_map.mp hmem
          have := congrArg Edge.outputIndex heq
          simp only at this
          omega
        have hindex : start + (outputIndex + 1) = start + 1 + outputIndex := by omega
        rw [hhead, Nat.zero_add, hindex, ih]
        rfl
  have h := hgen outputs 0 outputIndex
  rwa [Nat.zero_add] at h

variable {e : Edge}

theorem mem_output_edges {source : String} {type : NodeConnectionType}
    {outputs : NodeInputConnections} (h : e ∈ outputEdges source type outputs) :
    e.source = source ∧ e.type = type := by
  simp only [outputEdges, List.mem_flatMap, List.mem_map] at h
  obtain ⟨_, _, _, _, rfl⟩ := h
  exact ⟨rfl, rfl⟩

theorem count_edges (connections : IConnections) (e : Edge) :
    (edges connections).count e =
      (targetsAt connections e.source e.type e.outputIndex).count e.target := by
  have hnode : ∀ iConnection : INodeConnections, (nodeEdges e.source iConnection).count e =
      (targetsOf ((iConnection.get? e.type).getD []) e.outputIndex).count e.target := by
    intro iConnection
    rw [nodeEdges, count_entries iConnection _ e.type e fun type outputs hne hmem =>
      hne (mem_output_edges hmem).2.symm]
    cases iConnection.get? e.type with
    | none => simp [targetsOf]
    | some outputs => exact count_output_edges ..
  rw [edges, count_entries connections _ e.source e fun source iConnection hne hmem => by
    obtain ⟨_, _, hmem⟩ := List.mem_flatMap.mp hmem
    exact hne (mem_output_edges hmem).1.symm]
  rw [targetsAt]
  cases connections.get? e.source with
  | none => simp [targetsOf]
  | some iConnection => exact hnode iConnection

/-! ## Taking up connections -/

theorem targets_of_padded (inputs : NodeInputConnections) (missing index : Nat) :
    targetsOf (inputs ++ List.replicate missing (some [])) index = targetsOf inputs index := by
  rw [targetsOf, targetsOf, List.getElem?_append]
  split
  · rfl
  · rename_i hlt
    rw [List.getElem?_eq_none (Nat.le_of_not_lt hlt), List.getElem?_replicate]
    split <;> rfl

theorem targets_of_fill_input {inputs : NodeInputConnections} (index : Nat)
    (connection : IConnection) (hinputs : none ∉ inputs) (index' : Nat) :
    targetsOf (fillInput inputs index connection) index' =
      targetsOf inputs index' ++ if index' = index then [connection] else [] := by
  rw [fillInput, ← targets_of_padded inputs (index + 1 - inputs.length) index']
  have hnone : none ∉ inputs ++ List.replicate (index + 1 - inputs.length) (some []) :=
    none_not_mem_padded hinputs
  have hlength : index <
      (inputs ++ List.replicate (index + 1 - inputs.length) (some [])).length := by
    rw [List.length_append, List.length_replicate]
    omega
  generalize inputs ++ List.replicate (index + 1 - inputs.length) (some []) = padded at *
  rw [targetsOf, targetsOf, List.getElem?_modify]
  by_cases heq : index' = index
  · subst heq
    cases hget : padded[index'] with
    | none => exact absurd (hget ▸ List.getElem_mem hlength) hnone
    | some conns => simp [List.getElem?_eq_getElem hlength, hget]
  · simp [heq, Ne.symm heq]

variable {connections : IConnections}

theorem none_not_mem_inputs (h : connections.Filled) (node : String) (type : NodeConnectionType) :
    none ∉ ((((connections.get? node).getD .empty).get? type).getD [] : NodeInputConnections) := by
  cases htarget : connections.get? node with
  | none => exact List.not_mem_nil
  | some ofNode =>
    cases htype : ofNode.get? type with
    | none => simp [htype]
    | some inputs => simpa [htype] using h _ _ _ _ htarget htype

variable {returnConnection : IConnections}

theorem targets_add_by_destination (h : returnConnection.Filled) (e : Edge) (source : String)
    (type : NodeConnectionType) (outputIndex : Nat) :
    targetsAt (addByDestination e.source e.type e.outputIndex returnConnection e.target) source
        type outputIndex =
      targetsAt returnConnection source type outputIndex ++
        if source = e.target.node ∧ type = e.target.type ∧ outputIndex = e.target.index then
          [⟨e.source, e.type, e.outputIndex⟩] else [] := by
  have hadd : addByDestination e.source e.type e.outputIndex returnConnection e.target =
      returnConnection.set e.target.node
        (((returnConnection.get? e.target.node).getD .empty).set e.target.type
          (fillInput ((((returnConnection.get? e.target.node).getD .empty).get?
            e.target.type).getD []) e.target.index ⟨e.source, e.type, e.outputIndex⟩)) := rfl
  rw [hadd, targetsAt, targetsAt, InsertionMap.get_set]
  by_cases hnode : source = e.target.node
  · rw [if_pos hnode, Option.getD_some, InsertionMap.get_set, hnode]
    by_cases htype : type = e.target.type
    · rw [if_pos htype, Option.getD_some, htype,
        targets_of_fill_input _ _ (none_not_mem_inputs h _ _)]
      simp
    · simp [htype]
  · simp [hnode]

theorem enter_edge_eq (hown : returnConnection.has "hasOwnProperty" = false)
    (hproto : e.target.node ≠ "__proto__") :
    enterEdge returnConnection e =
      some (addByDestination e.source e.type e.outputIndex returnConnection e.target) := by
  rw [enterEdge, enterConnection, hown, if_neg (by simp), if_neg hproto]

theorem has_add_by_destination_node {name : String} :
    (addByDestination e.source e.type e.outputIndex returnConnection e.target).has name =
      (decide (name = e.target.node) || returnConnection.has name) := by
  rw [addByDestination, InsertionMap.has, InsertionMap.get_set]
  by_cases h : name = e.target.node
  · simp [h]
  · simp [h, InsertionMap.has]

theorem enter_edges_count (es : List Edge) (hfilled : returnConnection.Filled)
    (hown : returnConnection.has "hasOwnProperty" = false)
    (hes : ∀ e ∈ es, e.target.node ≠ "__proto__" ∧ e.target.node ≠ "hasOwnProperty") :
    ∃ result, es.foldlM enterEdge returnConnection = some result ∧ result.Filled ∧
      result.has "hasOwnProperty" = false ∧
      ∀ e, (edges result).count e = (edges returnConnection).count e + es.count e.reversed := by
  induction es generalizing returnConnection with
  | nil => exact ⟨returnConnection, rfl, hfilled, hown, by simp⟩
  | cons e es ih =>
    obtain ⟨hproto, hhas⟩ := hes e (by simp)
    have hown' : (addByDestination e.source e.type e.outputIndex returnConnection
        e.target).has "hasOwnProperty" = false := by
      rw [has_add_by_destination_node, hown]
      simpa using Ne.symm hhas
    obtain ⟨result, hrun, hfilled', hown'', hcount⟩ := ih (has_add_by_destination hfilled).1 hown'
      fun e' he' => hes e' (by simp [he'])
    refine ⟨result, by rw [List.foldlM_cons, enter_edge_eq hown hproto]; exact hrun, hfilled',
      hown'', fun e' => ?_⟩
    rw [hcount, count_edges, count_edges, targets_add_by_destination hfilled, List.count_append,
      List.count_cons]
    have hone : (if e'.source = e.target.node ∧ e'.type = e.target.type ∧
        e'.outputIndex = e.target.index then
        [(⟨e.source, e.type, e.outputIndex⟩ : IConnection)] else []).count e'.target =
        if e == e'.reversed then 1 else 0 := by
      by_cases heq : e = e'.reversed
      · subst heq
        simp [Edge.reversed]
      · have hzero : (if e == e'.reversed then 1 else 0) = 0 := if_neg (by simpa using heq)
        rw [hzero]
        refine List.count_eq_zero.mpr fun hmem => heq ?_
        split at hmem
        · rename_i hend
          obtain ⟨hnode, htype, hindex⟩ := hend
          rw [Edge.reversed, List.mem_singleton.mp hmem, hnode, htype, hindex]
        · cases hmem
    rw [hone]
    omega

theorem enter_edges_no_proto (es : List Edge) {result : IConnections}
    (h : returnConnection.get? "__proto__" = none)
    (hrun : es.foldlM enterEdge returnConnection = some result) :
    result.get? "__proto__" = none := by
  induction es generalizing returnConnection with
  | nil =>
    cases hrun
    exact h
  | cons e es ih =>
    rw [List.foldlM_cons] at hrun
    obtain ⟨middle, hmiddle, hrest⟩ := Option.bind_eq_some_iff.mp hrun
    refine ih ?_ hrest
    rw [enterEdge, enterConnection] at hmiddle
    split at hmiddle
    · cases hmiddle
    · split at hmiddle
      · cases hmiddle
        exact h
      · rename_i hproto
        cases hmiddle
        rw [addByDestination, InsertionMap.get_set, if_neg (Ne.symm hproto), h]

/-! ## Reversing twice -/

/-- Every connection is reversed once, and reversing the result gives the connections back. -/
def ReversesWithoutLoss (connections : IConnections) : Prop :=
  ∃ returnConnection, mapConnectionsByDestination connections = some returnConnection ∧
    (edges returnConnection).Perm ((edges connections).map Edge.reversed) ∧
    ∃ back, mapConnectionsByDestination returnConnection = some back ∧
      (edges back).Perm (edges connections)

theorem has_of_mem_edges (h : e ∈ edges connections) :
    ∃ iConnection, connections.get? e.source = some iConnection := by
  obtain ⟨⟨source, iConnection⟩, hentry, hmem⟩ := List.mem_flatMap.mp h
  obtain ⟨_, _, hmem⟩ := List.mem_flatMap.mp hmem
  refine ⟨iConnection, InsertionMap.get_eq_some_iff.mpr ?_⟩
  rwa [(mem_output_edges hmem).1]

theorem map_connections_reverses (hown : connections.has "hasOwnProperty" = false)
    (hes : ∀ e ∈ edges connections,
      e.target.node ≠ "__proto__" ∧ e.target.node ≠ "hasOwnProperty") :
    ∃ returnConnection, mapConnectionsByDestination connections = some returnConnection ∧
      returnConnection.has "hasOwnProperty" = false ∧
      (edges returnConnection).Perm ((edges connections).map Edge.reversed) := by
  have hempty : IConnections.Filled .empty := fun target ofNode type inputs htarget =>
    absurd htarget (by simp)
  obtain ⟨result, hrun, _, hown', hcount⟩ :=
    enter_edges_count (edges connections) hempty (by rfl) hes
  refine ⟨result, by rw [map_connections_eq, hown]; exact hrun, hown',
    List.perm_iff_count.mpr fun e => ?_⟩
  have hinj : Function.Injective Edge.reversed :=
    fun a b heq => by rw [← reversed_reversed a, heq, reversed_reversed]
  have hmap := List.count_map_of_injective (edges connections) _ hinj e.reversed
  rw [reversed_reversed] at hmap
  rw [hcount, hmap]
  simp [edges]

/-- `mapConnectionsByDestination` reverses the connections without loss exactly when no source is
named `hasOwnProperty`, no connection leads to a node `__proto__` or `hasOwnProperty`, and none
comes from a node `__proto__`. -/
theorem reverses_without_loss_iff (connections : IConnections) :
    ReversesWithoutLoss connections ↔ connections.has "hasOwnProperty" = false ∧
      ∀ e ∈ edges connections, e.target.node ≠ "__proto__" ∧
        e.target.node ≠ "hasOwnProperty" ∧ e.source ≠ "__proto__" := by
  constructor
  · rintro ⟨returnConnection, hrun, hperm, back, hback, hpermBack⟩
    rw [map_connections_eq] at hrun hback
    split at hrun
    · cases hrun
    · rename_i hown
      split at hback
      · cases hback
      · rename_i hown'
        have hproto := enter_edges_no_proto _ (InsertionMap.get_empty _) hrun
        have hprotoBack := enter_edges_no_proto _ (InsertionMap.get_empty _) hback
        refine ⟨by simpa using hown, fun e he => ?_⟩
        have hreversed : e.reversed ∈ edges returnConnection :=
          hperm.symm.subset (List.mem_map_of_mem he)
        obtain ⟨ofTarget, htarget⟩ := has_of_mem_edges hreversed
        obtain ⟨ofSource, hsource⟩ := has_of_mem_edges (hpermBack.symm.subset he)
        refine ⟨fun heq => ?_, fun heq => ?_, fun heq => ?_⟩
        · rw [show e.reversed.source = "__proto__" from heq, hproto] at htarget
          cases htarget
        · rw [show e.reversed.source = "hasOwnProperty" from heq] at htarget
          exact hown' (by simp [InsertionMap.has, htarget])
        · rw [heq, hprotoBack] at hsource
          cases hsource
  · rintro ⟨hown, hes⟩
    obtain ⟨returnConnection, hrun, hown', hperm⟩ :=
      map_connections_reverses hown fun e he => ⟨(hes e he).1, (hes e he).2.1⟩
    -- a source that the result leads to has a connection, so it is not `hasOwnProperty`
    have hes' : ∀ e ∈ edges returnConnection,
        e.target.node ≠ "__proto__" ∧ e.target.node ≠ "hasOwnProperty" := by
      intro e he
      obtain ⟨e', he', rfl⟩ := List.mem_map.mp (hperm.subset he)
      refine ⟨(hes e' he').2.2, fun heq => ?_⟩
      obtain ⟨ofSource, hsource⟩ := has_of_mem_edges he'
      rw [show e'.source = "hasOwnProperty" from heq] at hsource
      simp [InsertionMap.has, hsource] at hown
    obtain ⟨back, hback, _, hpermBack⟩ := map_connections_reverses hown' hes'
    refine ⟨returnConnection, hrun, hperm, back, hback, hpermBack.trans ?_⟩
    have hmap := hperm.map Edge.reversed
    rwa [List.map_map, show Edge.reversed ∘ Edge.reversed = id from rfl, List.map_id] at hmap

/-- A connection to a node `__proto__`. -/
def toProto : IConnections :=
  InsertionMap.set .empty "a" (InsertionMap.set .empty .main [some [⟨"__proto__", .main, 0⟩]])

/-- The result has no connection at all. -/
theorem to_proto_lost : (edges toProto).length = 1 ∧
    mapConnectionsByDestination toProto = some .empty ∧ ¬ ReversesWithoutLoss toProto := by
  have hrun : mapConnectionsByDestination toProto = some .empty := by decide +kernel
  have hlength : (edges toProto).length = 1 := by decide +kernel
  refine ⟨hlength, hrun, fun ⟨returnConnection, hreturn, hperm, _⟩ => ?_⟩
  obtain rfl := Option.some.inj (hreturn.symm.trans hrun)
  have hsame := hperm.length_eq
  rw [List.length_map, hlength] at hsame
  cases hsame

end N8n.ReversedConnections
