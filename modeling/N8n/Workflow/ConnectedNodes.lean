import N8n.Workflow.Types

/-!
# Connected nodes

`getConnectedNodes` of `packages/workflow/src/common/get-connected-nodes.ts`, for one connection
type and without a bound on the depth, and `getParentNodes`, which follows the connections of a
node to all nodes before it. The recursion is bounded by the number of nodes that have
connections; `connected_nodes_found` says that the bound is never reached.
-/

namespace N8n.Workflow

open Collections

/-- Put the nodes found below a connection in front of the others, once each. -/
def addConnected (returnNodes addNodes : List String) : List String :=
  addNodes.reverse.foldl (fun found name => name :: found.erase name) returnNodes

/-- `getConnectedNodes(connections, nodeName, connectionType, -1, checkedNodes)`, which does not
follow a connection back to a node on the way to this one. -/
def getConnectedNodes (connections : IConnections) (connectionType : NodeConnectionType) :
    Nat → String → List String → Option (List String)
  | 0, _, _ => none
  | fuel + 1, nodeName, checkedNodesIncoming =>
    match connections.get? nodeName with
    | none => some []
    | some ofNode =>
      match ofNode.get? connectionType with
      | none => some []
      | some inputs =>
        if nodeName ∈ checkedNodesIncoming then some []
        else
          let checkedNodes := checkedNodesIncoming ++ [nodeName]
          (inputs.flatMap (·.getD [])).foldlM (fun returnNodes connection =>
            if connection.node ∈ checkedNodes then some returnNodes
            else do
              let addNodes ←
                getConnectedNodes connections connectionType fuel connection.node checkedNodes
              return addConnected (connection.node :: returnNodes) addNodes) []

/-- `getParentNodes(nodeName, type, -1)`. -/
def getParentNodes (w : Workflow) (nodeName : String) (type : NodeConnectionType := .main) :
    List String :=
  let connections := w.connectionsByDestinationNode
  (getConnectedNodes connections type (connections.entries.length + 1) nodeName []).getD []

theorem foldlM_isSome {α β : Type} {f : β → α → Option β} {l : List α}
    (h : ∀ b, ∀ a ∈ l, (f b a).isSome) (b : β) : (l.foldlM f b).isSome := by
  induction l generalizing b with
  | nil => rfl
  | cons a rest ih =>
    obtain ⟨b', hb'⟩ := Option.isSome_iff_exists.mp (h b a (by simp))
    rw [List.foldlM_cons, hb']
    exact ih (fun b a ha => h b a (by simp [ha])) b'

theorem connected_nodes_isSome {connections : IConnections} {type : NodeConnectionType}
    {fuel : Nat} {nodeName : String} {checked : List String} (hnodup : checked.Nodup)
    (hkeys : checked ⊆ connections.keys)
    (hfuel : connections.entries.length < fuel + checked.length) :
    (getConnectedNodes connections type fuel nodeName checked).isSome := by
  induction fuel generalizing nodeName checked with
  | zero =>
    have hle := hnodup.length_le_of_subset hkeys
    rw [InsertionMap.keys, List.length_map] at hle
    omega
  | succ fuel ih =>
    unfold getConnectedNodes
    cases hget : connections.get? nodeName with
    | none => rfl
    | some ofNode =>
      dsimp only
      cases ofNode.get? type with
      | none => rfl
      | some inputs =>
        dsimp only
        split
        · rfl
        · rename_i hfresh
          -- a node whose connections are followed is one more checked node
          have hnodup' : (checked ++ [nodeName]).Nodup :=
            List.nodup_append.mpr ⟨hnodup, List.nodup_singleton _, fun a ha b hb => by
              rw [List.mem_singleton.mp hb]
              rintro rfl
              exact hfresh ha⟩
          have hkeys' : checked ++ [nodeName] ⊆ connections.keys := by
            refine List.append_subset.mpr ⟨hkeys, ?_⟩
            rw [List.cons_subset]
            exact ⟨InsertionMap.mem_keys_iff.mpr ⟨_, hget⟩, List.nil_subset _⟩
          refine foldlM_isSome (fun found connection _ => ?_) []
          split
          · rfl
          · have hsome : (getConnectedNodes connections type fuel connection.node
                (checked ++ [nodeName])).isSome :=
              ih hnodup' hkeys' (by
                rw [List.length_append, List.length_singleton]
                omega)
            obtain ⟨addNodes, hadd⟩ := Option.isSome_iff_exists.mp hsome
            rw [hadd]
            rfl

/-- The search for the parents ends in every workflow, also in loops. -/
theorem connected_nodes_found (w : Workflow) (nodeName : String) (type : NodeConnectionType) :
    getConnectedNodes w.connectionsByDestinationNode type
      (w.connectionsByDestinationNode.entries.length + 1) nodeName [] =
      some (w.getParentNodes nodeName type) := by
  have hsome : (getConnectedNodes w.connectionsByDestinationNode type
      (w.connectionsByDestinationNode.entries.length + 1) nodeName []).isSome :=
    connected_nodes_isSome List.nodup_nil (List.nil_subset _) (by simp)
  obtain ⟨found, hfound⟩ := Option.isSome_iff_exists.mp hsome
  rw [getParentNodes, hfound]
  rfl

end N8n.Workflow
