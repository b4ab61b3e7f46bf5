import N8n.Collections.Fallible
import N8n.Execution.AddNode

/-!
# Missing input data

`ensureInputData` of `packages/core/src/execution-engine/workflow-execute.ts` puts a node back on
the stack when data is missing at an input that an enabled node leads to. The nodes that lead to
an input are found by `getHighestNode` of `packages/workflow/src/workflow.ts`.
-/

namespace N8n.Execution

open Collections

variable {ι : Type}

/-- The connections into a node that `getHighestNode` follows: those of one input, or of all. -/
def connectionsAt (inputs : NodeInputConnections) : Option Nat → List IConnection
  | some connectionIndex => inputConnections inputs connectionIndex
  | none => inputs.flatMap (·.getD [])

/-- `this.nodes[nodeName].disabled`. -/
def disabledOf (w : Workflow) (nodeName : String) : Except ExecutionError (Option Bool) :=
  match w.nodes.get? nodeName with
  | none => .error .typeError
  | some node => .ok node.disabled

/-- Add the names that are not on the list yet. -/
def addNames (returnNodes addNodes : List String) : List String :=
  addNodes.foldl (fun names name => if name ∈ names then names else names ++ [name]) returnNodes

/-- One round of the loop of `getHighestNode`, which follows a connection with `highest`. The nodes
found so far come with the nodes that were checked. -/
def followConnection (w : Workflow)
    (highest : String → List String → Except ExecutionError (List String × List String))
    (found : List String × List String) (connection : IConnection) :
    Except ExecutionError (List String × List String) :=
  -- connections of nodes that do not exist are ignored
  if connection.node ∈ found.2 ∨ w.nodes.has connection.node = false then .ok found
  else do
    let (addNodes, checkedNodes) ← highest connection.node found.2
    if addNodes = [] then
      let disabled ← disabledOf w connection.node
      let addNodes := if disabled ≠ some true then [connection.node] else []
      return (addNames found.1 addNodes, checkedNodes)
    else return (addNames found.1 addNodes, checkedNodes)

/-- `getHighestNode(nodeName, nodeConnectionIndex, checkedNodes)`, at most `fuel` calls deep. The
array `checkedNodes` is shared by all calls, so that it is returned as well. -/
def getHighestNode (w : Workflow) :
    Nat → String → Option Nat → List String → Except ExecutionError (List String × List String)
  | 0, _, _, _ => .error .outOfFuel
  | fuel + 1, nodeName, nodeConnectionIndex, checkedNodes => do
    let disabled ← disabledOf w nodeName
    let currentHighest := if disabled = some false then [nodeName] else []
    match (w.connectionsByDestinationNode.get? nodeName).bind (·.get? .main) with
    | none => .ok (currentHighest, checkedNodes)
    | some inputs =>
      if nodeName ∈ checkedNodes then .ok (currentHighest, checkedNodes)
      else
        (connectionsAt inputs nodeConnectionIndex).foldlM
          (followConnection w fun name => getHighestNode w fuel name none)
          ([], checkedNodes ++ [nodeName])

/-- `workflow.getHighestNode(nodeName, connectionIndex)`. -/
def highestNodes (w : Workflow) (nodeName : String) (connectionIndex : Nat) :
    Except ExecutionError (List String) := do
  let (names, _) ← getHighestNode w (w.connectionsByDestinationNode.entries.length + 1) nodeName
    (some connectionIndex) []
  return names

/-- The loop of `ensureInputData` over the inputs from `connectionIndex` on: is data there for all
inputs that need it? -/
def hasInputDataFrom (w : Workflow) (nodeName : String) (data : ITaskDataConnections ι) :
    Nat → Nat → Except ExecutionError Bool
  | 0, _ => .ok true
  | rest + 1, connectionIndex => do
    if (← highestNodes w nodeName connectionIndex) = [] then return true
    match data.get? .main with
    | none => return false
    | some main =>
      if forceInputNodeExecution w && (decide (main.length < connectionIndex) ||
          (readSlot main connectionIndex).isNull) then
        return false
      else hasInputDataFrom w nodeName data rest (connectionIndex + 1)

/-- What `ensureInputData(workflow, executionNode, executionData)` returns. Where this is `false`,
it also pushes `executionData` back onto the stack. -/
def hasInputData (w : Workflow) (nodeName : String) (data : ITaskDataConnections ι) :
    Except ExecutionError Bool :=
  let inputs := ((w.connectionsByDestinationNode.get? nodeName).bind (·.get? .main)).getD []
  hasInputDataFrom w nodeName data inputs.length 0

section Fuel

/-- Names that were checked are distinct nodes with incoming connections. -/
def CheckedNames (w : Workflow) (checkedNodes : List String) : Prop :=
  checkedNodes.Nodup ∧ checkedNodes ⊆ w.connectionsByDestinationNode.keys

theorem disabled_avoids (w : Workflow) (nodeName : String) :
    Avoids .outOfFuel (fun _ => True) (disabledOf w nodeName) := by
  rw [disabledOf]
  split
  · exact avoids_error _ (by decide)
  · exact avoids_ok trivial

/-- What `getHighestNode` returns when it started with `n` checked nodes. -/
def MoreChecked (w : Workflow) (n : Nat) (found : List String × List String) : Prop :=
  CheckedNames w found.2 ∧ n ≤ found.2.length

theorem follow_connection_avoids {w : Workflow} {n : Nat}
    {highest : String → List String → Except ExecutionError (List String × List String)}
    (hhighest : ∀ name checkedNodes, CheckedNames w checkedNodes → n ≤ checkedNodes.length →
      Avoids .outOfFuel (MoreChecked w checkedNodes.length) (highest name checkedNodes))
    {found : List String × List String} (hfound : MoreChecked w n found)
    (connection : IConnection) :
    Avoids .outOfFuel (MoreChecked w n) (followConnection w highest found connection) := by
  rw [followConnection]
  split
  · exact avoids_ok hfound
  · refine (hhighest connection.node found.2 hfound.1 hfound.2).bind fun more hmore => ?_
    have hle : MoreChecked w n more := ⟨hmore.1, Nat.le_trans hfound.2 hmore.2⟩
    dsimp only
    split
    · exact (disabled_avoids w connection.node).bind fun disabled _ => avoids_ok hle
    · exact avoids_ok hle

theorem highest_node_avoids {w : Workflow} {fuel : Nat} {nodeName : String}
    {nodeConnectionIndex : Option Nat} {checkedNodes : List String}
    (hchecked : CheckedNames w checkedNodes)
    (hfuel : w.connectionsByDestinationNode.entries.length < fuel + checkedNodes.length) :
    Avoids .outOfFuel (MoreChecked w checkedNodes.length)
      (getHighestNode w fuel nodeName nodeConnectionIndex checkedNodes) := by
  induction fuel generalizing nodeName nodeConnectionIndex checkedNodes with
  | zero =>
    have hle := hchecked.1.length_le_of_subset hchecked.2
    rw [InsertionMap.keys, List.length_map] at hle
    omega
  | succ fuel ih =>
    rw [getHighestNode]
    refine (disabled_avoids w nodeName).bind fun disabled _ => ?_
    dsimp only
    cases hget : (w.connectionsByDestinationNode.get? nodeName).bind (·.get? .main) with
    | none => exact avoids_ok ⟨hchecked, Nat.le_refl _⟩
    | some inputs =>
      dsimp only
      split
      · exact avoids_ok ⟨hchecked, Nat.le_refl _⟩
      · rename_i hfresh
        have hkey : nodeName ∈ w.connectionsByDestinationNode.keys := by
          obtain ⟨ofNode, hofNode, -⟩ := Option.bind_eq_some_iff.mp hget
          exact InsertionMap.mem_keys_iff.mpr ⟨ofNode, hofNode⟩
        -- the search goes on with one more checked node
        have hchecked' : CheckedNames w (checkedNodes ++ [nodeName]) := by
          refine ⟨List.nodup_append.mpr ⟨hchecked.1, List.nodup_singleton _, ?_⟩, ?_⟩
          · intro a ha b hb hab
            rw [List.mem_singleton.mp hb] at hab
            exact hfresh (hab ▸ ha)
          · exact List.append_subset.mpr ⟨hchecked.2, List.cons_subset.mpr
              ⟨hkey, List.nil_subset _⟩⟩
        have hlength : (checkedNodes ++ [nodeName]).length = checkedNodes.length + 1 := by
          simp
        have hfold : Avoids .outOfFuel (MoreChecked w (checkedNodes.length + 1))
            ((connectionsAt inputs nodeConnectionIndex).foldlM
              (followConnection w fun name => getHighestNode w fuel name none)
              ([], checkedNodes ++ [nodeName])) :=
          avoids_foldlM (fun found hfound connection _ => follow_connection_avoids
              (fun name checked hchecked hle => ih hchecked (by omega)) hfound connection)
            ⟨hchecked', Nat.le_of_eq hlength.symm⟩
        exact ⟨hfold.1, fun found hfound => ⟨(hfold.2 found hfound).1, by
          have := (hfold.2 found hfound).2
          omega⟩⟩

/-- The bound of `getHighestNode` is never reached, also in loops. -/
theorem highest_nodes_in_fuel (w : Workflow) (nodeName : String) (connectionIndex : Nat) :
    highestNodes w nodeName connectionIndex ≠ .error .outOfFuel := by
  have havoids : Avoids .outOfFuel (MoreChecked w 0) (getHighestNode w
      (w.connectionsByDestinationNode.entries.length + 1) nodeName (some connectionIndex) []) :=
    highest_node_avoids ⟨List.nodup_nil, List.nil_subset _⟩ (by simp)
  have hnames : Avoids .outOfFuel (fun _ => True) (highestNodes w nodeName connectionIndex) :=
    havoids.bind fun found _ => avoids_ok trivial
  exact hnames.1

end Fuel

end N8n.Execution
