import Mathlib.Algebra.GroupWithZero.Nat
import N8n.Execution.NodeRun
import N8n.Execution.WaitingEntries

/-!
# Starting waiting nodes

When no node is left on the stack, the execution loop goes through the waiting nodes and starts
the first one that does not need data at all of its inputs. Entries without any items are removed
on the way, after which the search starts again. `check_waiting_nodes_left` says that a search that
starts no node leaves none that could be started.
-/

namespace N8n.Execution

open Collections

variable {ι : Type}

/-- The requirement of a node on its inputs, which only the execution order `v1` knows. -/
def requiredInputs (e : Engine ι) (checkNode : INode) :
    Except ExecutionError (Option RequiredInputs) :=
  if e.workflow.executionOrder = some .v1 then
    match (e.nodeType checkNode).requiredInputs with
    | none => .ok none
    | some (.value inputs) => .ok (some inputs)
    | some (.expression text) => e.getSimpleParameterValue checkNode text
  else .ok none

/-- All inputs of the node are required. -/
def requiresAll (inputsLength : Nat) : Option RequiredInputs → Bool
  | none => false
  | some (.indexes inputs) => inputs.length = inputsLength
  | some (.count inputs) => inputs = inputsLength

/-- The indexes of the slots that received any data, even if it has no items. -/
def inputsWithData (main : List (Slot (List ι))) : List Nat :=
  (main.zipIdx.filter fun (slot, _) => match slot with
    | .null | .hole => false
    | _ => true).map Prod.snd

/-- The inputs that are required have data. -/
def requirementMet (withData : List Nat) : Option RequiredInputs → Bool
  | none => true
  | some (.indexes inputs) => inputs.all (· ∈ withData)
  | some (.count inputs) => inputs ≤ withData.length

/-- The run index whose string comes first among those of a node. -/
def firstRunIndex (runIndexes : List Nat) : Option Nat :=
  runIndexes.foldl (fun first runIndex => match first with
    | none => some runIndex
    | some k => if toString runIndex < toString k then some runIndex else some k) none

/-- The slots of an entry with an empty array for each `null`. -/
def taskDataMain (main : List (Slot (List ι))) : List (Slot (List ι)) :=
  main.map fun slot => match slot with
    | .null => .data []
    | slot => slot

/-- `taskDataMain.filter((data) => data.length).length !== 0`. -/
def hasItems (main : List (Slot (List ι))) : Except ExecutionError Bool :=
  if main.any (match · with | .undefined | .null => true | _ => false) then .error .typeError
  else .ok (main.any fun slot => match slot with
    | .data items => items.length ≠ 0
    | _ => false)

/-- The loop's conditions for starting a waiting node with an entry that has the slots `main`:
not all inputs of the node are required, those that are have data, and some input has items. -/
def entryStarts (inputsLength : Nat) (required : Option RequiredInputs)
    (main : List (Slot (List ι))) : Bool :=
  !requiresAll inputsLength required && requirementMet (inputsWithData main) required &&
    main.any fun slot => match slot with
      | .data items => items.length ≠ 0
      | _ => false

/-- `nodeName` can be started: it waits, it is a node of the workflow, no node before it waits, and
its earliest entry meets the conditions. -/
def CanStart (e : Engine ι) (waiting : IWaitingForExecution ι) (nodeName : String) : Prop :=
  ∃ checkNode entries runIndex entry main required,
    e.workflow.getNode nodeName = some checkNode ∧ waiting.get? nodeName = some entries ∧
      (∀ parent ∈ e.workflow.getParentNodes nodeName, parent ∉ waiting.keys) ∧
      firstRunIndex entries.keys = some runIndex ∧ entries.get? runIndex = some entry ∧
      entry.get? .main = some main ∧ requiredInputs e checkNode = .ok required ∧
      entryStarts (e.nodeType checkNode).inputsLength required main = true

/-- What one round of the search does: it skips a node, puts it on the stack, or removes an entry
without items. -/
inductive NodeCheck (ι : Type) where
  | skipped
  | started (s : IRunExecutionData ι)
  | removed (s : IRunExecutionData ι)

/-- Delete the entry of a node and its source. -/
def removeEntry (s : IRunExecutionData ι) (sources : IWaitingForExecutionSource) (nodeName : String)
    (runIndex : Nat) : IRunExecutionData ι :=
  let last := isLastEntry s nodeName runIndex
  { s with
    waitingExecution := deleteEntry s.waitingExecution nodeName runIndex last
    waitingExecutionSource := some (deleteEntry sources nodeName runIndex last) }

/-- Start a waiting node with its earliest entry, or remove the entry. -/
def startEntry (e : Engine ι) (s : IRunExecutionData ι) (nodeName : String) (runIndex : Nat)
    (inputsLength : Nat) (main : List (Slot (List ι))) :
    Except ExecutionError (NodeCheck ι) := do
  let taskData := taskDataMain main
  let nonEmpty ← hasItems taskData
  match s.waitingExecutionSource with
  | none => .error .typeError
  | some sources =>
    match sources.get? nodeName with
    | none => .error .typeError
    | some sourceEntries =>
      if nonEmpty then
        let padded := taskData ++ List.replicate (inputsLength - taskData.length) (.data [])
        let item : IExecuteData ι :=
          { node := e.workflow.nodes.get? nodeName, data := ofMain padded
            source := sourceEntries.get? runIndex }
        let started := { s with nodeExecutionStack := s.nodeExecutionStack ++ [item] }
        return .started (removeEntry started sources nodeName runIndex)
      else return .removed (removeEntry s sources nodeName runIndex)

/-- The checks of the earliest entry of a waiting node. -/
def checkEntry (e : Engine ι) (s : IRunExecutionData ι) (nodeName : String) (checkNode : INode)
    (required : Option RequiredInputs) : Except ExecutionError (NodeCheck ι) :=
  let entries := (s.waitingExecution.get? nodeName).getD .empty
  match firstRunIndex entries.keys with
  | none => .error .typeError
  | some runIndex => do
    let main ← readEntry s.waitingExecution nodeName runIndex
    if requirementMet (inputsWithData main) required then
      startEntry e s nodeName runIndex (e.nodeType checkNode).inputsLength main
    else return .skipped

/-- One round of the search. -/
def checkWaitingNode (e : Engine ι) (s : IRunExecutionData ι) (waitingNodes : List String)
    (nodeName : String) : Except ExecutionError (NodeCheck ι) :=
  match e.workflow.getNode nodeName with
  | none => .ok .skipped
  | some checkNode => do
    let required ← requiredInputs e checkNode
    if requiresAll (e.nodeType checkNode).inputsLength required then return .skipped
    -- execute the node later when one of its dependencies is still outstanding
    if (e.workflow.getParentNodes nodeName).any (· ∈ waitingNodes) then return .skipped
    checkEntry e s nodeName checkNode required

/-- The search among the waiting nodes, up to the first entry that is removed, after which it
goes on with `restart`. -/
def checkNodes (e : Engine ι)
    (restart : IRunExecutionData ι → Except ExecutionError (IRunExecutionData ι))
    (s : IRunExecutionData ι) (waitingNodes : List String) :
    List String → Except ExecutionError (IRunExecutionData ι)
  | [] => .ok s
  | nodeName :: rest => do
    match ← checkWaitingNode e s waitingNodes nodeName with
    | .skipped => checkNodes e restart s waitingNodes rest
    | .started s => return s
    | .removed s => restart s

/-- The search among all waiting nodes, which starts again at most `fuel` times. -/
def searchNodes (e : Engine ι) :
    Nat → IRunExecutionData ι → Except ExecutionError (IRunExecutionData ι)
  | 0, s => checkNodes e (fun _ => .error .outOfFuel) s s.waitingExecution.keys
      s.waitingExecution.keys
  | fuel + 1, s => checkNodes e (searchNodes e fuel) s s.waitingExecution.keys
      s.waitingExecution.keys

/-- The number of waiting entries, each of which the search can remove once. -/
def entryCount (waiting : IWaitingForExecution ι) : Nat :=
  (waiting.values.map (·.size)).sum

/-- The check of the waiting nodes at the end of an iteration. -/
def checkWaitingNodes (e : Engine ι) (s : IRunExecutionData ι) :
    Except ExecutionError (IRunExecutionData ι) :=
  if s.nodeExecutionStack = [] then searchNodes e (entryCount s.waitingExecution) s else .ok s

section Left

variable {e : Engine ι} {s s' : IRunExecutionData ι} {nodeName : String}

theorem start_entry_started {runIndex inputsLength : Nat} {main : List (Slot (List ι))}
    (h : startEntry e s nodeName runIndex inputsLength main = .ok (.started s')) :
    s'.nodeExecutionStack ≠ [] := by
  rw [startEntry] at h
  obtain ⟨nonEmpty, -, h⟩ := bind_eq_ok.mp h
  cases hsources : s.waitingExecutionSource with
  | none => simp [hsources] at h
  | some sources =>
    simp only [hsources] at h
    cases hentries : sources.get? nodeName with
    | none => simp [hentries] at h
    | some sourceEntries =>
      simp only [hentries] at h
      split at h
      · cases h
        exact List.append_ne_nil_of_right_ne_nil _ (List.cons_ne_nil _ _)
      · cases h

theorem start_entry_not_skipped {runIndex inputsLength : Nat} {main : List (Slot (List ι))} :
    startEntry e s nodeName runIndex inputsLength main ≠ .ok .skipped := by
  intro h
  rw [startEntry] at h
  obtain ⟨nonEmpty, -, h⟩ := bind_eq_ok.mp h
  cases hsources : s.waitingExecutionSource with
  | none => simp [hsources] at h
  | some sources =>
    simp only [hsources] at h
    cases hentries : sources.get? nodeName with
    | none => simp [hentries] at h
    | some sourceEntries =>
      simp only [hentries] at h
      split at h <;> cases h

theorem check_waiting_node_started {waitingNodes : List String}
    (h : checkWaitingNode e s waitingNodes nodeName = .ok (.started s')) :
    s'.nodeExecutionStack ≠ [] := by
  rw [checkWaitingNode] at h
  cases hnode : e.workflow.getNode nodeName with
  | none => simp [hnode] at h
  | some checkNode =>
    simp only [hnode] at h
    obtain ⟨required, -, h⟩ := bind_eq_ok.mp h
    split at h
    · cases h
    · split at h
      · cases h
      · rw [checkEntry] at h
        split at h
        · cases h
        · obtain ⟨main, -, h⟩ := bind_eq_ok.mp h
          split at h
          · exact start_entry_started h
          · cases h

theorem check_waiting_node_skipped
    (h : checkWaitingNode e s s.waitingExecution.keys nodeName = .ok .skipped) :
    ¬CanStart e s.waitingExecution nodeName := by
  rintro ⟨checkNode, entries, runIndex, entry, main, required, hnode, hentries, hparents, hrun,
    hentry, hmain, hrequired, hstarts⟩
  rw [entryStarts, Bool.and_eq_true, Bool.and_eq_true, Bool.not_eq_true'] at hstarts
  have hread : readEntry s.waitingExecution nodeName runIndex = .ok main :=
    read_entry_ok (by rw [entryAt, hentries]; exact hentry) hmain
  have hnone :
      ¬((e.workflow.getParentNodes nodeName).any (· ∈ s.waitingExecution.keys)) = true := by
    rw [List.any_eq_true]
    rintro ⟨parent, hparent, hwaits⟩
    exact hparents parent hparent (of_decide_eq_true hwaits)
  rw [checkWaitingNode, hnode] at h
  simp only [hrequired] at h
  replace h : checkEntry e s nodeName checkNode required = .ok .skipped := by
    change (if _ then _ else _) = _ at h
    rw [if_neg (by rw [hstarts.1.1]; exact Bool.false_ne_true), if_neg hnone] at h
    exact h
  rw [checkEntry, hentries, Option.getD_some, hrun] at h
  obtain ⟨main', hmain', h⟩ := bind_eq_ok.mp h
  rw [hread] at hmain'
  cases hmain'
  rw [if_pos hstarts.1.2] at h
  exact start_entry_not_skipped h

theorem check_nodes_left
    {restart : IRunExecutionData ι → Except ExecutionError (IRunExecutionData ι)}
    (hrestart : ∀ s₁, restart s₁ = .ok s' → s'.nodeExecutionStack = [] →
      ∀ name, ¬CanStart e s'.waitingExecution name)
    (hempty : s'.nodeExecutionStack = []) {rest : List String}
    (hchecked : ∀ name ∈ s.waitingExecution.keys, name ∉ rest → ¬CanStart e s.waitingExecution name)
    (h : checkNodes e restart s s.waitingExecution.keys rest = .ok s') :
    ∀ name, ¬CanStart e s'.waitingExecution name := by
  induction rest with
  | nil =>
    cases h
    intro name hcan
    obtain ⟨_, entries, _, _, _, _, _, hentries, _⟩ := id hcan
    exact hchecked name (InsertionMap.mem_keys_iff.mpr ⟨entries, hentries⟩) (by simp) hcan
  | cons nodeName rest ih =>
    rw [checkNodes] at h
    obtain ⟨check, hcheck, h⟩ := bind_eq_ok.mp h
    cases check with
    | skipped =>
      refine ih (fun name hname hnot => ?_) h
      by_cases hsame : name = nodeName
      · exact hsame ▸ check_waiting_node_skipped hcheck
      · exact hchecked name hname (by simp [hsame, hnot])
    | started s₁ =>
      cases h
      exact absurd hempty (check_waiting_node_started hcheck)
    | removed s₁ => exact hrestart s₁ h hempty

theorem search_nodes_left {fuel : Nat} (h : searchNodes e fuel s = .ok s')
    (hempty : s'.nodeExecutionStack = []) : ∀ name, ¬CanStart e s'.waitingExecution name := by
  induction fuel generalizing s with
  | zero =>
    exact check_nodes_left (fun _ herror _ => by cases herror) hempty
      (fun name hname hnot => absurd hname hnot) h
  | succ fuel ih =>
    exact check_nodes_left (fun _ hsearch _ => ih hsearch) hempty
      (fun name hname hnot => absurd hname hnot) h

/-- After the check of the waiting nodes either the stack is not empty or no waiting node can be
started. -/
theorem check_waiting_nodes_left (h : checkWaitingNodes e s = .ok s')
    (hempty : s'.nodeExecutionStack = []) : ∀ name, ¬CanStart e s'.waitingExecution name := by
  rw [checkWaitingNodes] at h
  split at h
  · exact search_nodes_left h hempty
  · rename_i hstack
    cases h
    exact absurd hempty hstack

end Left

section Fuel

variable {e : Engine ι} {s s' : IRunExecutionData ι} {nodeName : String}

theorem entry_count_delete {waiting : IWaitingForExecution ι} {runIndex : Nat}
    {entries : IndexMap (ITaskDataConnections ι)} {entry : ITaskDataConnections ι} {last : Bool}
    (hentries : waiting.get? nodeName = some entries) (hentry : entries.get? runIndex = some entry)
    (hlast : last = decide ((entries.delete runIndex).size = 0)) :
    entryCount (deleteEntry waiting nodeName runIndex last) + 1 = entryCount waiting := by
  obtain ⟨before, after, hsplit, hset, hdelete⟩ := InsertionMap.split_at hentries
  have hsize : (entries.delete runIndex).size + 1 = entries.size := by
    have hcount := entries.count_delete runIndex fun _ => true
    rw [hentry] at hcount
    simpa [IndexMap.count, IndexMap.size] using hcount
  rw [deleteEntry, hentries, Option.getD_some]
  cases hzero : last with
  | true =>
    have hempty : (entries.delete runIndex).size = 0 := of_decide_eq_true (hlast ▸ hzero)
    rw [if_pos rfl, entryCount, InsertionMap.values, hdelete, entryCount, InsertionMap.values,
      hsplit]
    simp only [List.map_append, List.map_cons, List.sum_append, List.sum_cons]
    omega
  | false =>
    rw [if_neg Bool.false_ne_true, entryCount, InsertionMap.values, hset, entryCount,
      InsertionMap.values, hsplit]
    simp only [List.map_append, List.map_cons, List.sum_append, List.sum_cons]
    omega

/-- A round that removes an entry leaves one entry less. -/
def RemovesOne (s : IRunExecutionData ι) (check : NodeCheck ι) : Prop :=
  ∀ s₁, check = .removed s₁ → entryCount s₁.waitingExecution + 1 = entryCount s.waitingExecution

theorem skipped_avoids :
    Avoids .outOfFuel (RemovesOne s) (.ok .skipped : Except ExecutionError (NodeCheck ι)) :=
  avoids_ok fun s₁ h => by cases h

theorem start_entry_avoids {runIndex inputsLength : Nat} {main : List (Slot (List ι))}
    {entries : IndexMap (ITaskDataConnections ι)} {entry : ITaskDataConnections ι}
    (hentries : s.waitingExecution.get? nodeName = some entries)
    (hentry : entries.get? runIndex = some entry) :
    Avoids .outOfFuel (RemovesOne s) (startEntry e s nodeName runIndex inputsLength main) := by
  have hitems : Avoids .outOfFuel (fun _ => True) (hasItems (taskDataMain main)) := by
    rw [hasItems]
    split
    · exact avoids_error _ (by decide)
    · exact avoids_ok trivial
  rw [startEntry]
  refine hitems.bind fun nonEmpty _ => ?_
  cases s.waitingExecutionSource with
  | none => exact avoids_error _ (by decide)
  | some sources =>
    dsimp only
    cases sources.get? nodeName with
    | none => exact avoids_error _ (by decide)
    | some sourceEntries =>
      dsimp only
      split
      · exact avoids_ok fun s₁ h => by cases h
      · refine avoids_ok fun s₁ h => ?_
        cases h
        refine entry_count_delete hentries hentry ?_
        rw [isLastEntry, hentries]
        rfl

theorem check_waiting_node_avoids
    (hparameter : ∀ node text, e.getSimpleParameterValue node text ≠ .error .outOfFuel)
    (waitingNodes : List String) :
    Avoids .outOfFuel (RemovesOne s) (checkWaitingNode e s waitingNodes nodeName) := by
  rw [checkWaitingNode]
  cases e.workflow.getNode nodeName with
  | none => exact skipped_avoids
  | some checkNode =>
    have hrequired : Avoids .outOfFuel (fun _ => True) (requiredInputs e checkNode) := by
      rw [requiredInputs]
      split
      · split
        · exact avoids_ok trivial
        · exact avoids_ok trivial
        · rename_i text _
          exact ⟨hparameter checkNode text, fun _ _ => trivial⟩
      · exact avoids_ok trivial
    refine hrequired.bind fun required _ => ?_
    split
    · exact skipped_avoids
    · split
      · exact skipped_avoids
      · rw [checkEntry]
        split
        · exact avoids_error _ (by decide)
        · rename_i runIndex hrun
          cases hread : readEntry s.waitingExecution nodeName runIndex with
          | error error =>
            refine avoids_error _ ?_
            rw [readEntry] at hread
            split at hread <;> cases hread
            decide
          | ok main =>
            obtain ⟨entry, hentry, hmain⟩ := read_entry_eq_ok hread
            rw [waiting_of_get, entryAt] at hentry
            obtain ⟨entries, hentries, hentry⟩ := Option.bind_eq_some_iff.mp hentry
            show Avoids _ _ (if requirementMet (inputsWithData main) required = true then
              startEntry e s nodeName runIndex (e.nodeType checkNode).inputsLength main else _)
            split
            · exact start_entry_avoids hentries hentry
            · exact skipped_avoids

theorem check_nodes_avoids
    (hparameter : ∀ node text, e.getSimpleParameterValue node text ≠ .error .outOfFuel)
    {restart : IRunExecutionData ι → Except ExecutionError (IRunExecutionData ι)}
    (hrestart : ∀ s₁, entryCount s₁.waitingExecution + 1 = entryCount s.waitingExecution →
      restart s₁ ≠ .error .outOfFuel) (waitingNodes rest : List String) :
    checkNodes e restart s waitingNodes rest ≠ .error .outOfFuel := by
  induction rest with
  | nil => exact fun h => by cases h
  | cons nodeName rest ih =>
    rw [checkNodes]
    have hcheck : Avoids .outOfFuel (RemovesOne s)
        (checkWaitingNode e s waitingNodes nodeName) :=
      check_waiting_node_avoids hparameter waitingNodes
    have hrest : Avoids .outOfFuel (fun _ => True) (checkWaitingNode e s waitingNodes nodeName >>=
        fun check => match check with
          | .skipped => checkNodes e restart s waitingNodes rest
          | .started s => pure s
          | .removed s => restart s) := by
      refine hcheck.bind fun check hremoves => ?_
      cases check with
      | skipped => exact ⟨ih, fun _ _ => trivial⟩
      | started s₁ => exact avoids_ok trivial
      | removed s₁ => exact ⟨hrestart s₁ (hremoves s₁ rfl), fun _ _ => trivial⟩
    exact hrest.1

end Fuel

end N8n.Execution
