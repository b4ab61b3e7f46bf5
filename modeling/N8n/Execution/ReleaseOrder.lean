import Mathlib.Data.Nat.Find
import N8n.Execution.Iteration

/-!
# The order of the waiting runs

A node can wait with several entries, one for each run, and the search among the waiting nodes
takes the entry whose run index comes first as a text. `released_in_order_iff` says of every run of
the loop when a node's entries are released in the order of their numbers.
-/

namespace N8n.Execution

open Collections

variable {ι : Type}

/-- The search among the waiting nodes takes an entry of a node: the data before and after it. -/
structure Release (ι : Type) where
  nodeName : String
  before : IRunExecutionData ι
  after : IRunExecutionData ι

section Releases

variable (e : Engine ι)

/-- What the search releases, up to the first entry that is removed, after which it releases what
`restart` says. -/
def checkReleases (restart : IRunExecutionData ι → List (Release ι)) (s : IRunExecutionData ι)
    (waitingNodes : List String) : List String → List (Release ι)
  | [] => []
  | nodeName :: rest =>
    match checkWaitingNode e s waitingNodes nodeName with
    | .ok .skipped => checkReleases restart s waitingNodes rest
    | .ok (.started s') => [⟨nodeName, s, s'⟩]
    | .ok (.removed s') => ⟨nodeName, s, s'⟩ :: restart s'
    | .error _ => []

/-- What the search among all waiting nodes releases. -/
def searchReleases : Nat → IRunExecutionData ι → List (Release ι)
  | 0, s => checkReleases e (fun _ => []) s s.waitingExecution.keys s.waitingExecution.keys
  | fuel + 1, s =>
    checkReleases e (searchReleases fuel) s s.waitingExecution.keys s.waitingExecution.keys

/-- What the check of the waiting nodes at the end of an iteration releases. -/
def waitingReleases (s : IRunExecutionData ι) : List (Release ι) :=
  if s.nodeExecutionStack = [] then searchReleases e (entryCount s.waitingExecution) s else []

/-- The data with which the rest of an iteration checks the waiting nodes, if it comes to that. -/
def checkedData (s : LoopState ι) (item : IExecuteData ι) (node : INode) (runIndex : Nat)
    (t : Tries ι) : Option (IRunExecutionData ι) :=
  if (t.failed && !continuesOnError node) || t.waitTill || e.destinationNode = some node.name then
    none
  else do
    let outputs ← (mergeErrors e (if t.failed then outputOfFailure item t.nodeSuccessData
      else t.nodeSuccessData)).toOption
    let taskData := { taskDataOf node outputs with error := t.failed }
    let data := { s.data with runData := addTaskData t.runData node taskData }
    (deliverOutputs e.workflow e.items.emptyItem data node outputs runIndex).toOption

/-- What an iteration that runs a node releases. -/
def runReleases (s : LoopState ι) (tick : Tick ι) (item : IExecuteData ι) (node : INode) :
    List (Release ι) :=
  if isFilteredOut e node then []
  else match hasInputData e.workflow node.name item.data with
    | .ok true =>
      match runWithTries e item node tick.call s.data.runData with
      | (_, .branchEnded) => []
      | (t, _) =>
        ((checkedData e s item node (runIndexOf s node) t).map (waitingReleases e)).getD []
    | _ => []

/-- What an iteration releases. -/
def iterationReleases (s : LoopState ι) (tick : Tick ι) (item : IExecuteData ι)
    (rest : List (IExecuteData ι)) : List (Release ι) :=
  match tick.canceled, pairInputs e.items item.data, item.node with
  | false, .ok data, some node =>
    if executionTry s node = s.lastExecutionTry then []
    else runReleases e (afterShift s rest) tick { item with data := data } node
  | _, _, _ => []

/-- What the loop releases, as long as `ticks` last. -/
def loopReleases : LoopState ι → List (Tick ι) → List (Release ι)
  | s, ticks =>
    match s.data.nodeExecutionStack with
    | [] => []
    | item :: rest =>
      match ticks with
      | [] => []
      | tick :: ticks =>
        iterationReleases e s tick item rest ++
          match iterate e s tick item rest with
          | .ok (.next s') => loopReleases s' ticks
          | _ => []

end Releases

section Order

/-- The run indexes of the entries with which a node waits. -/
def waitingRuns (s : IRunExecutionData ι) (nodeName : String) : List Nat :=
  (waitingOf s nodeName).keys

/-- The entries of a node are released in the order of their run indexes: each entry that is
released is the least one of those that wait. -/
def ReleasedInOrder (nodeName : String) (releases : List (Release ι)) : Prop :=
  ∀ r ∈ releases, r.nodeName = nodeName → ∀ k ∈ waitingRuns r.before nodeName,
    k ∉ waitingRuns r.after nodeName → ∀ other ∈ waitingRuns r.before nodeName, k ≤ other

/-- The least of the run indexes is also the first one of them as a text. -/
def LeastIsFirst (runIndexes : List Nat) : Prop :=
  ∀ k ∈ runIndexes, (∀ other ∈ runIndexes, k ≤ other) →
    ∀ other ∈ runIndexes, toString k ≤ toString other

variable {e : Engine ι} {s s' : IRunExecutionData ι} {nodeName : String}

theorem Releases.runs {runIndex : Nat} (h : Releases e s nodeName runIndex s') (k : Nat) :
    k ∈ waitingRuns s' nodeName ↔ k ∈ waitingRuns s nodeName ∧ k ≠ runIndex := by
  obtain ⟨checkNode, main, sources, stack, -, -, rfl, -⟩ := h.released
  have hwaiting : waitingOf (removeEntry { s with nodeExecutionStack := stack } sources nodeName
      runIndex) nodeName = (waitingOf s nodeName).delete runIndex :=
    (get_deleteEntry s nodeName nodeName runIndex).trans (if_pos rfl)
  rw [waitingRuns, waitingRuns, hwaiting, IndexMap.mem_keys_iff, IndexMap.mem_keys_iff]
  simp only [IndexMap.get_delete]
  split
  · simp [*]
  · simp [*]

theorem first_run_index_cons (first next : Nat) (rest : List Nat) :
    firstRunIndex (first :: next :: rest) =
      firstRunIndex ((if toString next < toString first then next else first) :: rest) := by
  rw [firstRunIndex, firstRunIndex, List.foldl_cons, List.foldl_cons, List.foldl_cons]
  change List.foldl _ (if toString next < toString first then some next else some first) rest = _
  split <;> rfl

theorem first_run_index_eq_some {runIndexes : List Nat} {runIndex : Nat}
    (h : firstRunIndex runIndexes = some runIndex) :
    runIndex ∈ runIndexes ∧ ∀ k ∈ runIndexes, toString runIndex ≤ toString k := by
  cases runIndexes with
  | nil => cases h
  | cons first rest =>
    induction rest generalizing first with
    | nil =>
      cases h
      exact ⟨List.mem_singleton_self _, List.forall_mem_singleton.mpr (String.le_refl _)⟩
    | cons next rest ih =>
      rw [first_run_index_cons] at h
      obtain ⟨hmem, hfirst⟩ := ih _ h
      rw [List.forall_mem_cons] at hfirst
      simp only [List.forall_mem_cons]
      split at hmem
      · rename_i hbefore
        rw [if_pos hbefore] at hfirst
        exact ⟨List.mem_cons_of_mem _ hmem, String.le_trans hfirst.1 (String.lt_asymm hbefore),
          hfirst⟩
      · rename_i hafter
        rw [if_neg hafter] at hfirst
        refine ⟨?_, hfirst.1, String.le_trans hfirst.1 hafter, hfirst.2⟩
        rcases List.mem_cons.mp hmem with rfl | hrest
        · exact List.mem_cons_self
        · exact List.mem_cons_of_mem _ (List.mem_cons_of_mem _ hrest)

theorem eq_of_toString_eq {k other : Nat} (h : toString k = toString other) : k = other := by
  have hdigits : Nat.toDigits 10 k = Nat.toDigits 10 other := by
    rw [← Nat.toList_repr, ← Nat.toList_repr]
    exact congrArg String.toList h
  rw [← @Nat.ofDigitChars_ten_toDigits k, hdigits, Nat.ofDigitChars_ten_toDigits]

theorem Releases.least_iff {runIndex : Nat} (h : Releases e s nodeName runIndex s') :
    (∀ k ∈ waitingRuns s nodeName, k ∉ waitingRuns s' nodeName →
      ∀ other ∈ waitingRuns s nodeName, k ≤ other) ↔ LeastIsFirst (waitingRuns s nodeName) := by
  obtain ⟨hmem, hfirst⟩ := first_run_index_eq_some h.first
  have hreleased : runIndex ∉ waitingRuns s' nodeName := fun hstays =>
    ((h.runs runIndex).mp hstays).2 rfl
  constructor
  · intro hleast k hk hk_least
    rw [Nat.le_antisymm (hk_least runIndex hmem) (hleast runIndex hmem hreleased k hk)]
    exact hfirst
  · intro hfirst_least k hk hgone
    have hk_released : k = runIndex := by
      by_contra hne
      exact hgone ((h.runs k).mpr ⟨hk, hne⟩)
    obtain ⟨least, hleast, hbelow⟩ : ∃ least ∈ waitingRuns s nodeName,
        ∀ other ∈ waitingRuns s nodeName, least ≤ other := by
      have hwaits : ∃ k, k ∈ waitingRuns s nodeName := ⟨runIndex, hmem⟩
      exact ⟨Nat.find hwaits, Nat.find_spec hwaits, fun other hother => Nat.find_min' hwaits hother⟩
    have hsame : toString least = toString runIndex :=
      String.le_antisymm (hfirst_least least hleast hbelow runIndex hmem) (hfirst least hleast)
    rw [hk_released, ← eq_of_toString_eq hsame]
    exact hbelow

end Order

section Log

variable {e : Engine ι} {s s' : IRunExecutionData ι}

/-- What is in the list was released by the search. -/
def AreReleases (e : Engine ι) (releases : List (Release ι)) : Prop :=
  ∀ r ∈ releases, ∃ k, Releases e r.before r.nodeName k r.after

theorem check_releases_are {restart : IRunExecutionData ι → List (Release ι)}
    (hrestart : ∀ s, AreReleases e (restart s)) (rest : List String) :
    AreReleases e (checkReleases e restart s s.waitingExecution.keys rest) := by
  induction rest with
  | nil => exact List.forall_mem_nil _
  | cons nodeName rest ih =>
    rw [checkReleases]
    split
    · exact ih
    · rename_i s' hcheck
      exact List.forall_mem_singleton.mpr (check_waiting_node_releases hcheck (.inl rfl))
    · rename_i s' hcheck
      exact List.forall_mem_cons.mpr
        ⟨check_waiting_node_releases hcheck (.inr rfl), hrestart s'⟩
    · exact List.forall_mem_nil _

theorem search_releases_are (fuel : Nat) (s : IRunExecutionData ι) :
    AreReleases e (searchReleases e fuel s) := by
  induction fuel generalizing s with
  | zero => exact check_releases_are (fun _ => List.forall_mem_nil _) _
  | succ fuel ih => exact check_releases_are ih _

theorem waiting_releases_are (s : IRunExecutionData ι) : AreReleases e (waitingReleases e s) := by
  rw [waitingReleases]
  split
  · exact search_releases_are _ s
  · exact List.forall_mem_nil _

theorem iteration_releases_are (s : LoopState ι) (tick : Tick ι) (item : IExecuteData ι)
    (rest : List (IExecuteData ι)) : AreReleases e (iterationReleases e s tick item rest) := by
  rw [iterationReleases]
  split
  · split
    · exact List.forall_mem_nil _
    · rw [runReleases]
      split
      · exact List.forall_mem_nil _
      · split
        · split
          · exact List.forall_mem_nil _
          · rename_i t _ _ _
            cases checkedData e (afterShift s rest) _ _ _ t with
            | none => exact List.forall_mem_nil _
            | some data => exact waiting_releases_are data
        · exact List.forall_mem_nil _
  · exact List.forall_mem_nil _

/-- Whatever the loop takes from the waiting entries at the end of its iterations is a release of
the search. -/
theorem loop_releases_are (s : LoopState ι) (ticks : List (Tick ι)) :
    AreReleases e (loopReleases e s ticks) := by
  induction ticks generalizing s with
  | nil =>
    rw [loopReleases]
    split <;> exact List.forall_mem_nil _
  | cons tick ticks ih =>
    rw [loopReleases]
    split
    · exact List.forall_mem_nil _
    · refine List.forall_mem_append.mpr ⟨iteration_releases_are _ _ _ _, ?_⟩
      split
      · exact ih _
      · exact List.forall_mem_nil _

/-- In every run of the loop, the entries of a node are released in the order of their run indexes
exactly when, at each release, the least of the run indexes is also the first one as a text. -/
theorem released_in_order_iff (e : Engine ι) (s : LoopState ι) (ticks : List (Tick ι))
    (nodeName : String) :
    ReleasedInOrder nodeName (loopReleases e s ticks) ↔
      ∀ r ∈ loopReleases e s ticks, r.nodeName = nodeName →
        LeastIsFirst (waitingRuns r.before nodeName) := by
  refine forall₃_congr fun r hr hname => ?_
  obtain ⟨runIndex, hreleases⟩ := loop_releases_are s ticks r hr
  rw [hname] at hreleases
  exact hreleases.least_iff

theorem check_nodes_ends
    {restart : IRunExecutionData ι → Except ExecutionError (IRunExecutionData ι)}
    {releases : IRunExecutionData ι → List (Release ι)} {waitingNodes rest : List String}
    (hrestart : ∀ s₁, restart s₁ = .ok s' →
      s' = (((releases s₁).getLast?).map Release.after).getD s₁)
    (h : checkNodes e restart s waitingNodes rest = .ok s') :
    s' = (((checkReleases e releases s waitingNodes rest).getLast?).map Release.after).getD s := by
  induction rest with
  | nil =>
    cases h
    rfl
  | cons nodeName rest ih =>
    rw [checkNodes] at h
    obtain ⟨check, hcheck, h⟩ := bind_eq_ok.mp h
    rw [checkReleases, hcheck]
    cases check with
    | skipped => exact ih h
    | started s₁ =>
      cases h
      rfl
    | removed s₁ =>
      change s' = ((⟨nodeName, s, s₁⟩ :: releases s₁).getLast?.map Release.after).getD s
      rw [hrestart s₁ h]
      cases releases s₁ with
      | nil => rfl
      | cons first others =>
        rw [List.getLast?_cons_cons]
        rfl

theorem check_waiting_nodes_ends (h : checkWaitingNodes e s = .ok s') :
    s' = (((waitingReleases e s).getLast?).map Release.after).getD s := by
  have hsearch {fuel : Nat} {s : IRunExecutionData ι} (h : searchNodes e fuel s = .ok s') :
      s' = (((searchReleases e fuel s).getLast?).map Release.after).getD s := by
    induction fuel generalizing s with
    | zero => exact check_nodes_ends (fun _ herror => by cases herror) h
    | succ fuel ih => exact check_nodes_ends (fun _ hnext => ih hnext) h
  rw [checkWaitingNodes] at h
  rw [waitingReleases]
  split at h
  · rename_i hstack
    rw [if_pos hstack]
    exact hsearch h
  · rename_i hstack
    cases h
    rw [if_neg hstack]
    rfl

theorem settle_run_ends {s s' : LoopState ι} {item : IExecuteData ι} {node : INode} {runIndex : Nat}
    {t : Tries ι} (h : settleRun e s item node runIndex t = .ok (.next s')) :
    match checkedData e s item node runIndex t with
    | none => s'.data.waitingExecution = s.data.waitingExecution
    | some data => checkWaitingNodes e data = .ok s'.data := by
  rw [settleRun] at h
  rw [checkedData]
  split at h
  · cases h
  · rename_i hgoesOn
    obtain ⟨outputs, houtputs, h⟩ := bind_eq_ok.mp h
    split at h
    · cases h
    · rename_i hwaits
      split at h
      · rename_i hdestination
        cases h
        rw [if_pos (by simp [hdestination])]
      · rename_i hdestination
        obtain ⟨delivered, hdelivered, h⟩ := bind_eq_ok.mp h
        obtain ⟨checked, hchecked, h⟩ := bind_eq_ok.mp h
        cases h
        rw [if_neg (by simp_all)]
        simp only [houtputs, hdelivered, Except.toOption, bind, Option.bind]
        exact hchecked

end Log

section Example

/-- A trigger with eleven outputs, all of which lead to the first input of a node with two inputs,
and another trigger that leads to its second input. -/
def elevenRuns : Workflow :=
  .create [{ name := "Trigger" }, { name := "Lookup" }, { name := "Merge" }]
    ((InsertionMap.set .empty "Trigger"
      (ofMain (List.replicate 11 (some [⟨"Merge", .main, 0⟩])))).set "Lookup"
      (ofMain [some [⟨"Merge", .main, 1⟩]])) (some .v1)

/-- An execution of the workflow. -/
def elevenEngine : Engine Nat := { branchesEngine with workflow := elevenRuns }

/-- The trigger returns an item at each of its outputs, and the node with two inputs at its own. -/
def elevenTicks : List (Tick Nat) :=
  [{ call := fun _ => { result := some (.data (List.replicate 11 (.data [1]))) } },
    { call := fun _ => { result := some (.data [.data [1]]) } },
    { call := fun _ => { result := some (.data [.data [1]]) } }]

/-- With eleven runs waiting, the search releases the run 10 after the run 1, while the runs 2 to 9
still wait. -/
theorem tenth_run_before_second :
    ¬ ReleasedInOrder "Merge" (loopReleases elevenEngine branchesStart elevenTicks) := by
  intro hordered
  have hruns : (loopReleases elevenEngine branchesStart elevenTicks).map (fun r =>
      (r.nodeName, waitingRuns r.before "Merge", waitingRuns r.after "Merge")) =
    [("Merge", [0, 1, 2, 3, 4, 5, 6, 7, 8, 9, 10], [1, 2, 3, 4, 5, 6, 7, 8, 9, 10]),
      ("Merge", [1, 2, 3, 4, 5, 6, 7, 8, 9, 10], [2, 3, 4, 5, 6, 7, 8, 9, 10]),
      ("Merge", [2, 3, 4, 5, 6, 7, 8, 9, 10], [2, 3, 4, 5, 6, 7, 8, 9])] := by decide +kernel
  obtain ⟨r, hr, hlast⟩ : ∃ r ∈ loopReleases elevenEngine branchesStart elevenTicks,
      (r.nodeName, waitingRuns r.before "Merge", waitingRuns r.after "Merge") =
        ("Merge", [2, 3, 4, 5, 6, 7, 8, 9, 10], [2, 3, 4, 5, 6, 7, 8, 9]) :=
    List.mem_map.mp (by rw [hruns]; simp)
  simp only [Prod.mk.injEq] at hlast
  obtain ⟨hname, hbefore, hafter⟩ := hlast
  have hleast := hordered r hr hname 10 (by rw [hbefore]; simp) (by rw [hafter]; simp) 2
    (by rw [hbefore]; simp)
  exact absurd hleast (by decide)

end Example

end N8n.Execution
