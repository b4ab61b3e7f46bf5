import N8n.Execution.Iteration

/-!
# Errors that are ignored

What follows the tries of a node that failed and whose error the workflow ignores: the error is
filed in the run data, and what the node passes on is read from its input. `error_ignored_iff` says
when that is so: the code looks at the first input only, and without data there it takes what an
earlier try has left.
-/

namespace N8n.Execution

open Collections

variable {ι : Type}

section RunData

variable {s s' : IRunExecutionData ι}

variable {d : Delivery ι}

theorem choose_entry_run_data {n k : Nat} (h : chooseEntry s d n = .ok (s', k)) :
    s'.runData = s.runData := by
  rw [chooseEntry] at h
  obtain ⟨found, -, h⟩ := bind_eq_ok.mp h
  cases found with
  | none =>
    cases h
    rfl
  | some runIndex =>
    cases h
    rfl

theorem write_delivery_run_data {k : Nat} (h : writeDelivery s d k = .ok s') :
    s'.runData = s.runData := by
  rw [writeDelivery] at h
  obtain ⟨waiting, -, h⟩ := bind_eq_ok.mp h
  obtain ⟨sources, -, h⟩ := bind_eq_ok.mp h
  cases h
  rfl

theorem keep_waiting_run_data {n k : Nat} (h : keepWaiting s d n k = .ok s') :
    s'.runData = s.runData := by
  rw [keepWaiting] at h
  obtain ⟨slots, -, h⟩ := bind_eq_ok.mp h
  obtain ⟨sources, -, h⟩ := bind_eq_ok.mp h
  cases h
  rfl

theorem open_waiting_run_data (s : IRunExecutionData ι) (nodeName : String) :
    (openWaiting s nodeName).runData = s.runData := by
  rw [openWaiting]
  split <;> rfl

theorem add_node_run_data {w : Workflow} {emptyItem : ι}
    (h : addNodeToBeExecuted w emptyItem s d = .ok s') : s'.runData = s.runData := by
  rw [addNodeToBeExecuted] at h
  obtain ⟨inputs, -, h⟩ := bind_eq_ok.mp h
  split at h
  · rw [addWaitingNode] at h
    obtain ⟨⟨chosen, k⟩, hchosen, h⟩ := bind_eq_ok.mp h
    obtain ⟨written, hwritten, h⟩ := bind_eq_ok.mp h
    obtain ⟨slots, -, h⟩ := bind_eq_ok.mp h
    have hkept : written.runData = s.runData := by
      rw [write_delivery_run_data hwritten, choose_entry_run_data hchosen, open_waiting_run_data]
    split at h
    · cases h
      exact hkept
    · obtain ⟨stack, -, h⟩ := bind_eq_ok.mp h
      exact (keep_waiting_run_data h).trans hkept
  · cases h
    rfl

theorem Releases.run_data {e : Engine ι} {nodeName : String} {k : Nat}
    (h : Releases e s nodeName k s') : s'.runData = s.runData := by
  obtain ⟨_, _, _, _, _, _, rfl, _⟩ := h.released
  rfl

theorem deliver_run_run_data {e : Engine ι} {s s' : LoopState ι} {node : INode} {runIndex : Nat}
    {t : Tries ι} {outputs : List (Slot (List ι))} {taskData : ITaskData ι}
    (h : deliverRun e s node runIndex t outputs taskData = .ok (.next s')) :
    s'.data.runData = addTaskData t.runData node taskData :=
  deliver_run_keeps (fun d => d.runData = addTaskData t.runData node taskData)
    (fun _ _ _ _ hd h => (add_node_run_data h).trans hd)
    (fun _ _ _ _ hd h => h.run_data.trans hd) rfl h

end RunData

section Ignored

variable (e : Engine ι) (s : LoopState ι) (item : IExecuteData ι) (node : INode) (runIndex : Nat)
  (t : Tries ι)

/-- No main input of the item has items. -/
def NoInputHasItems (item : IExecuteData ι) : Prop :=
  ∀ index items, mainSlot item.data index = some items → items = []

/-- The outputs are the items of a main input that has some, or nothing if none has. -/
def PassesInputOn (outputs : List (Slot (List ι))) : Prop :=
  (∃ index items, mainSlot item.data index = some items ∧ items ≠ [] ∧
      outputs = [.data (items.map e.items.mergeError)]) ∨
    (NoInputHasItems item ∧ ∀ slot ∈ outputs, slot = .data [])

/-- The data of a run that failed. -/
def failedTaskData (outputs : List (Slot (List ι))) : ITaskData ι :=
  { taskDataOf node outputs with error := true }

/-- The claim on a failed run whose error is ignored: the loop goes on, the error is filed, and the
node passes the items of an input on. -/
def ErrorIsIgnored : Prop :=
  ∃ s' outputs, settleRun e s item node runIndex t = .ok (.next s') ∧
    s'.data.runData = addTaskData t.runData node (failedTaskData node outputs) ∧
    deliverRun e s node runIndex t outputs (failedTaskData node outputs) = .ok (.next s') ∧
    PassesInputOn e item outputs

/-- The loop goes on when the outputs are filed and delivered. -/
def GoesOnWith (outputs : List (Slot (List ι))) : Prop :=
  ∃ s', deliverRun e s node runIndex t outputs (failedTaskData node outputs) = .ok (.next s')

/-- The first main input is not there, or it is `null`. -/
def FirstInputIsNull (item : IExecuteData ι) : Prop :=
  ∀ first rest, item.data.get? .main = some (first :: rest) → first = .null

/-- The first input has data, which has no items only if no input has any; or it is `null`, and what
an earlier try has left are the items of an input. The loop goes on with that. -/
def FirstInputServes : Prop :=
  (∃ items, mainSlot item.data 0 = some items ∧ (items = [] → NoInputHasItems item) ∧
      GoesOnWith e s node runIndex t [.data (items.map e.items.mergeError)]) ∨
    (FirstInputIsNull item ∧ ∃ outputs, mergeErrors e t.nodeSuccessData = .ok outputs ∧
      PassesInputOn e item outputs ∧ GoesOnWith e s node runIndex t outputs)

variable {e s item node runIndex t}

theorem output_of_failure_cases (item : IExecuteData ι) :
    (∃ items, mainSlot item.data 0 = some items ∧ ¬ FirstInputIsNull item ∧
        ∀ left, outputOfFailure item left = .data [.data items]) ∨
      (mainSlot item.data 0 = none ∧ FirstInputIsNull item ∧
        ∀ left, outputOfFailure item left = left) ∨
      (mainSlot item.data 0 = none ∧ ¬ FirstInputIsNull item ∧
        ∀ left, outputOfFailure item left = .data [.undefined]) := by
  cases hmain : item.data.get? .main with
  | none => simp [outputOfFailure, FirstInputIsNull, mainSlot, hmain, readSlot, Slot.toOption]
  | some main =>
    cases main with
    | nil => simp [outputOfFailure, FirstInputIsNull, mainSlot, hmain, readSlot, Slot.toOption]
    | cons first rest =>
      cases first <;>
        simp [outputOfFailure, FirstInputIsNull, mainSlot, hmain, readSlot, Slot.toOption,
          Slot.isNull]

theorem failedTaskData_inj {outputs outputs' : List (Slot (List ι))}
    (h : failedTaskData node outputs = failedTaskData node outputs') : outputs = outputs' := by
  have hdata := congrArg ITaskData.data h
  simp only [failedTaskData, taskDataOf, Option.some.injEq] at hdata
  have hget := congrArg (·.get? (node.rewireOutputLogTo.getD .main)) hdata
  simpa using hget

theorem addTaskData_inj {runData : IRunData ι} {taskData taskData' : ITaskData ι}
    (h : addTaskData runData node taskData = addTaskData runData node taskData') :
    taskData = taskData' := by
  have hget := congrArg (·.get? node.name) h
  simpa [addTaskData] using hget

theorem settle_failed_run (hcontinues : continuesOnError node = true) (hfailed : t.failed = true) :
    settleRun e s item node runIndex t =
      (mergeErrors e (outputOfFailure item t.nodeSuccessData)).bind fun outputs =>
        deliverRun e s node runIndex t outputs (failedTaskData node outputs) := by
  rw [settle_run_eq (by rw [hcontinues]; simp), hfailed]
  rfl

/-- The error of a failed run is ignored exactly when the first input has the data to pass on, or
it is `null` and what an earlier try has left serves instead. -/
theorem error_ignored_iff (hcontinues : continuesOnError node = true) (hfailed : t.failed = true) :
    ErrorIsIgnored e s item node runIndex t ↔ FirstInputServes e s item node runIndex t := by
  have hignored : ErrorIsIgnored e s item node runIndex t ↔ ∃ outputs,
      mergeErrors e (outputOfFailure item t.nodeSuccessData) = .ok outputs ∧
        PassesInputOn e item outputs ∧ GoesOnWith e s node runIndex t outputs := by
    unfold ErrorIsIgnored GoesOnWith
    rw [settle_failed_run hcontinues hfailed]
    constructor
    · rintro ⟨s', outputs, hsettled, hfiled, hdelivered, hpasses⟩
      obtain ⟨outputs', hmerged, hdelivered'⟩ := bind_eq_ok.mp hsettled
      have hfiled' := deliver_run_run_data hdelivered'
      rw [hfiled] at hfiled'
      obtain rfl := failedTaskData_inj (addTaskData_inj hfiled')
      exact ⟨outputs, hmerged, hpasses, s', hdelivered⟩
    · rintro ⟨outputs, hmerged, hpasses, s', hdelivered⟩
      exact ⟨s', outputs, bind_eq_ok.mpr ⟨outputs, hmerged, hdelivered⟩,
        deliver_run_run_data hdelivered, hdelivered, hpasses⟩
  rw [hignored, FirstInputServes]
  rcases output_of_failure_cases item with ⟨items, hslot, hnull, houtput⟩ |
    ⟨hslot, hnull, houtput⟩ | ⟨hslot, hnull, houtput⟩
  · rw [houtput, hslot]
    have hpasses : PassesInputOn e item [.data (items.map e.items.mergeError)] ↔
        (items = [] → NoInputHasItems item) := by
      constructor
      · rintro (⟨index, items', -, hne, heq⟩ | ⟨hnone, -⟩) hempty
        · subst hempty
          simp only [List.map_nil, List.cons.injEq, Slot.data.injEq, and_true] at heq
          exact absurd (List.map_eq_nil_iff.mp heq.symm) hne
        · exact hnone
      · intro hnone
        by_cases hempty : items = []
        · exact .inr ⟨hnone hempty, by simp [hempty]⟩
        · exact .inl ⟨0, items, hslot, hempty, rfl⟩
    have hmerged : mergeErrors e (.data [.data items]) =
        .ok [.data (items.map e.items.mergeError)] := rfl
    simp [hmerged, hpasses, hnull]
  · rw [houtput, hslot]
    simp [hnull]
  · rw [houtput, hslot]
    simp [hnull, mergeErrors]

end Ignored

section Example

/-- A node that goes on when it fails. -/
def lenientNode : INode := { name := "Merge", onError := some .continueRegularOutput }

/-- An item of the stack with data at one of two inputs. -/
def oneInputItem (first second : Slot (List Nat)) : IExecuteData Nat :=
  { node := some lenientNode, data := ofMain [first, second], source := none }

/-- The only try of the node has thrown. -/
def thrownTry : Tries Nat :=
  { nodeSuccessData := .null, failed := true, waitTill := false, runData := .empty, calls := 1 }

/-- The loop with an empty stack. -/
def emptyLoop : LoopState Nat := { data := .initial [] }

/-- The error is ignored when the first input has the data. -/
theorem error_ignored_first_input : continuesOnError lenientNode = true ∧ thrownTry.failed = true ∧
    ErrorIsIgnored branchesEngine emptyLoop (oneInputItem (.data [1]) .null) lenientNode 0
      thrownTry := by
  refine ⟨rfl, rfl, (error_ignored_iff rfl rfl).mpr (.inl ⟨[1], rfl, ?_, ?_⟩)⟩
  · exact fun hempty => absurd hempty (by decide)
  · exact ⟨{ data :=
      { IRunExecutionData.initial [] with
        runData := InsertionMap.set .empty "Merge" [failedTaskData lenientNode [.data [1]]] } },
      rfl⟩

/-- The execution aborts when the first input is `null`, although the second one has data. -/
theorem error_aborts_second_input : continuesOnError lenientNode = true ∧
    thrownTry.failed = true ∧
    executionLoop branchesEngine { data := .initial [oneInputItem .null (.data [1])] }
      [{ call := fun _ => { result := none } }] = .error .typeError ∧
    ¬ ErrorIsIgnored branchesEngine emptyLoop (oneInputItem .null (.data [1])) lenientNode 0
      thrownTry := by
  have haborts : settleRun branchesEngine emptyLoop (oneInputItem .null (.data [1])) lenientNode 0
      thrownTry = .error .typeError := rfl
  refine ⟨rfl, rfl, rfl, ?_⟩
  rintro ⟨s', outputs, hsettled, -⟩
  rw [haborts] at hsettled
  cases hsettled

end Example

end N8n.Execution
