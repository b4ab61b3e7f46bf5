import N8n.Execution.Loop

/-!
# What an iteration does

The outcomes of an iteration of the execution loop, each with all that is known about it: the node
is not on the filter, its item goes back to the stack, its branch ends, or its outputs are
delivered and waiting entries are released. What holds of the data of the execution and is kept by
each delivery and by each release is kept by the whole iteration.
-/

namespace N8n.Execution

open Collections

variable {ι : Type}

section PairedInputs

variable {items : ItemFunctions ι} {data data' : ITaskDataConnections ι}

/-- An input with the paired items of its items updated. -/
def pairedInput (items : ItemFunctions ι) (inputIndex : Nat) : Slot (List ι) → Slot (List ι)
  | .data input => .data (input.mapIdx fun itemIndex item =>
    items.withInputItem item itemIndex (Delivery.orUndefined inputIndex))
  | slot => slot

/-- The inputs of one type with their paired items updated. -/
def pairedInputs (items : ItemFunctions ι) (inputs : List (Slot (List ι))) :
    List (Slot (List ι)) :=
  inputs.zipIdx.map fun (input, inputIndex) => pairedInput items inputIndex input

theorem pair_input_eq {inputIndex : Nat} {input : Slot (List ι)} (h : input ≠ .undefined) :
    pairInput items inputIndex input = .ok (pairedInput items inputIndex input) := by
  cases input with
  | undefined => exact absurd rfl h
  | hole | null | data => rfl

theorem pair_slots_eq_ok_iff {inputs paired : List (Slot (List ι))} :
    (inputs.zipIdx.mapM fun (input, inputIndex) => pairInput items inputIndex input) =
      .ok paired ↔ .undefined ∉ inputs ∧ paired = pairedInputs items inputs := by
  have hpaired (h : .undefined ∉ inputs) :
      (inputs.zipIdx.mapM fun (input, inputIndex) => pairInput items inputIndex input) =
        .ok (pairedInputs items inputs) :=
    mapM_eq_ok fun x hx => pair_input_eq fun hundefined =>
      h (hundefined ▸ List.fst_mem_of_mem_zipIdx hx)
  constructor
  · intro h
    have hdefined : .undefined ∉ inputs := by
      intro hmem
      obtain ⟨i, hi⟩ := List.getElem?_of_mem hmem
      obtain ⟨b, hb⟩ := mapM_ok_of_mem h (List.mk_mem_zipIdx_iff_getElem?.mpr hi)
      cases hb
    rw [hpaired hdefined] at h
    exact ⟨hdefined, (Except.ok.inj h).symm⟩
  · rintro ⟨hdefined, rfl⟩
    exact hpaired hdefined

theorem pair_inputs_get (h : pairInputs items data = .ok data') (type : NodeConnectionType) :
    data'.get? type = (data.get? type).map (pairedInputs items) := by
  have hinv : ∀ type paired, data'.get? type = some paired ↔
      ∃ inputs, (type, inputs) ∈ data.entries ∧ pairedInputs items inputs = paired := by
    refine foldlM_along (fun pre m => ∀ type paired, m.get? type = some paired ↔
      ∃ inputs, (type, inputs) ∈ pre ∧ pairedInputs items inputs = paired) ?_ ?_ h
    · intro type paired
      simp [InsertionMap.get?, InsertionMap.empty]
    · rintro pre ⟨key, inputs⟩ m m' hpre hm hround type paired
      obtain ⟨paired', hpaired, hset⟩ := bind_eq_ok.mp hround
      obtain ⟨-, rfl⟩ := pair_slots_eq_ok_iff.mp hpaired
      cases hset
      rw [InsertionMap.get_set]
      have hfresh (inputs' : List (Slot (List ι))) : (key, inputs') ∉ pre := by
        intro hmem
        have hnodup : ((pre ++ [(key, inputs)]).map Prod.fst).Nodup :=
          data.nodup.sublist (hpre.sublist.map Prod.fst)
        rw [List.map_append, List.nodup_append] at hnodup
        exact hnodup.2.2 key (List.mem_map_of_mem hmem) key (by simp) rfl
      by_cases htype : type = key
      · subst htype
        simp [hfresh]
      · simp [htype, hm]
  cases hget : data.get? type with
  | none =>
    cases hget' : data'.get? type with
    | none => rfl
    | some paired =>
      obtain ⟨inputs, hmem, -⟩ := (hinv type paired).mp hget'
      rw [InsertionMap.get_eq_some_iff.mpr hmem] at hget
      cases hget
  | some inputs =>
    exact (hinv type _).mpr ⟨inputs, InsertionMap.get_eq_some_iff.mp hget, rfl⟩

theorem pair_inputs_ok_iff : (∃ data', pairInputs items data = .ok data') ↔
    ∀ type inputs, data.get? type = some inputs → .undefined ∉ inputs := by
  have hfold : (∃ data', pairInputs items data = .ok data') ↔
      ∀ e ∈ data.entries, .undefined ∉ e.2 := by
    refine foldlM_succeeds_iff fun m e => ⟨?_, fun h => ?_⟩
    · rintro ⟨m', hround⟩
      obtain ⟨paired, hpaired, -⟩ := bind_eq_ok.mp hround
      exact (pair_slots_eq_ok_iff.mp hpaired).1
    · exact ⟨_, bind_eq_ok.mpr ⟨_, pair_slots_eq_ok_iff.mpr ⟨h, rfl⟩, rfl⟩⟩
  rw [hfold]
  exact ⟨fun h type inputs hget => h (type, inputs) (InsertionMap.get_eq_some_iff.mp hget),
    fun h e he => h e.1 e.2 (InsertionMap.get_eq_some_iff.mpr he)⟩

theorem undefined_not_mem_paired {inputs : List (Slot (List ι))} (h : .undefined ∉ inputs) :
    .undefined ∉ pairedInputs items inputs := by
  intro hmem
  obtain ⟨⟨input, i⟩, hinput, heq⟩ := List.mem_map.mp hmem
  cases input with
  | undefined => exact h (List.fst_mem_of_mem_zipIdx hinput)
  | hole | null | data => cases heq

theorem pair_inputs_again (h : pairInputs items data = .ok data') :
    ∃ data'', pairInputs items data' = .ok data'' := by
  have hdefined := pair_inputs_ok_iff.mp ⟨data', h⟩
  refine pair_inputs_ok_iff.mpr fun type paired hget => ?_
  rw [pair_inputs_get h] at hget
  obtain ⟨inputs, hinputs, rfl⟩ := Option.map_eq_some_iff.mp hget
  exact undefined_not_mem_paired (hdefined type inputs hinputs)

@[simp] theorem length_pairedInputs (inputs : List (Slot (List ι))) :
    (pairedInputs items inputs).length = inputs.length := by
  simp [pairedInputs]

theorem read_paired (inputs : List (Slot (List ι))) (i : Nat) :
    readSlot (pairedInputs items inputs) i = pairedInput items i (readSlot inputs i) := by
  rw [readSlot, readSlot, pairedInputs, List.getElem?_map, List.getElem?_zipIdx]
  cases inputs[i]? with
  | none => rfl
  | some input => cases input <;> simp [pairedInput]

@[simp] theorem isNull_pairedInput (inputIndex : Nat) (input : Slot (List ι)) :
    (pairedInput items inputIndex input).isNull = input.isNull := by
  cases input <;> rfl

theorem has_input_data_paired (h : pairInputs items data = .ok data') (w : Workflow)
    (nodeName : String) : hasInputData w nodeName data' = hasInputData w nodeName data := by
  rw [hasInputData, hasInputData]
  generalize (((w.connectionsByDestinationNode.get? nodeName).bind (·.get? .main)).getD []).length
    = rest
  generalize 0 = connectionIndex
  induction rest generalizing connectionIndex with
  | zero => rfl
  | succ rest ih =>
    rw [hasInputDataFrom, hasInputDataFrom, pair_inputs_get h]
    cases data.get? .main with
    | none => rfl
    | some main => simp only [Option.map_some, length_pairedInputs, read_paired,
        isNull_pairedInput, ih]

end PairedInputs

section Releases

variable {e : Engine ι} {s s' : IRunExecutionData ι} {nodeName : String}

/-- The search among the waiting nodes releases the entry `runIndex` of a node: it goes to the stack
if it has items, and it does not wait any more. -/
structure Releases (e : Engine ι) (s : IRunExecutionData ι) (nodeName : String) (runIndex : Nat)
    (s' : IRunExecutionData ι) : Prop where
  first : firstRunIndex (waitingOf s nodeName).keys = some runIndex
  parents : ∀ parent ∈ e.workflow.getParentNodes nodeName, parent ∉ s.waitingExecution.keys
  released : ∃ checkNode main sources stack, e.workflow.getNode nodeName = some checkNode ∧
    readEntry s.waitingExecution nodeName runIndex = .ok main ∧
    s' = removeEntry { s with nodeExecutionStack := stack } sources nodeName runIndex ∧
    (stack = s.nodeExecutionStack ∨ ∃ source, stack = s.nodeExecutionStack ++
      [{ node := e.workflow.nodes.get? nodeName
         data := ofMain (taskDataMain main ++
          List.replicate ((e.nodeType checkNode).inputsLength - main.length) (.data []))
         source := source }])

theorem start_entry_eq_ok {runIndex inputsLength : Nat} {main : List (Slot (List ι))}
    {check : NodeCheck ι} (h : startEntry e s nodeName runIndex inputsLength main = .ok check)
    (hs : check = .started s' ∨ check = .removed s') :
    ∃ sources stack,
      s' = removeEntry { s with nodeExecutionStack := stack } sources nodeName runIndex ∧
      (stack = s.nodeExecutionStack ∨ ∃ source, stack = s.nodeExecutionStack ++
        [{ node := e.workflow.nodes.get? nodeName
           data := ofMain (taskDataMain main ++
            List.replicate (inputsLength - main.length) (.data []))
           source := source }]) := by
  rw [startEntry] at h
  obtain ⟨nonEmpty, -, h⟩ := bind_eq_ok.mp h
  cases hsources : s.waitingExecutionSource with
  | none => simp [hsources] at h
  | some sources =>
    simp only [hsources] at h
    cases hentries : sources.get? nodeName with
    | none => simp [hentries] at h
    | some sourceEntries =>
      simp only [hentries] at h
      have hlength : (taskDataMain main).length = main.length := List.length_map _
      split at h
      · cases h
        rcases hs with hs | hs
        · cases hs
          exact ⟨sources, _, rfl, .inr ⟨sourceEntries.get? runIndex, by rw [hlength]⟩⟩
        · cases hs
      · cases h
        rcases hs with hs | hs
        · cases hs
        · cases hs
          exact ⟨sources, _, rfl, .inl rfl⟩

theorem check_waiting_node_releases {check : NodeCheck ι}
    (h : checkWaitingNode e s s.waitingExecution.keys nodeName = .ok check)
    (hs : check = .started s' ∨ check = .removed s') :
    ∃ runIndex, Releases e s nodeName runIndex s' := by
  rw [checkWaitingNode] at h
  cases hnode : e.workflow.getNode nodeName with
  | none =>
    simp only [hnode] at h
    cases h
    rcases hs with hs | hs <;> cases hs
  | some checkNode =>
    simp only [hnode] at h
    obtain ⟨required, -, h⟩ := bind_eq_ok.mp h
    split at h
    · cases h
      rcases hs with hs | hs <;> cases hs
    · split at h
      · cases h
        rcases hs with hs | hs <;> cases hs
      · rename_i hparents
        rw [checkEntry] at h
        split at h
        · cases h
        · rename_i runIndex hfirst
          obtain ⟨main, hmain, h⟩ := bind_eq_ok.mp h
          split at h
          · obtain ⟨sources, stack, heq, hstack⟩ := start_entry_eq_ok h hs
            refine ⟨runIndex, hfirst, fun parent hparent hwaits => hparents ?_,
              checkNode, main, sources, stack, hnode, hmain, heq, hstack⟩
            exact List.any_eq_true.mpr ⟨parent, hparent, decide_eq_true hwaits⟩
          · cases h
            rcases hs with hs | hs <;> cases hs

theorem check_nodes_keeps (Inv : IRunExecutionData ι → Prop)
    {restart : IRunExecutionData ι → Except ExecutionError (IRunExecutionData ι)}
    (hstep : ∀ s s' nodeName runIndex, Inv s → Releases e s nodeName runIndex s' → Inv s')
    (hrestart : ∀ s, Inv s → restart s = .ok s' → Inv s') {rest : List String} (hs : Inv s)
    (h : checkNodes e restart s s.waitingExecution.keys rest = .ok s') : Inv s' := by
  induction rest with
  | nil =>
    cases h
    exact hs
  | cons nodeName rest ih =>
    rw [checkNodes] at h
    obtain ⟨check, hcheck, h⟩ := bind_eq_ok.mp h
    cases check with
    | skipped => exact ih h
    | started s₁ =>
      cases h
      obtain ⟨runIndex, hreleases⟩ := check_waiting_node_releases hcheck (.inl rfl)
      exact hstep _ _ _ _ hs hreleases
    | removed s₁ =>
      obtain ⟨runIndex, hreleases⟩ := check_waiting_node_releases hcheck (.inr rfl)
      exact hrestart s₁ (hstep _ _ _ _ hs hreleases) h

theorem search_nodes_keeps (Inv : IRunExecutionData ι → Prop)
    (hstep : ∀ s s' nodeName runIndex, Inv s → Releases e s nodeName runIndex s' → Inv s')
    {fuel : Nat} (hs : Inv s) (h : searchNodes e fuel s = .ok s') : Inv s' := by
  induction fuel generalizing s with
  | zero => exact check_nodes_keeps Inv hstep (fun _ _ herror => by cases herror) hs h
  | succ fuel ih => exact check_nodes_keeps Inv hstep (fun _ hs h => ih hs h) hs h

theorem check_waiting_nodes_keeps (Inv : IRunExecutionData ι → Prop)
    (hstep : ∀ s s' nodeName runIndex, Inv s → Releases e s nodeName runIndex s' → Inv s')
    (hs : Inv s) (h : checkWaitingNodes e s = .ok s') : Inv s' := by
  rw [checkWaitingNodes] at h
  split at h
  · exact search_nodes_keeps Inv hstep hs h
  · cases h
    exact hs

end Releases

section Deliveries

variable {w : Workflow} {node : INode} {outputs : List (Slot (List ι))} {runIndex : Nat}

/-- The outputs of a run bring data on one of its connections. -/
def Delivers (w : Workflow) (node : INode) (outputs : List (Slot (List ι))) (runIndex : Nat)
    (d : Delivery ι) : Prop :=
  Except.ok (some d) ∈ deliveriesOf w node outputs runIndex

theorem deliver_outputs_keeps (Inv : IRunExecutionData ι → Prop) {emptyItem : ι}
    {s s' : IRunExecutionData ι}
    (hstep : ∀ s s' d, Delivers w node outputs runIndex d → Inv s →
      addNodeToBeExecuted w emptyItem s d = .ok s' → Inv s')
    (hs : Inv s) (h : deliverOutputs w emptyItem s node outputs runIndex = .ok s') : Inv s' := by
  rw [deliverOutputs] at h
  split at h
  · obtain ⟨nodesToAdd, hnodes, h⟩ := bind_eq_ok.mp h
    refine foldlM_keeps Inv (fun s s' d hd hs => hstep s s' d ?_ hs) hs h
    rw [List.mem_insertionSort] at hd
    obtain ⟨delivery, hmem, hdelivery⟩ := List.mem_filterMap.mp hd
    obtain ⟨a, ha, heq⟩ := exists_of_mem_mapM hnodes hmem
    change delivery = some d at hdelivery
    change a = .ok delivery at heq
    rwa [heq, hdelivery] at ha
  · refine foldlM_keeps Inv (fun s s' delivery hmem hs h => ?_) hs h
    obtain ⟨d, hd, h⟩ := bind_eq_ok.mp h
    rw [hd] at hmem
    cases d with
    | none =>
      cases h
      exact hs
    | some d => exact hstep s s' d hmem hs h

end Deliveries

section Rest

variable (e : Engine ι) (s : LoopState ι) (node : INode) (runIndex : Nat) (t : Tries ι)

/-- The rest of an iteration, from where the data of a run is filed. -/
def deliverRun (outputs : List (Slot (List ι))) (taskData : ITaskData ι) :
    Except ExecutionError (IterationEnd ι) := do
  let data := { s.data with runData := addTaskData t.runData node taskData }
  if t.waitTill then return .stop .waiting
  if e.destinationNode = some node.name then return .next { s with data := data }
  let delivered ← deliverOutputs e.workflow e.items.emptyItem data node outputs runIndex
  let checked ← checkWaitingNodes e delivered
  return .next { s with data := checked }

variable {e s node runIndex t}

theorem settle_run_eq {item : IExecuteData ι}
    (hgoesOn : (t.failed && !continuesOnError node) = false) :
    settleRun e s item node runIndex t =
      (mergeErrors e (if t.failed then outputOfFailure item t.nodeSuccessData
        else t.nodeSuccessData)).bind fun outputs =>
          deliverRun e s node runIndex t outputs
            { taskDataOf node outputs with error := t.failed } := by
  rw [settleRun, if_neg (by rw [hgoesOn]; exact Bool.false_ne_true)]
  rfl

/-- What every delivery of the outputs and every release keeps is kept by the rest of the
iteration. -/
theorem deliver_run_keeps (Inv : IRunExecutionData ι → Prop) {outputs : List (Slot (List ι))}
    {taskData : ITaskData ι} {s' : LoopState ι}
    (hdelivery : ∀ d₁ d₂ d, Delivers e.workflow node outputs runIndex d → Inv d₁ →
      addNodeToBeExecuted e.workflow e.items.emptyItem d₁ d = .ok d₂ → Inv d₂)
    (hrelease : ∀ d₁ d₂ nodeName k, Inv d₁ → Releases e d₁ nodeName k d₂ → Inv d₂)
    (hs : Inv { s.data with runData := addTaskData t.runData node taskData })
    (h : deliverRun e s node runIndex t outputs taskData = .ok (.next s')) : Inv s'.data := by
  rw [deliverRun] at h
  dsimp only at h
  split at h
  · cases h
  · split at h
    · cases h
      exact hs
    · obtain ⟨delivered, hdelivered, h⟩ := bind_eq_ok.mp h
      obtain ⟨checked, hchecked, h⟩ := bind_eq_ok.mp h
      cases h
      exact check_waiting_nodes_keeps Inv hrelease
        (deliver_outputs_keeps Inv hdelivery hs hdelivered) hchecked

end Rest

section Outcomes

/-- What an iteration does to an item that it took from the stack, with its paired items updated:
`s` is the state without the item. -/
inductive Outcome (e : Engine ι) (s : LoopState ι) (tick : Tick ι) (item : IExecuteData ι)
    (node : INode) (runIndex : Nat) : LoopState ι → Prop where
  | filteredOut (filtered : isFilteredOut e node = true) :
      Outcome e s tick item node runIndex s
  | pushedBack (lacks : hasInputData e.workflow node.name item.data = .ok false) :
      Outcome e s tick item node runIndex
        { data := { s.data with nodeExecutionStack := s.data.nodeExecutionStack ++ [item] }
          lastExecutionTry := node.name ++ ":" ++ toString runIndex }
  | branchEnded {t : Tries ι} (has : hasInputData e.workflow node.name item.data = .ok true)
      (ended : runWithTries e item node tick.call s.data.runData = (t, .branchEnded)) :
      Outcome e s tick item node runIndex { s with data := { s.data with runData := t.runData } }
  | ran {t : Tries ι} {s' : LoopState ι}
      (has : hasInputData e.workflow node.name item.data = .ok true)
      (settled : settleRun e s item node runIndex t = .ok (.next s')) :
      Outcome e s tick item node runIndex s'

/-- The index of the run that an item starts. -/
def runIndexOf (s : LoopState ι) (node : INode) : Nat :=
  ((s.data.runData.get? node.name).map (·.length)).getD 0

/-- What the loop compares with the last try that lacked data. -/
def executionTry (s : LoopState ι) (node : INode) : String :=
  node.name ++ ":" ++ toString (runIndexOf s node)

/-- The state of the loop without the first item of the stack. -/
def afterShift (s : LoopState ι) (rest : List (IExecuteData ι)) : LoopState ι :=
  { s with data := { s.data with nodeExecutionStack := rest } }

theorem iterate_next {e : Engine ι} {s s' : LoopState ι} {tick : Tick ι} {item : IExecuteData ι}
    {rest : List (IExecuteData ι)} (h : iterate e s tick item rest = .ok (.next s')) :
    tick.canceled = false ∧ ∃ data node, pairInputs e.items item.data = .ok data ∧
      item.node = some node ∧ executionTry s node ≠ s.lastExecutionTry ∧
      Outcome e (afterShift s rest) tick { item with data := data } node (runIndexOf s node)
        s' := by
  rw [iterate] at h
  split at h
  · cases h
  · rename_i hcanceled
    obtain ⟨data, hdata, h⟩ := bind_eq_ok.mp h
    cases hnode : item.node with
    | none =>
      simp only [hnode] at h
      cases h
    | some node =>
      simp only [hnode] at h
      refine ⟨Bool.eq_false_iff.mpr hcanceled, data, node, hdata, rfl, ?_⟩
      rw [runItem] at h
      dsimp only at h
      split at h
      · cases h
      · rename_i hrepeated
        refine ⟨hrepeated, ?_⟩
        split at h
        · rename_i hfiltered
          cases h
          exact .filteredOut hfiltered
        · obtain ⟨hasData, hhas, h⟩ := bind_eq_ok.mp h
          cases hasData with
          | false =>
            cases h
            exact .pushedBack hhas
          | true =>
            rw [Bool.not_true, if_neg Bool.false_ne_true] at h
            split at h
            · rename_i t hrun
              cases h
              exact .branchEnded hhas hrun
            · exact .ran hhas h

end Outcomes

end N8n.Execution
