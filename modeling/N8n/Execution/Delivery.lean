import N8n.Execution.WaitingEntries

/-!
# No delivery is lost

Where the data that is delivered to the inputs of a node is kept: in the slots of its waiting
entries and of its items on the stack. Each delivery puts its data into one slot and moves the
data of a complete entry as a whole, unless the entry that it creates takes the place of one in
use: the run index of a new entry is the number of entries, which is free only as long as no
entry below it was removed.
-/

namespace N8n.Execution

open Collections

variable {ι : Type}

section Places

/-- The item of the stack is for the node. -/
def IExecuteData.isFor (item : IExecuteData ι) (nodeName : String) : Bool :=
  item.node.any (·.name = nodeName)

variable [DecidableEq ι]

/-- The slot of a main input holds the items. -/
def holds (index : Nat) (items : List ι) (data : ITaskDataConnections ι) : Bool :=
  mainSlot data index = some items

/-- How many items of the stack are for a node and hold the items at its input. -/
def onStack (stack : List (IExecuteData ι)) (nodeName : String) (index : Nat) (items : List ι) :
    Nat :=
  stack.countP fun item => item.isFor nodeName && holds index items item.data

/-- How many entries and items of the stack hold the items at an input of a node. -/
def places (s : IRunExecutionData ι) (nodeName : String) (index : Nat) (items : List ι) : Nat :=
  (waitingOf s nodeName).count (holds index items) +
    onStack s.nodeExecutionStack nodeName index items

/-- The delivery brings the items to an input. -/
def Delivery.lands (d : Delivery ι) (index : Nat) (items : List ι) : Bool :=
  d.connectionData.index = index && d.dataSlot.toOption = some items

/-- How many of the deliveries bring the items to an input of a node. -/
def delivered (calls : List (Delivery ι)) (nodeName : String) (index : Nat)
    (items : List ι) : Nat :=
  calls.countP fun d => d.connectionData.node = nodeName && d.lands index items

end Places

section FreeEntry

/-- A delivery to an input finds a free entry: some entry waits for the input, or no entry is
filed under the number of entries. -/
def hasFreeEntry (entries : IndexMap (ITaskDataConnections ι)) (index : Nat) : Bool :=
  entries.entries.any (fun e => (mainSlot e.2 index).isNone) || (entries.get? entries.size).isNone

/-- The entry whose place a delivery takes. -/
def displacedEntry (entries : IndexMap (ITaskDataConnections ι)) (index : Nat) :
    Option (ITaskDataConnections ι) :=
  if entries.entries.any (fun e => (mainSlot e.2 index).isNone) then none
  else entries.get? entries.size

theorem displaced_eq_none_iff {entries : IndexMap (ITaskDataConnections ι)} {index : Nat} :
    displacedEntry entries index = none ↔ hasFreeEntry entries index = true := by
  unfold displacedEntry hasFreeEntry
  by_cases hany : entries.entries.any (fun e => (mainSlot e.2 index).isNone) = true
  · rw [if_pos hany, hany]
    simp
  · rw [if_neg hany, Bool.eq_false_iff.mpr hany]
    simp

theorem displaced_holds {entries : IndexMap (ITaskDataConnections ι)} {index : Nat}
    {entry : ITaskDataConnections ι} (h : displacedEntry entries index = some entry) :
    ∃ items, mainSlot entry index = some items := by
  unfold displacedEntry at h
  split at h
  · cases h
  · rename_i hfull
    have hmem := IndexMap.get_eq_some_iff.mp h
    simp only [List.any_eq_true, not_exists, not_and] at hfull
    have hsome := hfull _ hmem
    rw [Option.isNone_iff_eq_none] at hsome
    exact Option.ne_none_iff_exists'.mp hsome

end FreeEntry

section Slots

variable [DecidableEq ι]

theorem holds_nulls (n index : Nat) (items : List ι) :
    holds index items (ofMain (List.replicate n .null)) = false := by
  rw [holds, main_slot_eq (of_main_get _), read_nulls]
  rfl

theorem one_holds_write {d : Delivery ι} {entry entry' : ITaskDataConnections ι}
    {slots : List (Slot (List ι))} (hmain : entry.get? .main = some slots)
    (hmissing : (readSlot slots d.connectionData.index).falsy = true)
    (hmain' : entry'.get? .main = some (writeSlot slots d.connectionData.index d.dataSlot))
    (index : Nat) (items : List ι) :
    IndexMap.one (holds index items) (some entry') =
      IndexMap.one (holds index items) (some entry) + (d.lands index items).toNat := by
  rw [IndexMap.one_some, IndexMap.one_some, holds, holds, main_slot_eq hmain, main_slot_eq hmain',
    read_write_slot]
  by_cases hindex : index = d.connectionData.index
  · have hnone : (readSlot slots index).toOption = none := hindex ▸ falsy_iff.mp hmissing
    rw [if_pos hindex, hnone]
    by_cases hitems : d.dataSlot.toOption = some items <;> simp [Delivery.lands, hindex, hitems]
  · have hlands : d.lands index items = false := by simp [Delivery.lands, Ne.symm hindex]
    rw [if_neg hindex, hlands]
    rfl

theorem count_chosen {current entries : IndexMap (ITaskDataConnections ι)} {index n k : Nat}
    (h : ChosenEntry current index n k entries) (i : Nat) (items : List ι) :
    entries.count (holds i items) + IndexMap.one (holds i items) (displacedEntry current index) =
      current.count (holds i items) := by
  cases h with
  | waiting k found =>
    obtain ⟨entry, slots, hmem, hmain, hfalsy⟩ := find_missing_input_some found
    have hany : current.entries.any (fun e => (mainSlot e.2 index).isNone) = true :=
      List.any_eq_true.mpr ⟨_, hmem, by rw [main_slot_eq hmain, falsy_iff.mp hfalsy]; rfl⟩
    rw [displacedEntry, if_pos hany]
    rfl
  | created found =>
    have hnot : ¬current.entries.any (fun e => (mainSlot e.2 index).isNone) = true := by
      rw [List.any_eq_true]
      rintro ⟨e, he, hmissing⟩
      obtain ⟨slots, hmain, hfalsy⟩ := find_missing_input_none found e he
      rw [main_slot_eq hmain, Option.isNone_iff_eq_none, ← falsy_iff, hfalsy] at hmissing
      cases hmissing
    have hcount := current.count_set current.size (ofMain (List.replicate n .null))
      (holds i items)
    rw [IndexMap.one_some, holds_nulls] at hcount
    rw [displacedEntry, if_neg hnot]
    simpa using hcount

omit [DecidableEq ι] in
theorem chosen_falsy {current entries : IndexMap (ITaskDataConnections ι)} {index n k : Nat}
    (h : ChosenEntry current index n k entries) {entry : ITaskDataConnections ι}
    {slots : List (Slot (List ι))} (hget : entries.get? k = some entry)
    (hmain : entry.get? .main = some slots) : (readSlot slots index).falsy = true := by
  cases h with
  | waiting k found =>
    obtain ⟨entry', slots', hmem, hmain', hfalsy⟩ := find_missing_input_some found
    rw [IndexMap.get_eq_some_iff.mpr hmem] at hget
    cases hget
    rw [hmain'] at hmain
    cases hmain
    exact hfalsy
  | created found =>
    rw [IndexMap.get_set_same] at hget
    cases hget
    have hslots : slots = List.replicate n .null := (Option.some.inj hmain).symm
    rw [hslots, falsy_iff, read_nulls]

end Slots

section Forcing

/-- A round of the loop over the nodes before a waiting one pushes at most one item, which forces
some node. -/
theorem force_input_eq_ok {w : Workflow} {emptyItem : ι} {runData : IRunData ι} {d : Delivery ι}
    {outputNodes : List String} {stack stack' : List (IExecuteData ι)} {inputData : IConnection}
    (h : forceInput w emptyItem runData d outputNodes stack inputData = .ok stack') :
    stack' = stack ∨ ∃ nodeName, stack' = enqueue w stack (forcedItem w emptyItem d nodeName) := by
  rw [forceInput] at h
  split at h
  · cases h
    exact .inl rfl
  · obtain ⟨stackNodes, -, h⟩ := bind_eq_ok.mp h
    obtain ⟨nodeToAdd, -, h⟩ := bind_eq_ok.mp h
    cases nodeToAdd with
    | none =>
      cases h
      exact .inl rfl
    | some nodeName =>
      cases h
      exact .inr ⟨nodeName, rfl⟩

theorem force_inputs_eq_ok {w : Workflow} {emptyItem : ι} {s : IRunExecutionData ι}
    {d : Delivery ι} {inputs : NodeInputConnections} {nodeWasWaiting : Bool}
    {stack : List (IExecuteData ι)}
    (h : forceInputs w emptyItem s d inputs nodeWasWaiting = .ok stack) :
    ∃ names : List String,
      stack = (names.map (forcedItem w emptyItem d)).foldl (enqueue w) s.nodeExecutionStack := by
  rw [forceInputs] at h
  split at h
  · cases h
    exact ⟨[], rfl⟩
  · obtain ⟨outputNodes, -, h⟩ := bind_eq_ok.mp h
    generalize inputs.flatMap (·.getD []) = connections at h
    generalize s.nodeExecutionStack = start at h ⊢
    induction connections generalizing start with
    | nil =>
      cases h
      exact ⟨[], rfl⟩
    | cons inputData rest ih =>
      rw [List.foldlM_cons] at h
      obtain ⟨middle, hmiddle, h⟩ := bind_eq_ok.mp h
      obtain ⟨names, hnames⟩ := ih middle h
      rcases force_input_eq_ok hmiddle with heq | ⟨nodeName, heq⟩
      · exact ⟨names, heq ▸ hnames⟩
      · exact ⟨nodeName :: names, by rw [hnames, heq]; rfl⟩

end Forcing

section Conservation

variable [DecidableEq ι]

theorem on_stack_enqueue (w : Workflow) (stack : List (IExecuteData ι)) (item : IExecuteData ι)
    (nodeName : String) (index : Nat) (items : List ι) :
    onStack (enqueue w stack item) nodeName index items =
      onStack stack nodeName index items + onStack [item] nodeName index items := by
  unfold onStack enqueue
  split
  · rw [← List.singleton_append, List.countP_append, Nat.add_comm]
  · rw [List.countP_append]

theorem on_stack_cons (item : IExecuteData ι) (rest : List (IExecuteData ι)) (nodeName : String)
    (index : Nat) (items : List ι) : onStack (item :: rest) nodeName index items =
      onStack [item] nodeName index items + onStack rest nodeName index items := by
  rw [← List.singleton_append, onStack, List.countP_append]
  rfl

theorem on_stack_enqueue_all (w : Workflow) (stack pushed : List (IExecuteData ι))
    (nodeName : String) (index : Nat) (items : List ι) :
    onStack (pushed.foldl (enqueue w) stack) nodeName index items =
      onStack stack nodeName index items + onStack pushed nodeName index items := by
  induction pushed generalizing stack with
  | nil => simp [onStack]
  | cons item rest ih =>
    rw [List.foldl_cons, ih, on_stack_enqueue, on_stack_cons item rest]
    omega

variable {nodeName : String} {w : Workflow}

theorem on_stack_target {target : String} (hnode : w.nodes.has nodeName)
    (data : ITaskDataConnections ι) (source : Option ITaskDataConnectionsSource) (index : Nat)
    (items : List ι) :
    onStack [{ node := w.nodes.get? target, data := data, source := source }] nodeName index items =
      if nodeName = target then IndexMap.one (holds index items) (some data) else 0 := by
  have hfor : (w.nodes.get? target).any (·.name = nodeName) = decide (nodeName = target) := by
    cases hget : w.nodes.get? target with
    | none =>
      have hne : nodeName ≠ target := by
        rintro rfl
        rw [InsertionMap.has, hget] at hnode
        cases hnode
      simp [hne]
    | some node => simp [(w.named target node hget).1, eq_comm]
  simp only [onStack, IExecuteData.isFor, hfor, List.countP_singleton, IndexMap.one_some]
  by_cases htarget : nodeName = target <;> simp [htarget]

theorem delivered_singleton (d : Delivery ι) (nodeName : String) (index : Nat) (items : List ι) :
    delivered [d] nodeName index items =
      if nodeName = d.connectionData.node then (d.lands index items).toNat else 0 := by
  by_cases htarget : nodeName = d.connectionData.node
  · by_cases hlands : d.lands index items = true <;> simp [delivered, htarget, hlands]
  · simp [delivered, htarget, Ne.symm htarget]

/-- A delivery to a waiting node puts its data into one place and moves no other data out of its
place, except for the data of the entry that it displaces. -/
theorem add_waiting_node_places {emptyItem : ι} {s s' : IRunExecutionData ι} {d : Delivery ι}
    {inputs : NodeInputConnections} (hnode : w.nodes.has nodeName)
    (h : addWaitingNode w emptyItem s d inputs = .ok s') :
    ∃ names : List String, ∀ index items,
      places s' nodeName index items +
          (if nodeName = d.connectionData.node then IndexMap.one (holds index items)
            (displacedEntry (waitingOf s nodeName) d.connectionData.index) else 0) =
        places s nodeName index items + delivered [d] nodeName index items +
          onStack (names.map (forcedItem w emptyItem d)) nodeName index items := by
  obtain ⟨k, entries, entry, slots, hchosen, hget, hmain, hother, hdone⟩ :=
    add_waiting_node_eq_ok h
  have hmissing := chosen_falsy hchosen hget hmain
  rcases hdone with ⟨-, ⟨source, hstack⟩, hwaiting⟩ | ⟨-, ⟨written, hsame, hforced⟩, hwaiting⟩
  · -- the entry leaves the waiting ones and is on the stack with the new slot
    refine ⟨[], fun index items => ?_⟩
    rw [places, places, hstack, on_stack_enqueue, on_stack_target hnode, delivered_singleton]
    by_cases htarget : nodeName = d.connectionData.node
    · have hcount := count_chosen hchosen index items
      have hone := one_holds_write hmain hmissing (InsertionMap.get_set_same entry .main _) index
        items
      have hdelete := entries.count_delete k (holds index items)
      rw [hget] at hdelete
      rw [if_pos htarget, if_pos htarget, if_pos htarget, htarget, hwaiting, hone]
      show _ = _ + 0
      omega
    · rw [if_neg htarget, if_neg htarget, if_neg htarget, hother nodeName htarget]
      rfl
  · -- the entry stays with the new slot
    obtain ⟨names, hnames⟩ := force_inputs_eq_ok hforced
    refine ⟨names, fun index items => ?_⟩
    rw [places, places, hnames, hsame, on_stack_enqueue_all, delivered_singleton]
    by_cases htarget : nodeName = d.connectionData.node
    · have hcount := count_chosen hchosen index items
      have hone := one_holds_write hmain hmissing (of_main_get _) index items
      have hset := entries.count_set k
        (ofMain (writeSlot slots d.connectionData.index d.dataSlot)) (holds index items)
      rw [hget] at hset
      rw [if_pos htarget, if_pos htarget, htarget, hwaiting]
      omega
    · rw [if_neg htarget, if_neg htarget, hother nodeName htarget]
      omega

theorem add_ready_node_places {s : IRunExecutionData ι} {d : Delivery ι}
    (hnode : w.nodes.has nodeName) (index : Nat) (items : List ι) :
    places (addReadyNode w s d) nodeName index items =
      places s nodeName index items + delivered [d] nodeName index items := by
  have hone : IndexMap.one (holds index items) (some (ofMain (writeSlot (List.replicate
      (d.connectionData.index + 1) .null) d.connectionData.index d.dataSlot))) =
      (d.lands index items).toNat := by
    have hwrite := one_holds_write (of_main_get _)
      (falsy_iff.mpr (read_nulls (d.connectionData.index + 1) d.connectionData.index))
      (of_main_get _) index items
    rw [hwrite, IndexMap.one_some, holds_nulls]
    simp
  show (waitingOf s nodeName).count _ + onStack (enqueue w s.nodeExecutionStack _) nodeName index
    items = _
  rw [on_stack_enqueue, on_stack_target hnode, delivered_singleton, hone, places]
  omega

/-- The deliveries of a list, one after the other. -/
def deliverAll (w : Workflow) (emptyItem : ι) (s : IRunExecutionData ι)
    (calls : List (Delivery ι)) : Except ExecutionError (IRunExecutionData ι) :=
  calls.foldlM (addNodeToBeExecuted w emptyItem) s

/-- Every delivery of a run finds its entry free. -/
def allFree (w : Workflow) (emptyItem : ι) (s : IRunExecutionData ι) :
    List (Delivery ι) → Bool
  | [] => true
  | d :: rest =>
    hasFreeEntry (waitingOf s d.connectionData.node) d.connectionData.index &&
      match addNodeToBeExecuted w emptyItem s d with
      | .ok s' => allFree w emptyItem s' rest
      | .error _ => true

theorem add_node_places {emptyItem : ι} {s s' : IRunExecutionData ι} {d : Delivery ι}
    (hnode : w.nodes.has nodeName) (h : addNodeToBeExecuted w emptyItem s d = .ok s')
    (hfree : hasFreeEntry (waitingOf s d.connectionData.node) d.connectionData.index = true) :
    ∃ names : List String, ∀ index items, places s' nodeName index items =
      places s nodeName index items + delivered [d] nodeName index items +
        onStack (names.map (forcedItem w emptyItem d)) nodeName index items := by
  rw [addNodeToBeExecuted] at h
  obtain ⟨inputs, -, h⟩ := bind_eq_ok.mp h
  split at h
  · obtain ⟨names, hplaces⟩ := add_waiting_node_places hnode h
    refine ⟨names, fun index items => ?_⟩
    rw [← hplaces index items]
    split
    · rename_i htarget
      rw [htarget, displaced_eq_none_iff.mpr hfree]
      rfl
    · rfl
  · cases h
    exact ⟨[], fun index items => add_ready_node_places hnode index items⟩

/-- In a run in which every delivery finds its entry free, every delivered datum is in one place
at the end, and so is everything that was there before. Nothing else arrives but the empty items
of the nodes that are forced. -/
theorem deliveries_kept {w : Workflow} {emptyItem : ι} {s s' : IRunExecutionData ι}
    {calls : List (Delivery ι)} {nodeName : String} (hnode : w.nodes.has nodeName)
    (hrun : deliverAll w emptyItem s calls = .ok s')
    (hfree : allFree w emptyItem s calls = true) :
    ∃ forced : List (IExecuteData ι),
      (∀ item ∈ forced, ∃ d ∈ calls, ∃ forcedName, item = forcedItem w emptyItem d forcedName) ∧
      ∀ index items, places s' nodeName index items =
        places s nodeName index items + delivered calls nodeName index items +
          onStack forced nodeName index items := by
  induction calls generalizing s with
  | nil =>
    cases hrun
    exact ⟨[], by simp, fun _ _ => rfl⟩
  | cons d rest ih =>
    rw [deliverAll, List.foldlM_cons] at hrun
    obtain ⟨middle, hstep, hrun⟩ := bind_eq_ok.mp hrun
    rw [allFree, hstep, Bool.and_eq_true] at hfree
    obtain ⟨names, hnames⟩ := add_node_places hnode hstep hfree.1
    obtain ⟨forced, hforced, hplaces⟩ := ih hrun hfree.2
    refine ⟨names.map (forcedItem w emptyItem d) ++ forced, fun item hitem => ?_,
      fun index items => ?_⟩
    · rcases List.mem_append.mp hitem with hfirst | hlater
      · obtain ⟨forcedName, -, rfl⟩ := List.mem_map.mp hfirst
        exact ⟨d, by simp, forcedName, rfl⟩
      · obtain ⟨d', hd', forcedName, heq⟩ := hforced item hlater
        exact ⟨d', by simp [hd'], forcedName, heq⟩
    · have hdelivered : delivered (d :: rest) nodeName index items =
          delivered [d] nodeName index items + delivered rest nodeName index items := by
        rw [← List.singleton_append, delivered, List.countP_append]
        rfl
      have happend : onStack (names.map (forcedItem w emptyItem d) ++ forced) nodeName index
          items = onStack (names.map (forcedItem w emptyItem d)) nodeName index items +
            onStack forced nodeName index items := by
        rw [onStack, List.countP_append]
        rfl
      rw [hplaces, hnames, hdelivered, happend]
      omega

end Conservation

section Merge

/-- Two nodes, each connected to one of the two inputs of a third. -/
def mergeWorkflow : Workflow :=
  .create [{ name := "A" }, { name := "B" }, { name := "M" }]
    ((InsertionMap.set .empty "A" (ofMain [some [⟨"M", .main, 0⟩]])).set "B"
      (ofMain [some [⟨"M", .main, 1⟩]])) (some .v1)

/-- A node delivers one item to an input of the third node. -/
def toMerge (parentNodeName : String) (index item : Nat) : Delivery Nat where
  connectionData := ⟨"M", .main, index⟩
  outputIndex := 0
  parentNodeName := parentNodeName
  nodeSuccessData := some [.data [item]]
  runIndex := 0

/-- Deliveries that complete one entry and leave another waiting are kept. -/
theorem deliveries_kept_two_runs :
    ∃ s', deliverAll mergeWorkflow 0 (.initial [])
        [toMerge "A" 0 1, toMerge "A" 0 2, toMerge "B" 1 3] = .ok s' ∧
      ∃ forced : List (IExecuteData Nat),
        (∀ item ∈ forced, ∃ d ∈ [toMerge "A" 0 1, toMerge "A" 0 2, toMerge "B" 1 3],
          ∃ forcedName, item = forcedItem mergeWorkflow 0 d forcedName) ∧
        ∀ index items, places s' "M" index items =
          places (.initial []) "M" index items +
            delivered [toMerge "A" 0 1, toMerge "A" 0 2, toMerge "B" 1 3] "M" index items +
            onStack forced "M" index items :=
  ⟨_, rfl, deliveries_kept (by decide +kernel) rfl (by decide +kernel)⟩

/-- The input `0` of the third node receives `1` and `2`, which wait in two entries. The delivery
to its input `1` completes the first entry and leaves one entry under the run index `1`. A further
delivery to the input `0` then makes a new entry under the number of entries, which is `1`: the
item `2` is in no place any more. -/
theorem delivery_lost_after_completion :
    (mainInputs mergeWorkflow "M").map List.length = .ok 2 ∧
      ∃ s', deliverAll mergeWorkflow 0 (.initial [])
          [toMerge "A" 0 1, toMerge "A" 0 2, toMerge "B" 1 3, toMerge "A" 0 4] = .ok s' ∧
        delivered [toMerge "A" 0 1, toMerge "A" 0 2, toMerge "B" 1 3, toMerge "A" 0 4] "M" 0 [2] =
          1 ∧
        places s' "M" 0 [2] = 0 :=
  ⟨by decide +kernel, _, rfl, by decide +kernel, by decide +kernel⟩

end Merge

end N8n.Execution
