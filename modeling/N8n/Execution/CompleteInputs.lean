import N8n.Execution.Delivery
import N8n.Execution.Spinning

/-!
# Inputs of the nodes that run

Without the execution order `v1`, a node with several inputs is to run when all of them have data.
Items reach the stack from a delivery, from an entry that is complete, from an entry that is
released, and for a node that is forced to run. `waits_for_all_inputs` says that only the last ones
can lack data for a connected input when `runNode` is called: `Supplied` is what the loop keeps of
the others, and `ensureInputData` compares the number of inputs with an index that is off by one.
-/

namespace N8n.Execution

open Collections

variable {ι : Type}

section Supplied

/-- The connections of the main inputs of a node. -/
def inputsOf (w : Workflow) (nodeName : String) : NodeInputConnections :=
  ((w.connectionsByDestinationNode.get? nodeName).bind (·.get? .main)).getD []

/-- Slots with data for all `n` inputs. A node with one input may also have `null` there. -/
def HasAllInputs (n : Nat) (main : List (Slot (List ι))) : Prop :=
  ∀ i < n, (∃ items, readSlot main i = .data items) ∨ n = 1 ∧ readSlot main i = .null

/-- The item has data for all main inputs of its node, or it has data for the first one only, as
the items that force a node have. -/
def Supplied (w : Workflow) (item : IExecuteData ι) : Prop :=
  ∀ node, item.node = some node → ∃ main, item.data.get? .main = some main ∧
    (HasAllInputs (inputsOf w node.name).length main ∨ ∃ items, main = [.data items])

/-- Slots of a waiting entry: each of the `n` inputs has data or `null`. -/
def AwaitsInputs (n : Nat) (slots : List (Slot (List ι))) : Prop :=
  ∀ i < n, (∃ items, readSlot slots i = .data items) ∨ readSlot slots i = .null

/-- The entries of a node with `n` inputs. -/
def EntriesAwait (n : Nat) (entries : IndexMap (ITaskDataConnections ι)) : Prop :=
  ∀ k entry slots, entries.get? k = some entry → entry.get? .main = some slots →
    AwaitsInputs n slots

/-- What the loop keeps: the items on the stack are supplied, and each waiting entry has a slot for
every input. -/
structure InputsKept (w : Workflow) (d : IRunExecutionData ι) : Prop where
  stack : ∀ item ∈ d.nodeExecutionStack, Supplied w item
  waiting : ∀ nodeName, EntriesAwait (inputsOf w nodeName).length (waitingOf d nodeName)

variable {w : Workflow} {n : Nat} {slots : List (Slot (List ι))}

theorem length_inputsOf {nodeName : String} {inputs : NodeInputConnections}
    (h : mainInputs w nodeName = .ok inputs) : inputsOf w nodeName = inputs := by
  rw [mainInputs] at h
  rw [inputsOf]
  split at h
  · cases h
  · rename_i hinputs
    cases h
    rw [hinputs, Option.getD_some]

theorem AwaitsInputs.write (h : AwaitsInputs n slots) (index : Nat) (items : List ι) :
    AwaitsInputs n (writeSlot slots index (.data items)) := by
  intro i hi
  by_cases hsame : i = index
  · rw [hsame, read_written]
    exact .inl ⟨items, rfl⟩
  · rw [read_not_written slots _ hsame]
    exact h i hi

theorem awaits_nulls (n : Nat) : AwaitsInputs (ι := ι) n (List.replicate n .null) := by
  intro i hi
  rw [readSlot, List.getElem?_replicate, if_pos hi]
  exact .inr rfl

theorem AwaitsInputs.complete (h : AwaitsInputs n slots)
    (hcomplete : slots.all (!·.isNull) = true) : HasAllInputs n slots := by
  intro i hi
  rcases h i hi with hdata | hnull
  · exact .inl hdata
  · exfalso
    rw [readSlot] at hnull
    cases hslot : slots[i]? with
    | none =>
      rw [hslot] at hnull
      cases hnull
    | some slot =>
      have hmem := List.mem_of_getElem? hslot
      have hnot := List.all_eq_true.mp hcomplete slot hmem
      rw [hslot] at hnull
      cases slot <;> simp_all [Slot.isNull]

theorem AwaitsInputs.released (h : AwaitsInputs n slots) (missing : Nat) :
    HasAllInputs n (taskDataMain slots ++ List.replicate missing (.data [])) := by
  intro i hi
  have hslot := h i hi
  rw [readSlot] at hslot ⊢
  cases hget : slots[i]? with
  | none =>
    rw [hget] at hslot
    rcases hslot with ⟨items, hdata⟩ | hnull
    · cases hdata
    · cases hnull
  | some slot =>
    have hlt : i < (taskDataMain slots).length := by
      rw [taskDataMain, List.length_map]
      exact (List.getElem?_eq_some_iff.mp hget).1
    rw [List.getElem?_append_left hlt, taskDataMain, List.getElem?_map, hget]
    rw [hget] at hslot
    cases slot <;> simp_all

theorem EntriesAwait.delete {entries : IndexMap (ITaskDataConnections ι)}
    (h : EntriesAwait n entries) (k : Nat) : EntriesAwait n (entries.delete k) := by
  intro k' entry slots hentry
  rw [IndexMap.get_delete] at hentry
  split at hentry
  · cases hentry
  · exact h k' entry slots hentry

theorem EntriesAwait.set {entries : IndexMap (ITaskDataConnections ι)} (h : EntriesAwait n entries)
    (hslots : AwaitsInputs n slots) (k : Nat) : EntriesAwait n (entries.set k (ofMain slots)) := by
  intro k' entry slots' hentry hslots'
  rw [IndexMap.get_set] at hentry
  split at hentry
  · cases hentry
    cases hslots'
    exact hslots
  · exact h k' entry slots' hentry hslots'

end Supplied

section Steps

variable {w : Workflow} {s s' : IRunExecutionData ι}

theorem supplied_of_has_all {nodeName : String} {main : List (Slot (List ι))}
    {data : ITaskDataConnections ι} {source : Option ITaskDataConnectionsSource}
    (hmain : data.get? .main = some main)
    (hall : HasAllInputs (inputsOf w nodeName).length main) :
    Supplied w { node := w.nodes.get? nodeName, data := data, source := source } := by
  intro node hnode
  rw [(w.named nodeName node hnode).1]
  exact ⟨main, hmain, .inl hall⟩

theorem supplied_forced (emptyItem : ι) (d : Delivery ι) (nodeName : String) :
    Supplied w (forcedItem w emptyItem d nodeName) :=
  fun _ _ => ⟨[.data [emptyItem]], rfl, .inr ⟨[emptyItem], rfl⟩⟩

theorem mem_enqueue {stack : List (IExecuteData ι)} {item other : IExecuteData ι} :
    other ∈ enqueue w stack item ↔ other = item ∨ other ∈ stack := by
  rw [enqueue]
  split
  · exact List.mem_cons
  · rw [List.mem_append, List.mem_singleton, or_comm]

theorem mem_enqueue_all {stack pushed : List (IExecuteData ι)} {other : IExecuteData ι}
    (h : other ∈ pushed.foldl (enqueue w) stack) : other ∈ pushed ∨ other ∈ stack := by
  induction pushed generalizing stack with
  | nil => exact .inr h
  | cons item rest ih =>
    rcases ih h with hrest | hstack
    · exact .inl (List.mem_cons_of_mem _ hrest)
    · rcases mem_enqueue.mp hstack with rfl | hold
      · exact .inl List.mem_cons_self
      · exact .inr hold

theorem chosen_awaits {current entries : IndexMap (ITaskDataConnections ι)} {index n k : Nat}
    (hcurrent : EntriesAwait n current) (h : ChosenEntry current index n k entries) :
    EntriesAwait n entries := by
  cases h with
  | waiting => exact hcurrent
  | created => exact hcurrent.set (awaits_nulls n) _

theorem add_waiting_node_keeps {emptyItem : ι} {d : Delivery ι} {inputs : NodeInputConnections}
    {items : List ι} (hs : InputsKept w s) (hinputs : inputsOf w d.connectionData.node = inputs)
    (hdata : d.dataSlot = .data items)
    (h : addWaitingNode w emptyItem s d inputs = .ok s') : InputsKept w s' := by
  obtain ⟨k, entries, entry, slots, hchosen, hentry, hslots, hothers, hends⟩ :=
    add_waiting_node_eq_ok h
  have hawait : EntriesAwait inputs.length entries :=
    chosen_awaits (hinputs ▸ hs.waiting d.connectionData.node) hchosen
  have hwritten : AwaitsInputs inputs.length
      (writeSlot slots d.connectionData.index (.data items)) :=
    (hawait k entry slots hentry hslots).write _ items
  rw [hdata] at hends
  rcases hends with ⟨hall, ⟨source, hstack⟩, hwaiting⟩ | ⟨-, ⟨written, hwritten_stack, hforced⟩,
    hwaiting⟩
  · refine ⟨fun item hitem => ?_, fun nodeName => ?_⟩
    · rw [hstack, mem_enqueue] at hitem
      rcases hitem with rfl | hold
      · refine supplied_of_has_all (InsertionMap.get_set_same _ _ _) ?_
        rw [hinputs]
        exact hwritten.complete hall
      · exact hs.stack item hold
    · by_cases hsame : nodeName = d.connectionData.node
      · rw [hsame, hwaiting, hinputs]
        exact hawait.delete k
      · rw [hothers nodeName hsame]
        exact hs.waiting nodeName
  · refine ⟨fun item hitem => ?_, fun nodeName => ?_⟩
    · obtain ⟨names, hstack⟩ := force_inputs_eq_ok hforced
      rw [hstack] at hitem
      rcases mem_enqueue_all hitem with hforced_item | hold
      · obtain ⟨name, -, rfl⟩ := List.mem_map.mp hforced_item
        exact supplied_forced emptyItem d name
      · exact hs.stack item (hwritten_stack ▸ hold)
    · by_cases hsame : nodeName = d.connectionData.node
      · rw [hsame, hwaiting, hinputs]
        exact hawait.set hwritten k
      · rw [hothers nodeName hsame]
        exact hs.waiting nodeName

/-- A delivery to a node with one input has data there, or leaves `null` there when it is for an
input that the node does not have. -/
theorem ready_has_all {n index : Nat} {items : List ι} (hn : n ≤ 1) :
    HasAllInputs n (writeSlot (List.replicate (index + 1) .null) index (.data items)) := by
  intro i hi
  have hone : n = 1 := by omega
  have hzero : i = 0 := by omega
  subst hzero
  by_cases hsame : 0 = index
  · subst hsame
    rw [read_written]
    exact .inl ⟨items, rfl⟩
  · rw [read_not_written _ _ hsame, readSlot, List.getElem?_replicate, if_pos (Nat.succ_pos index)]
    exact .inr ⟨hone, rfl⟩

theorem add_node_keeps {emptyItem : ι} {d : Delivery ι} {items : List ι} (hs : InputsKept w s)
    (hdata : d.dataSlot = .data items)
    (h : addNodeToBeExecuted w emptyItem s d = .ok s') : InputsKept w s' := by
  rw [addNodeToBeExecuted] at h
  obtain ⟨inputs, hmain, h⟩ := bind_eq_ok.mp h
  have hinputs := length_inputsOf hmain
  split at h
  · exact add_waiting_node_keeps hs hinputs hdata h
  · rename_i hone
    cases h
    refine ⟨fun item hitem => ?_, hs.waiting⟩
    rw [addReadyNode, mem_enqueue, hdata] at hitem
    rcases hitem with rfl | hold
    · refine supplied_of_has_all (of_main_get _) ?_
      rw [hinputs]
      exact ready_has_all (Nat.le_of_not_lt hone)
    · exact hs.stack item hold

theorem delivers_data {node : INode} {outputs : List (Slot (List ι))} {runIndex : Nat}
    {d : Delivery ι} (h : Delivers w node outputs runIndex d) :
    ∃ items, d.dataSlot = .data items := by
  simp only [Delivers, deliveriesOf, List.mem_flatMap, List.mem_map, Prod.exists] at h
  obtain ⟨connections, outputIndex, -, connection, -, hd⟩ := h
  split at hd
  · split at hd
    · rename_i hwants
      simp only [Except.ok.injEq, Option.some.injEq] at hd
      subst hd
      rw [wantsData] at hwants
      rw [Delivery.dataSlot]
      split at hwants
      · rename_i items hread
        exact ⟨items, hread⟩
      · cases hwants
    · cases hd
  · cases hd

theorem release_keeps {e : Engine ι} {nodeName : String} {k : Nat} (hs : InputsKept e.workflow s)
    (h : Releases e s nodeName k s') : InputsKept e.workflow s' := by
  obtain ⟨checkNode, main, sources, stack, -, hmain, rfl, hstack⟩ := h.released
  obtain ⟨entry, hentry, hslots⟩ := read_entry_eq_ok hmain
  refine ⟨fun item hitem => ?_, fun other => ?_⟩
  · have hitem : item ∈ stack := hitem
    rcases hstack with rfl | ⟨source, rfl⟩
    · exact hs.stack item hitem
    · rcases List.mem_append.mp hitem with hold | hnew
      · exact hs.stack item hold
      · rw [List.mem_singleton.mp hnew]
        exact supplied_of_has_all (of_main_get _)
          ((hs.waiting nodeName k entry main hentry hslots).released _)
  · have hwaiting : waitingOf (removeEntry { s with nodeExecutionStack := stack } sources nodeName
        k) other = if other = nodeName then (waitingOf s nodeName).delete k
          else waitingOf s other := get_deleteEntry s nodeName other k
    rw [hwaiting]
    split
    · rename_i hsame
      exact hsame ▸ (hs.waiting nodeName).delete k
    · exact hs.waiting other

end Steps

section Iterations

variable {e : Engine ι} {s s' : LoopState ι} {item : IExecuteData ι}
  {rest : List (IExecuteData ι)} {data : ITaskDataConnections ι}

theorem HasAllInputs.paired {n : Nat} {main : List (Slot (List ι))} (h : HasAllInputs n main)
    (items : ItemFunctions ι) : HasAllInputs n (pairedInputs items main) := by
  intro i hi
  rw [read_paired]
  rcases h i hi with ⟨input, hdata⟩ | ⟨hn, hnull⟩
  · rw [hdata]
    exact .inl ⟨_, rfl⟩
  · rw [hnull]
    exact .inr ⟨hn, rfl⟩

theorem Supplied.paired {w : Workflow} {items : ItemFunctions ι} (h : Supplied w item)
    (hdata : pairInputs items item.data = .ok data) : Supplied w { item with data := data } := by
  intro node hnode
  obtain ⟨main, hmain, hsupplied⟩ := h node hnode
  refine ⟨pairedInputs items main, ?_, ?_⟩
  · rw [pair_inputs_get hdata, hmain]
    rfl
  · rcases hsupplied with hall | ⟨input, rfl⟩
    · exact .inl (hall.paired items)
    · exact .inr ⟨_, rfl⟩

theorem settle_run_keeps {node : INode} {runIndex : Nat} {t : Tries ι}
    (hs : InputsKept e.workflow s.data)
    (h : settleRun e s item node runIndex t = .ok (.next s')) :
    InputsKept e.workflow s'.data := by
  cases hgoesOn : t.failed && !continuesOnError node with
  | true =>
    rw [settleRun, if_pos hgoesOn] at h
    cases h
  | false =>
    rw [settle_run_eq hgoesOn] at h
    obtain ⟨outputs, -, h⟩ := bind_eq_ok.mp h
    refine deliver_run_keeps (InputsKept e.workflow) ?_ ?_ ⟨hs.stack, hs.waiting⟩ h
    · intro d₁ d₂ d hdelivers hd₁ hadded
      obtain ⟨items, hdata⟩ := delivers_data hdelivers
      exact add_node_keeps hd₁ hdata hadded
    · exact fun d₁ d₂ nodeName k hd₁ hreleases => release_keeps hd₁ hreleases

theorem iterate_keeps {tick : Tick ι} (hs : InputsKept e.workflow s.data)
    (hstack : s.data.nodeExecutionStack = item :: rest)
    (h : iterate e s tick item rest = .ok (.next s')) : InputsKept e.workflow s'.data := by
  obtain ⟨-, data, node, hdata, -, -, houtcome⟩ := iterate_next h
  have hrest : ∀ other ∈ rest, Supplied e.workflow other := fun other hother =>
    hs.stack other (by rw [hstack]; exact List.mem_cons_of_mem _ hother)
  have hshifted : InputsKept e.workflow (afterShift s rest).data := ⟨hrest, hs.waiting⟩
  cases houtcome with
  | filteredOut => exact hshifted
  | pushedBack =>
    refine ⟨fun other hother => ?_, hs.waiting⟩
    rcases List.mem_append.mp hother with hold | hnew
    · exact hrest other hold
    · rw [List.mem_singleton.mp hnew]
      exact (hs.stack item (by rw [hstack]; exact List.mem_cons_self)).paired hdata
  | branchEnded => exact ⟨hrest, hs.waiting⟩
  | ran has settled => exact settle_run_keeps hshifted settled

theorem loop_keeps {start : LoopState ι} {ticks : List (Tick ι)}
    (hstart : InputsKept e.workflow start.data)
    (hrun : executionLoop e start ticks = .ok (.unfinished s)) : InputsKept e.workflow s.data := by
  induction ticks generalizing start with
  | nil =>
    rw [executionLoop] at hrun
    split at hrun
    · cases hrun
    · cases hrun
      exact hstart
  | cons tick ticks ih =>
    rw [executionLoop] at hrun
    split at hrun
    · cases hrun
    · rename_i item rest hstack
      obtain ⟨ending, hiterate, hrun⟩ := bind_eq_ok.mp hrun
      cases ending with
      | stop reason => cases hrun
      | next middle => exact ih (iterate_keeps hstart hstack hiterate) hrun

theorem initial_kept (w : Workflow) (node : Option INode) (items : List ι)
    (source : Option ITaskDataConnectionsSource) :
    InputsKept w (.initial [{ node := node, data := ofMain [.data items], source := source }]) := by
  refine ⟨List.forall_mem_singleton.mpr fun _ _ => ⟨[.data items], rfl, .inr ⟨items, rfl⟩⟩, ?_⟩
  intro nodeName k entry slots hentry
  cases hentry

end Iterations

section Waiting

variable (e : Engine ι)

/-- Some output leads to the main input of a node. -/
def Connected (w : Workflow) (nodeName : String) (connectionIndex : Nat) : Prop :=
  inputConnections (inputsOf w nodeName) connectionIndex ≠ []

/-- An enabled node is found above the main input of a node. -/
def EnabledAbove (w : Workflow) (nodeName : String) (connectionIndex : Nat) : Prop :=
  ∃ names, highestNodes w nodeName connectionIndex = .ok names ∧ names ≠ []

/-- The next iteration calls `runNode` for a node with data, unless it is canceled. -/
structure CallsRunNode (s : LoopState ι) (node : INode) (data : ITaskDataConnections ι) :
    Prop where
  taken : ∃ item rest, s.data.nodeExecutionStack = item :: rest ∧ item.node = some node ∧
    pairInputs e.items item.data = .ok data
  fresh : executionTry s node ≠ s.lastExecutionTry
  selected : isFilteredOut e node = false
  has : hasInputData e.workflow node.name data = .ok true

/-- When `runNode` is called for a node whose connected inputs all have enabled nodes above them,
there is data for every connected input. -/
def WaitsForAllInputs (s : LoopState ι) : Prop :=
  ∀ node data, CallsRunNode e s node data →
    (∀ i, Connected e.workflow node.name i → EnabledAbove e.workflow node.name i) →
      ∀ i, Connected e.workflow node.name i →
        ∃ main items, data.get? .main = some main ∧ readSlot main i = .data items

/-- The first item of the stack was not forced with data for the first input only, or its node has
no other input, or its first three inputs are connected, so that it is pushed back. -/
def FirstNotForced (s : LoopState ι) : Prop :=
  ∀ item rest node main, s.data.nodeExecutionStack = item :: rest → item.node = some node →
    item.data.get? .main = some main → main.length = 1 →
      (inputsOf e.workflow node.name).length ≤ 1 ∨ ∀ i < 3, Connected e.workflow node.name i

variable {e} {s : LoopState ι}

theorem has_input_data_from_checks {w : Workflow} {nodeName : String}
    {data : ITaskDataConnections ι} {main : List (Slot (List ι))} {rest connectionIndex i : Nat}
    (hlegacy : forceInputNodeExecution w = true) (hmain : data.get? .main = some main)
    (habove : ∀ j, connectionIndex ≤ j → j ≤ i → highestNodes w nodeName j ≠ .ok [])
    (hle : connectionIndex ≤ i) (hlt : i < connectionIndex + rest)
    (h : hasInputDataFrom w nodeName data rest connectionIndex = .ok true) :
    i ≤ main.length ∧ (readSlot main i).isNull = false := by
  induction rest generalizing connectionIndex with
  | zero => omega
  | succ rest ih =>
    rw [hasInputDataFrom] at h
    obtain ⟨names, hnames, h⟩ := bind_eq_ok.mp h
    have hne : names ≠ [] := fun hempty =>
      habove connectionIndex (Nat.le_refl _) hle (hempty ▸ hnames)
    rw [if_neg hne] at h
    simp only [hmain, hlegacy, Bool.true_and] at h
    split at h
    · cases h
    · rename_i hchecked
      rw [Bool.or_eq_true, not_or, decide_eq_true_eq, Nat.not_lt, Bool.not_eq_true] at hchecked
      by_cases hsame : connectionIndex = i
      · exact hsame ▸ hchecked
      · exact ih (fun j hj => habove j (by omega)) (by omega) (by omega) h

theorem Connected.lt {w : Workflow} {nodeName : String} {i : Nat} (h : Connected w nodeName i) :
    i < (inputsOf w nodeName).length := by
  by_contra hnot
  refine h ?_
  rw [inputConnections, List.getElem?_eq_none (Nat.le_of_not_lt hnot)]
  rfl

theorem EnabledAbove.ne {w : Workflow} {nodeName : String} {i : Nat}
    (h : EnabledAbove w nodeName i) : highestNodes w nodeName i ≠ .ok [] := by
  obtain ⟨names, hnames, hne⟩ := h
  rw [hnames]
  exact fun hempty => hne (Except.ok.inj hempty)

/-- Without the execution order `v1`, in every run of the loop that starts with supplied items,
nodes wait for all their inputs unless they were forced to run without them. -/
theorem waits_for_all_inputs {start : LoopState ι} {ticks : List (Tick ι)}
    (hlegacy : e.workflow.executionOrder ≠ some .v1)
    (hstart : InputsKept e.workflow start.data)
    (hrun : executionLoop e start ticks = .ok (.unfinished s)) (hfirst : FirstNotForced e s) :
    WaitsForAllInputs e s := by
  intro node data hcalls henabled i hi
  obtain ⟨item, rest, hstack, hnode, hdata⟩ := hcalls.taken
  have hforce : forceInputNodeExecution e.workflow = true := decide_eq_true hlegacy
  obtain ⟨main, hmain, hsupplied⟩ := (loop_keeps hstart hrun).stack item
    (by rw [hstack]; exact List.mem_cons_self) node hnode
  have hpaired : data.get? .main = some (pairedInputs e.items main) := by
    rw [pair_inputs_get hdata, hmain]
    rfl
  have hchecks (j : Nat) (hconnected : ∀ k ≤ j, Connected e.workflow node.name k) :=
    has_input_data_from_checks hforce hpaired
      (fun k _ hk => (henabled k (hconnected k hk)).ne) (Nat.zero_le j)
      (by rw [Nat.zero_add]; exact (hconnected j (Nat.le_refl j)).lt) hcalls.has
  rcases hsupplied with hall | ⟨items, rfl⟩
  · rcases hall i hi.lt with ⟨items, hread⟩ | ⟨hone, hnull⟩
    · exact ⟨_, _, hpaired, by rw [read_paired, hread]; rfl⟩
    · have hzero : i = 0 := by have := hi.lt; omega
      subst hzero
      have hnot := (hchecks 0 fun k hk => Nat.le_zero.mp hk ▸ hi).2
      rw [read_paired, hnull] at hnot
      cases hnot
  · rcases hfirst item rest node _ hstack hnode hmain rfl with hone | hthree
    · have hzero : i = 0 := by have := hi.lt; omega
      subst hzero
      exact ⟨_, _, hpaired, by rw [read_paired]; rfl⟩
    · have hlength := (hchecks 2 fun k hk => hthree k (Nat.lt_succ_of_le hk)).1
      rw [length_pairedInputs] at hlength
      exact absurd hlength (by simp)

end Waiting

section Example

/-- An execution that does not use the execution order `v1`. -/
def legacyEngine : Engine Nat :=
  { branchesEngine with workflow := { twoBranches with executionOrder := none } }

/-- The item of the node with two inputs, after data arrived at both of them. -/
def joinedItem : IExecuteData Nat where
  node := some { name := "Merge" }
  data := ofMain [.data [1], .data [1]]
  source := some (ofMain [.data { previousNode := "Trigger" }, .data { previousNode := "Lookup" }])

/-- The node with two inputs has data at both of them after the trigger and the other branch ran. -/
theorem merge_waits_for_both : ∃ s,
    executionLoop legacyEngine branchesStart ((branchesTicks (.data [.data [1]])).take 2) =
      .ok (.unfinished s) ∧
    s.data.nodeExecutionStack = [joinedItem] ∧ WaitsForAllInputs legacyEngine s := by
  obtain ⟨s, hrun, hstack, -⟩ := stackOf_eq_some
    (show stackOf (executionLoop legacyEngine branchesStart
        ((branchesTicks (.data [.data [1]])).take 2)) =
      some ([joinedItem], "", ["Merge:0"]) by decide +kernel)
  refine ⟨s, hrun, hstack, waits_for_all_inputs (by decide) (initial_kept _ _ _ _) hrun ?_⟩
  intro item rest node main hfirst _ hmain hone
  rw [hstack] at hfirst
  cases hfirst
  cases hmain
  cases hone

/-- A trigger with two outputs: the first one leads to the first input of a node, the second one to
both inputs of another node, which leads to the second input of the first one. -/
def halfJoined : Workflow :=
  .create [{ name := "Trigger" }, { name := "Join" }, { name := "Left" }]
    ((InsertionMap.set .empty "Trigger" (ofMain [some [⟨"Join", .main, 0⟩],
        some [⟨"Left", .main, 0⟩, ⟨"Left", .main, 1⟩]])).set "Left"
      (ofMain [some [⟨"Join", .main, 1⟩]])) none

/-- An execution of the workflow. -/
def halfEngine : Engine Nat := { branchesEngine with workflow := halfJoined }

/-- The second output of the trigger stays without data, so that the node with two inputs is forced
to run, and `runNode` is called for it without data for its second input. -/
theorem runs_without_second_input : ∃ s,
    executionLoop halfEngine branchesStart [idleTick] = .ok (.unfinished s) ∧
      ¬ WaitsForAllInputs halfEngine s := by
  obtain ⟨s, hrun, hstack, hlast, htries⟩ := stackOf_eq_some
    (show stackOf (executionLoop halfEngine branchesStart [idleTick]) =
      some ([idleItem "Left"], "", ["Left:0"]) by decide +kernel)
  have hcalls : CallsRunNode halfEngine s { name := "Left" } (ofMain [.data [0]]) := by
    refine ⟨⟨idleItem "Left", [], hstack, rfl, rfl⟩, ?_, rfl, by decide +kernel⟩
    have htry : executionTry s { name := "Left" } = "Left:0" := by
      rw [hstack] at htries
      exact List.head_eq_of_cons_eq htries
    rw [htry, hlast]
    decide
  refine ⟨s, hrun, fun hwaits => ?_⟩
  have henabled : ∀ i, Connected halfJoined "Left" i → EnabledAbove halfJoined "Left" i := by
    intro i hi
    have hlt : i < 2 := hi.lt
    have hfound : highestNodes halfJoined "Left" i = .ok ["Trigger"] := by
      have hcases : i = 0 ∨ i = 1 := by omega
      rcases hcases with rfl | rfl <;> decide +kernel
    exact ⟨_, hfound, by decide⟩
  have hsecond : Connected halfJoined "Left" 1 := by
    rw [Connected]
    decide +kernel
  obtain ⟨main, items, hmain, hread⟩ := hwaits _ _ hcalls henabled 1 hsecond
  cases hmain
  cases hread

end Example

end N8n.Execution
