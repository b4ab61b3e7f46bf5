import Mathlib.Data.List.Nodup
import N8n.Transition.Runs

/-!
# Execution indexes

Each node that an execution runs takes the next execution index from the additional data of its
process, and its entry of the run data carries it. The run data outlive the process: a partial
execution, a resume after a wait and a retry go on with the entries of earlier ones. See
`getNextExecutionIndex` of
`packages/core/src/execution-engine/partial-execution-utils/run-data-utils.ts`, `run`,
`runPartialWorkflow`, `runPartialWorkflow2` and `processRunExecutionData` of
`packages/core/src/execution-engine/workflow-execute.ts`, `addExecutionDataFunctions` of
`packages/core/src/execution-engine/node-execution-context/supply-data-context.ts`, `getBase` of
`packages/cli/src/workflow-execute-additional-data.ts`, `runMainProcess` of
`packages/cli/src/workflow-runner.ts` and `retry` of
`packages/cli/src/executions/execution.service.ts`.
-/

namespace N8n.Execution.Indexes

open Transition

/-- `ITaskData` of a node. A sub-node stores its entry while a node of the loop is executed, whose
index is `usedBy`. -/
structure ITaskData where
  nodeName : String
  executionIndex : Option Nat
  error : Bool
  usedBy : Option Nat
  deriving DecidableEq

/-- `IRunData` as one list: the entries of all nodes in the order in which they were stored. -/
abbrev IRunData := List ITaskData

/-- The execution indexes in the run data. -/
def indexes (runData : IRunData) : List Nat := runData.filterMap ITaskData.executionIndex

/-- `getNextExecutionIndex(runData)`. -/
def getNextExecutionIndex (runData : IRunData) : Nat :=
  match (indexes runData).max? with
  | none => 0
  | some highest => highest + 1

/-- `runData[nodeName].pop()`. -/
def pop (nodeName : String) (runData : IRunData) : IRunData :=
  (runData.reverse.eraseP fun taskData => taskData.nodeName = nodeName).reverse

/-- `runData[nodeName][length - 1].error !== undefined`. -/
def lastFailed (nodeName : String) (runData : IRunData) : Bool :=
  (runData.reverse.find? fun taskData => taskData.nodeName = nodeName).any ITaskData.error

/-- How a process starts. `runPartialWorkflow` goes on with the run data that `cleanRunData`
keeps; the short cut of `runPartialWorkflow2` keeps none. `runFromTrigger` is the branch of
`runManually` with the data of a trigger, which come from an earlier execution. -/
inductive Start where
  | run
  | runPartialWorkflow (keep : ITaskData → Bool)
  | runFromTrigger (keep : ITaskData → Bool)
  | resume (lastNodeExecuted : String)
  | retry (lastNodeExecuted : Option String)

/-- The run data that a process starts with. -/
def Start.runData (runData : IRunData) : Start → IRunData
  | .run => []
  | .runPartialWorkflow keep | .runFromTrigger keep => runData.filter keep
  | .resume lastNodeExecuted => pop lastNodeExecuted runData
  | .retry none => runData
  | .retry (some lastNodeExecuted) =>
    if lastFailed lastNodeExecuted runData then pop lastNodeExecuted runData else runData

/-- `additionalData.currentNodeExecutionIndex` at the start: `getBase` sets it to 0, and only the
partial executions set it again. -/
def Start.currentNodeExecutionIndex (runData : IRunData) : Start → Nat
  | .runPartialWorkflow keep => getNextExecutionIndex (runData.filter keep)
  | _ => 0

/-- Where the process is: `executing` is the loop body after `taskStartedData` was made. -/
inductive Control where
  | stopped
  | starting
  | loop
  | executing (nodeName : String) (executionIndex : Nat)
  deriving DecidableEq

/-- The run data of an execution, and the process that works on it. -/
structure State where
  runData : IRunData
  currentNodeExecutionIndex : Nat
  control : Control
  deriving DecidableEq

/-- Before the first process. -/
def initial : State where
  runData := []
  currentNodeExecutionIndex := 0
  control := .stopped

/-- What happens to an execution. -/
inductive Event where
  | start (how : Start)
  | workflowExecuteBefore
  | workflowExecuteBeforeFailed (nodeName : String)
  | shift (nodeName : String)
  | skip
  | push (error stop : Bool)
  | addInputData (nodeName : String)
  | stop
  | recover (nodeNames : List String)

/-- `recoverFromLogs` of `packages/cli/src/executions/execution-recovery.service.ts` for one node
that the logs name: it gets an entry if it has none. -/
def recoverNode (runData : IRunData) (nodeName : String) : IRunData :=
  if runData.any fun taskData => taskData.nodeName = nodeName then runData
  else runData ++ [{ nodeName, executionIndex := some 0, error := false, usedBy := none }]

/-- `addExecutionDataFunctions('input', ...)` of a sub-node. -/
def State.storeInput (s : State) (nodeName : String) (usedBy : Option Nat) : State :=
  let executionIndex := some s.currentNodeExecutionIndex
  { s with
    runData := s.runData ++ [{ nodeName, executionIndex, error := false, usedBy }]
    currentNodeExecutionIndex := s.currentNodeExecutionIndex + 1 }

/-- The execution after an event. -/
def step (s : State) : Event → Option State
  | .start how =>
    if s.control = .stopped then
      some { runData := how.runData s.runData
             currentNodeExecutionIndex := how.currentNodeExecutionIndex s.runData
             control := .starting }
    else none
  | .workflowExecuteBefore =>
    if s.control = .starting then some { s with control := .loop } else none
  | .workflowExecuteBeforeFailed nodeName =>
    if s.control = .starting then
      -- the result data are replaced as a whole
      some { s with
        runData := [{ nodeName, executionIndex := some 0, error := true, usedBy := none }]
        control := .stopped }
    else none
  | .shift nodeName =>
    if s.control = .loop then
      some { s with
        currentNodeExecutionIndex := s.currentNodeExecutionIndex + 1
        control := .executing nodeName s.currentNodeExecutionIndex }
    else none
  | .skip =>
    match s.control with
    | .executing _ _ => some { s with control := .loop }
    | _ => none
  | .push error stop =>
    match s.control with
    | .executing nodeName executionIndex =>
      some { s with
        runData := s.runData ++
          [{ nodeName, executionIndex := some executionIndex, error, usedBy := none }]
        control := if stop then .stopped else .loop }
    | _ => none
  | .addInputData nodeName =>
    match s.control with
    | .executing _ executionIndex => some (s.storeInput nodeName (some executionIndex))
    | .loop => some (s.storeInput nodeName none)
    | _ => none
  | .stop => some { s with control := .stopped }
  | .recover nodeNames =>
    if s.control = .stopped then
      some { s with runData := nodeNames.foldl recoverNode s.runData }
    else none

/-- Is this a start that leaves the counter at 0 although it keeps run data? -/
def Start.keepsCounter : Start → Bool
  | .run | .runPartialWorkflow _ => false
  | .runFromTrigger _ | .resume _ | .retry _ => true

/-- What the order of the indexes relies on: a process that goes on with run data without setting
the counter finds no index in them, and a recovery leaves no more than one index. -/
def allowed (s : State) : Event → Prop
  | .start how => how.keepsCounter = true → indexes (how.runData s.runData) = []
  | .recover nodeNames => (indexes (nodeNames.foldl recoverNode s.runData)).length ≤ 1
  | _ => True

instance (s : State) : (e : Event) → Decidable (allowed s e)
  | .start how => inferInstanceAs (Decidable (how.keepsCounter = true → _ = []))
  | .recover _ => inferInstanceAs (Decidable (_ ≤ 1))
  | .workflowExecuteBefore | .workflowExecuteBeforeFailed _ | .shift _ | .skip | .push _ _
  | .addInputData _ | .stop => inferInstanceAs (Decidable True)

/-! ## The order of the entries -/

/-- The index of an entry is below that of one stored later, unless the later one is that of the
node which used the sub-node of this entry. -/
def Precedes (earlier later : ITaskData) : Prop :=
  ∀ i ∈ earlier.executionIndex, ∀ j ∈ later.executionIndex, i < j ∨ earlier.usedBy = some j

/-- All entries have different indexes, in the order in which they were stored. -/
structure Ordered (runData : IRunData) : Prop where
  distinct : (indexes runData).Nodup
  ordered : runData.Pairwise Precedes

variable {runData : IRunData}

theorem mem_indexes {i : Nat} :
    i ∈ indexes runData ↔ ∃ taskData ∈ runData, taskData.executionIndex = some i := by
  simp [indexes, List.mem_filterMap]

theorem Ordered.sublist {kept : IRunData} (h : Ordered runData) (hkept : kept.Sublist runData) :
    Ordered kept :=
  ⟨h.distinct.sublist (hkept.filterMap _), h.ordered.sublist hkept⟩

theorem ordered_of_length (h : (indexes runData).length ≤ 1) : Ordered runData := by
  induction runData with
  | nil => exact ⟨List.nodup_nil, List.Pairwise.nil⟩
  | cons taskData rest ih =>
    cases hindex : taskData.executionIndex with
    | none =>
      have hrest : indexes (taskData :: rest) = indexes rest := by simp [indexes, hindex]
      rw [hrest] at h
      refine ⟨by rw [hrest]; exact (ih h).distinct, List.pairwise_cons.mpr ⟨?_, (ih h).ordered⟩⟩
      intro later _ i hi
      rw [hindex] at hi
      cases hi
    | some i =>
      have hrest : indexes (taskData :: rest) = i :: indexes rest := by simp [indexes, hindex]
      have hnil : indexes rest = [] := by
        rw [hrest, List.length_cons] at h
        exact List.eq_nil_of_length_eq_zero (by omega)
      refine ⟨by rw [hrest, hnil]; exact List.nodup_singleton i,
        List.pairwise_cons.mpr ⟨?_, (ih (by simp [hnil])).ordered⟩⟩
      intro later hlater _ _ j hj
      have hmem := mem_indexes.mpr ⟨later, hlater, hj⟩
      rw [hnil] at hmem
      cases hmem

theorem Ordered.snoc {runData : IRunData} (h : Ordered runData) {taskData : ITaskData} {j : Nat}
    (hindex : taskData.executionIndex = some j)
    (hlast : ∀ earlier ∈ runData, ∀ i, earlier.executionIndex = some i →
      i < j ∨ i ≠ j ∧ earlier.usedBy = some j) : Ordered (runData ++ [taskData]) := by
  constructor
  · have hindexes : indexes (runData ++ [taskData]) = indexes runData ++ [j] := by
      simp [indexes, hindex]
    rw [hindexes, List.nodup_append]
    refine ⟨h.distinct, List.nodup_singleton j, ?_⟩
    intro i hi j' hj'
    obtain ⟨earlier, hearlier, hi⟩ := mem_indexes.mp hi
    rw [List.mem_singleton.mp hj']
    rcases hlast earlier hearlier i hi with hlt | ⟨hne, -⟩
    · omega
    · exact hne
  · refine List.pairwise_append.mpr ⟨h.ordered, List.pairwise_singleton _ _, ?_⟩
    intro earlier hearlier later hlater i hi j' hj'
    rw [List.mem_singleton.mp hlater, hindex] at hj'
    cases hj'
    exact (hlast earlier hearlier i hi).imp_right And.right

theorem lt_getNextExecutionIndex {i : Nat} (h : i ∈ indexes runData) :
    i < getNextExecutionIndex runData := by
  unfold getNextExecutionIndex
  cases hmax : (indexes runData).max? with
  | none =>
    rw [List.max?_eq_none_iff.mp hmax] at h
    cases h
  | some highest =>
    have hle := (List.max?_eq_some_iff.mp hmax).2 i h
    show i < highest + 1
    omega

theorem Start.runData_sublist (how : Start) (runData : IRunData) :
    (how.runData runData).Sublist runData := by
  have hpop : ∀ nodeName, (pop nodeName runData).Sublist runData := fun nodeName => by
    rw [pop, ← List.reverse_sublist, List.reverse_reverse]
    exact List.eraseP_sublist
  cases how with
  | run => exact List.nil_sublist _
  | runPartialWorkflow keep => exact List.filter_sublist
  | runFromTrigger keep => exact List.filter_sublist
  | resume lastNodeExecuted => exact hpop lastNodeExecuted
  | retry lastNodeExecuted =>
    cases lastNodeExecuted with
    | none => exact List.Sublist.refl _
    | some lastNodeExecuted =>
      rw [Start.runData]
      split
      · exact hpop lastNodeExecuted
      · exact List.Sublist.refl _

/-- What holds of the process: the counter is above all indexes, and the node that is being
executed has an index between those of the entries before it and those of its sub-nodes. -/
def Control.Counts (runData : IRunData) (counter : Nat) : Control → Prop
  | .stopped => True
  | .starting | .loop => ∀ i ∈ indexes runData, i < counter
  | .executing _ executionIndex =>
    (∀ i ∈ indexes runData, i < counter) ∧ executionIndex < counter ∧
      ∀ earlier ∈ runData, ∀ i, earlier.executionIndex = some i →
        i < executionIndex ∨ i ≠ executionIndex ∧ earlier.usedBy = some executionIndex

/-- The invariant of an execution. -/
structure Inv (s : State) : Prop where
  ordered : Ordered s.runData
  counts : s.control.Counts s.runData s.currentNodeExecutionIndex

theorem Control.Counts.lt {counter : Nat} {control : Control} (h : control.Counts runData counter)
    (hcontrol : control ≠ .stopped) : ∀ i ∈ indexes runData, i < counter := by
  cases control with
  | stopped => exact absurd rfl hcontrol
  | starting => exact h
  | loop => exact h
  | executing nodeName executionIndex => exact h.1

theorem Inv.start {s : State} (h : Inv s) (how : Start)
    (hallowed : how.keepsCounter = true → indexes (how.runData s.runData) = []) :
    Inv { runData := how.runData s.runData
          currentNodeExecutionIndex := how.currentNodeExecutionIndex s.runData
          control := .starting } := by
  refine ⟨h.ordered.sublist (how.runData_sublist s.runData), fun i hi => ?_⟩
  cases how with
  | run => cases hi
  | runPartialWorkflow keep => exact lt_getNextExecutionIndex hi
  | runFromTrigger keep => rw [hallowed rfl] at hi; cases hi
  | resume lastNodeExecuted => rw [hallowed rfl] at hi; cases hi
  | retry lastNodeExecuted => rw [hallowed rfl] at hi; cases hi

theorem mem_indexes_snoc {taskData : ITaskData} {i j : Nat}
    (hindex : taskData.executionIndex = some j) :
    i ∈ indexes (runData ++ [taskData]) ↔ i ∈ indexes runData ∨ i = j := by
  simp [indexes, hindex]

theorem Inv.addInputData {s : State} (h : Inv s) (nodeName : String) {usedBy : Option Nat}
    (hcontrol : s.control = .loop ∧ usedBy = none ∨
      ∃ name executionIndex, s.control = .executing name executionIndex ∧
        usedBy = some executionIndex) : Inv (s.storeInput nodeName usedBy) := by
  have hlt := h.counts.lt (by rintro hstopped; rcases hcontrol with ⟨hc, -⟩ | ⟨_, _, hc, -⟩ <;>
    rw [hstopped] at hc <;> cases hc)
  have hlast : ∀ earlier ∈ s.runData, ∀ i, earlier.executionIndex = some i →
      i < s.currentNodeExecutionIndex :=
    fun earlier hearlier i hi => hlt i (mem_indexes.mpr ⟨earlier, hearlier, hi⟩)
  have hbelow : ∀ i ∈ indexes (s.storeInput nodeName usedBy).runData,
      i < s.currentNodeExecutionIndex + 1 := by
    intro i hi
    rcases (mem_indexes_snoc rfl).mp hi with hi | rfl
    · exact Nat.lt_succ_of_lt (hlt i hi)
    · exact Nat.lt_succ_self _
  refine ⟨h.ordered.snoc rfl fun earlier hearlier i hi => .inl (hlast earlier hearlier i hi), ?_⟩
  rcases hcontrol with ⟨hloop, rfl⟩ | ⟨name, executionIndex, hexecuting, rfl⟩
  · show Control.Counts _ _ s.control
    rw [hloop]
    exact hbelow
  · have hcounts := h.counts
    show Control.Counts _ _ s.control
    rw [hexecuting] at hcounts ⊢
    refine ⟨hbelow, Nat.lt_succ_of_lt hcounts.2.1, fun earlier hearlier i hi => ?_⟩
    rcases List.mem_append.mp hearlier with hearlier | hnew
    · exact hcounts.2.2 earlier hearlier i hi
    · rw [List.mem_singleton.mp hnew] at hi ⊢
      cases hi
      exact .inr ⟨Nat.ne_of_gt hcounts.2.1, rfl⟩

theorem Inv.step {s s' : State} {e : Event} (h : Inv s) (hallowed : allowed s e)
    (hstep : step s e = some s') : Inv s' := by
  cases e with
  | start how =>
    simp only [Indexes.step, Option.ite_none_right_eq_some, Option.some.injEq] at hstep
    obtain ⟨-, rfl⟩ := hstep
    exact h.start how hallowed
  | workflowExecuteBefore =>
    simp only [Indexes.step, Option.ite_none_right_eq_some, Option.some.injEq] at hstep
    obtain ⟨hstarting, rfl⟩ := hstep
    exact ⟨h.ordered, h.counts.lt (by simp [hstarting])⟩
  | workflowExecuteBeforeFailed nodeName =>
    simp only [Indexes.step, Option.ite_none_right_eq_some, Option.some.injEq] at hstep
    obtain ⟨-, rfl⟩ := hstep
    exact ⟨ordered_of_length (Nat.le_refl 1), trivial⟩
  | shift nodeName =>
    simp only [Indexes.step, Option.ite_none_right_eq_some, Option.some.injEq] at hstep
    obtain ⟨hloop, rfl⟩ := hstep
    have hlt := h.counts.lt (by simp [hloop])
    exact ⟨h.ordered, fun i hi => Nat.lt_succ_of_lt (hlt i hi), Nat.lt_succ_self _,
      fun earlier hearlier i hi => .inl (hlt i (mem_indexes.mpr ⟨earlier, hearlier, hi⟩))⟩
  | skip =>
    simp only [Indexes.step] at hstep
    split at hstep
    · next hexecuting =>
        cases hstep
        exact ⟨h.ordered, h.counts.lt (by simp [hexecuting])⟩
    · cases hstep
  | push error stop =>
    simp only [Indexes.step] at hstep
    split at hstep
    · next nodeName executionIndex hexecuting =>
        cases hstep
        have hcounts := h.counts
        rw [hexecuting] at hcounts
        refine ⟨h.ordered.snoc rfl hcounts.2.2, ?_⟩
        cases stop with
        | true => exact trivial
        | false =>
          intro i hi
          rcases (mem_indexes_snoc rfl).mp hi with hi | rfl
          · exact hcounts.1 i hi
          · exact hcounts.2.1
    · cases hstep
  | addInputData nodeName =>
    simp only [Indexes.step] at hstep
    split at hstep
    · next name executionIndex hexecuting =>
        cases hstep
        exact h.addInputData nodeName (.inr ⟨name, executionIndex, hexecuting, rfl⟩)
    · next hloop =>
        cases hstep
        exact h.addInputData nodeName (.inl ⟨hloop, rfl⟩)
    · cases hstep
  | stop =>
    cases hstep
    exact ⟨h.ordered, trivial⟩
  | recover nodeNames =>
    simp only [Indexes.step, Option.ite_none_right_eq_some, Option.some.injEq] at hstep
    obtain ⟨hstopped, rfl⟩ := hstep
    refine ⟨ordered_of_length hallowed, ?_⟩
    show Control.Counts _ _ s.control
    rw [hstopped]
    exact trivial

theorem Ordered.increasing (h : Ordered runData)
    (hloop : ∀ taskData ∈ runData, taskData.usedBy = none) :
    (indexes runData).Pairwise (· < ·) := by
  refine List.pairwise_filterMap.mpr (h.ordered.imp_of_mem fun hearlier _ hprecedes i hi j hj => ?_)
  rcases hprecedes i hi j hj with hlt | hused
  · exact hlt
  · rw [hloop _ hearlier] at hused
    cases hused

/-- A process that goes on with an index without setting the counter gives its first node an index
that is not above it. -/
theorem not_increasing_of_restart {s s' : State} {how : Start} (hkeeps : how.keepsCounter = true)
    {i : Nat} (hi : i ∈ indexes (how.runData s.runData)) {nodeName : String} {error stop : Bool}
    (hrun : run step s [.start how, .workflowExecuteBefore, .shift nodeName, .push error stop] =
      some s') : ¬ (indexes s'.runData).Pairwise (· < ·) := by
  have hcounter : how.currentNodeExecutionIndex s.runData = 0 := by
    cases how with
    | run => cases hkeeps
    | runPartialWorkflow keep => cases hkeeps
    | _ => rfl
  by_cases hstopped : s.control = .stopped
  · have hstored : s'.runData = how.runData s.runData ++
        [{ nodeName, executionIndex := some 0, error, usedBy := none }] := by
      simp [run, runAllowed, step, hstopped, hcounter] at hrun
      rw [← hrun]
    have hindexes : indexes s'.runData = indexes (how.runData s.runData) ++ [0] := by
      simp [hstored, indexes]
    intro hpairwise
    rw [hindexes] at hpairwise
    exact Nat.not_lt_zero i
      ((List.pairwise_append.mp hpairwise).2.2 i hi 0 (List.mem_singleton_self 0))
  · simp [run, runAllowed, step, hstopped] at hrun

end N8n.Execution.Indexes
