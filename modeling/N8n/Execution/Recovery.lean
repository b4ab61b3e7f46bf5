import Mathlib.Data.List.Induction
import Mathlib.Data.List.Perm.Basic
import N8n.PartialExecution.DirectedGraph

/-!
# Recovery of executions

What `ExecutionRecoveryService` makes of a truncated execution and the messages of the event log
about it (`packages/cli/src/executions/execution-recovery.service.ts`). Times are in milliseconds.
The runs of nodes that the execution was stored with are of any type, and so is its error.
-/

namespace N8n.Recovery

open Collections
open PartialExecution.DirectedGraph (prototypeKeys)

inductive ExecutionStatus where
  | canceled
  | crashed
  | error
  | new
  | running
  | success
  | unknown
  | waiting
  deriving DecidableEq

/-- A message of the event log, with the node name of its payload. -/
structure EventMessage where
  eventName : String
  ts : Int
  nodeName : Option String := none

/-- The `NodeCrashedError` of a node. -/
structure NodeCrashedError where
  node : String

/-- The recovered run of a node. Its output, if it has one, is `ARTIFICIAL_TASK_DATA`. -/
structure ITaskData where
  startTime : Int
  executionIndex : Nat := 0
  executionTime : Int := -1
  source : List (Option String) := [none]
  executionStatus : ExecutionStatus
  isArtificial : Bool := false
  error : Option NodeCrashedError := none

/-- The runs of a node, as they were stored or recovered. -/
inductive NodeRuns (ρ : Type) where
  | stored (runs : ρ)
  | recovered (runs : List ITaskData)

/-- The error of an execution, as it was stored or a `WorkflowCrashedError`. -/
inductive ExecutionError (ε : Type) where
  | stored (error : ε)
  | workflowCrashed

/-- The `resultData` of an execution. -/
structure IRunExecutionData (ρ ε : Type) where
  runData : InsertionMap String (NodeRuns ρ) := .empty
  lastNodeExecuted : Option String := none
  error : Option (ExecutionError ε) := none

/-- A stored execution, with the names of the nodes of its workflow. -/
structure IExecutionResponse (ρ ε : Type) where
  status : ExecutionStatus
  stoppedAt : Option Int
  nodes : List String
  data : Option (IRunExecutionData ρ ε)

variable {ρ ε : Type}

section Amend

/-- The messages about nodes and those about the workflow. -/
def toRelevantMessages (messages : List EventMessage) : List EventMessage × List EventMessage :=
  let isNode (m : EventMessage) : Bool := "n8n.node.".toList.isPrefixOf m.eventName.toList
  let isWorkflow (m : EventMessage) : Bool := "n8n.workflow.".toList.isPrefixOf m.eventName.toList
  (messages.filter isNode, messages.filter fun m => !isNode m && isWorkflow m)

/-- The first message about a node with the name of an event. -/
def findMessage (nodeMessages : List EventMessage) (eventName nodeName : String) :
    Option EventMessage :=
  nodeMessages.find? fun m => m.nodeName = some nodeName && m.eventName = eventName

/-- `runData[name] !== undefined`. Every object has the properties of its prototype. -/
def hasRunData (data : IRunExecutionData ρ ε) (name : String) : Bool :=
  data.runData.has name || name ∈ prototypeKeys

/-- One round of the loop over the nodes: the data and `lastNodeRunTimestamp`. -/
def recoverNode (nodeMessages : List EventMessage)
    (s : IRunExecutionData ρ ε × Option Int) (name : String) :
    IRunExecutionData ρ ε × Option Int :=
  match findMessage nodeMessages "n8n.node.started" name with
  | none => s
  | some nodeStartedMessage =>
    let startTime := nodeStartedMessage.ts / 1000
    if hasRunData s.1 name then s
    else match findMessage nodeMessages "n8n.node.finished" name with
      | some nodeFinishedMessage =>
        let taskData : ITaskData :=
          { startTime
            executionTime := nodeFinishedMessage.ts - nodeStartedMessage.ts
            executionStatus := .success
            isArtificial := true }
        ({ s.1 with
            lastNodeExecuted := some name
            runData := s.1.runData.set name (.recovered [taskData]) },
          some nodeFinishedMessage.ts)
      | none =>
        let taskData : ITaskData :=
          { startTime
            executionTime := 0
            executionStatus := .crashed
            error := some ⟨name⟩ }
        ({ lastNodeExecuted := some name
           runData := s.1.runData.set name (.recovered [taskData])
           error := some .workflowCrashed },
          some nodeStartedMessage.ts)

/-- The loop over the nodes of the workflow. -/
def recoverNodes (nodeMessages : List EventMessage) (execution : IExecutionResponse ρ ε) :
    IRunExecutionData ρ ε × Option Int :=
  execution.nodes.foldl (recoverNode nodeMessages) (execution.data.getD { }, none)

/-- The time of the first message about the end of the workflow, or else about its start. -/
def workflowTime (messages : List EventMessage) : Option Int :=
  let isEnd (m : EventMessage) : Bool :=
    m.eventName ∈ ["n8n.workflow.success", "n8n.workflow.crashed", "n8n.workflow.failed"]
  ((messages.find? isEnd).or
    (messages.find? fun m => m.eventName = "n8n.workflow.started")).map EventMessage.ts

/-- `toStoppedAt(timestamp, messages)`. -/
def toStoppedAt (timestamp : Option Int) (messages : List EventMessage) : Option Int :=
  timestamp.or (workflowTime messages)

/-- The execution ended and has its data. -/
def isFinished (execution : IExecutionResponse ρ ε) : Bool :=
  execution.status ∈ [.success, .error] && execution.data.isSome

/-- `amendWithoutLogs(executionId)`, at the given time. -/
def amendWithoutLogs (now : Int) (execution : Option (IExecutionResponse ρ ε)) :
    Option (IExecutionResponse ρ ε) :=
  execution.map fun execution => { execution with status := .crashed, stoppedAt := some now }

/-- `amend(executionId, messages)`, at the given time and for the execution that is stored. -/
def amend (now : Int) (execution : Option (IExecutionResponse ρ ε))
    (messages : List EventMessage) : Option (IExecutionResponse ρ ε) :=
  if messages = [] then amendWithoutLogs now execution
  else
    let (nodeMessages, workflowMessages) := toRelevantMessages messages
    if nodeMessages = [] then none
    else match execution with
      | none => none
      | some execution =>
        if isFinished execution then none
        else
          let (data, lastNodeRunTimestamp) := recoverNodes nodeMessages execution
          some
            { execution with
              status := if execution.status = .error then .error else .crashed
              stoppedAt := toStoppedAt lastNodeRunTimestamp workflowMessages
              data := some data }

end Amend

section Loop

variable {nodeMessages : List EventMessage} {s : IRunExecutionData ρ ε × Option Int}
  {name : String} {nodes : List String}

/-- The time that the log gives a recovered node: that of its first message about an end, or else
about a start. -/
def recoveredAt (nodeMessages : List EventMessage) (name : String) : Option Int :=
  ((findMessage nodeMessages "n8n.node.finished" name).or
    (findMessage nodeMessages "n8n.node.started" name)).map EventMessage.ts

/-- The log knows the start of the node, and nothing is stored about it. -/
def Recoverable (nodeMessages : List EventMessage) (data : IRunExecutionData ρ ε)
    (name : String) : Prop :=
  (findMessage nodeMessages "n8n.node.started" name).isSome ∧ hasRunData data name = false

theorem recoverNode_skips (hskip : ¬ Recoverable nodeMessages s.1 name) :
    recoverNode nodeMessages s name = s := by
  rw [recoverNode]
  split
  · rfl
  · rename_i hstarted
    have hdata : hasRunData s.1 name = true := by simpa [Recoverable, hstarted] using hskip
    rw [if_pos hdata]

theorem recoverNode_recovers (hrecoverable : Recoverable nodeMessages s.1 name) :
    (∃ runs, (recoverNode nodeMessages s name).1.runData =
      s.1.runData.set name (.recovered runs)) ∧
    (recoverNode nodeMessages s name).1.lastNodeExecuted = some name ∧
    (recoverNode nodeMessages s name).2 = recoveredAt nodeMessages name := by
  obtain ⟨hstarted, hdata⟩ := hrecoverable
  obtain ⟨started, hstarted⟩ := Option.isSome_iff_exists.mp hstarted
  simp only [recoverNode, recoveredAt, hstarted, hdata]
  cases findMessage nodeMessages "n8n.node.finished" name with
  | none => exact ⟨⟨_, rfl⟩, rfl, rfl⟩
  | some finished => exact ⟨⟨_, rfl⟩, rfl, rfl⟩

theorem get_recoverNode (other : String) (hkeep : other ≠ name ∨ hasRunData s.1 name = true) :
    (recoverNode nodeMessages s name).1.runData.get? other = s.1.runData.get? other := by
  by_cases hrecoverable : Recoverable nodeMessages s.1 name
  · obtain ⟨⟨runs, hruns⟩, -⟩ := recoverNode_recovers hrecoverable
    have hne : other ≠ name := hkeep.resolve_right (by simp [hrecoverable.2])
    rw [hruns, InsertionMap.get_set_other _ _ hne]
  · rw [recoverNode_skips hrecoverable]

theorem hasRunData_recoverNode (other : String) :
    hasRunData (recoverNode nodeMessages s name).1 other = true ↔
      hasRunData s.1 other = true ∨
        other = name ∧ (findMessage nodeMessages "n8n.node.started" name).isSome := by
  by_cases hrecoverable : Recoverable nodeMessages s.1 name
  · obtain ⟨⟨runs, hruns⟩, -⟩ := recoverNode_recovers hrecoverable
    by_cases hother : other = name
    · subst hother
      simp [hasRunData, hruns, InsertionMap.has, hrecoverable.1]
    · simp [hasRunData, hruns, InsertionMap.has, InsertionMap.get_set_other _ _ hother, hother]
  · rw [recoverNode_skips hrecoverable]
    refine ⟨Or.inl, fun hor => hor.elim id ?_⟩
    rintro ⟨rfl, hstarted⟩
    simpa [Recoverable, hstarted] using hrecoverable

theorem hasRunData_recoverNodes (other : String) :
    hasRunData (nodes.foldl (recoverNode nodeMessages) s).1 other = true ↔
      hasRunData s.1 other = true ∨
        other ∈ nodes ∧ (findMessage nodeMessages "n8n.node.started" other).isSome := by
  induction nodes generalizing s with
  | nil => simp
  | cons name rest ih =>
    rw [List.foldl_cons, ih, hasRunData_recoverNode, List.mem_cons]
    constructor
    · rintro ((hdata | ⟨rfl, hstarted⟩) | ⟨hrest, hstarted⟩)
      · exact .inl hdata
      · exact .inr ⟨.inl rfl, hstarted⟩
      · exact .inr ⟨.inr hrest, hstarted⟩
    · rintro (hdata | ⟨rfl | hrest, hstarted⟩)
      · exact .inl (.inl hdata)
      · exact .inl (.inr ⟨rfl, hstarted⟩)
      · exact .inr ⟨hrest, hstarted⟩

theorem get_recoverNodes (hdata : hasRunData s.1 name = true) :
    (nodes.foldl (recoverNode nodeMessages) s).1.runData.get? name = s.1.runData.get? name := by
  induction nodes generalizing s with
  | nil => rfl
  | cons node rest ih =>
    rw [List.foldl_cons, ih (hasRunData_recoverNode name |>.mpr (.inl hdata))]
    refine get_recoverNode name ?_
    by_cases hnode : name = node
    · exact .inr (hnode ▸ hdata)
    · exact .inl hnode

theorem recoverNodes_skip (hskip : ∀ node ∈ nodes, ¬ Recoverable nodeMessages s.1 node) :
    nodes.foldl (recoverNode nodeMessages) s = s := by
  induction nodes with
  | nil => rfl
  | cons node rest ih =>
    rw [List.foldl_cons, recoverNode_skips (hskip node (by simp))]
    exact ih fun other hother => hskip other (by simp [hother])

/-- The last node that the loop recovers: those after it that could be recovered are before it,
too, or are itself. -/
def LastRecovered (nodeMessages : List EventMessage) (data : IRunExecutionData ρ ε)
    (nodes : List String) (name : String) : Prop :=
  ∃ before after, nodes = before ++ name :: after ∧ Recoverable nodeMessages data name ∧
    name ∉ before ∧ ∀ other ∈ after, Recoverable nodeMessages data other → other ∈ name :: before

variable {data : IRunExecutionData ρ ε}

theorem LastRecovered.recoverable (hlast : LastRecovered nodeMessages data nodes name) :
    Recoverable nodeMessages data name := by
  obtain ⟨before, after, -, hrecoverable, -⟩ := hlast
  exact hrecoverable

theorem LastRecovered.mem {data : IRunExecutionData ρ ε}
    (hlast : LastRecovered nodeMessages data nodes name) : name ∈ nodes := by
  obtain ⟨before, after, rfl, -⟩ := hlast
  simp

theorem recoveredAt_isSome (hstarted : (findMessage nodeMessages "n8n.node.started" name).isSome) :
    (recoveredAt nodeMessages name).isSome := by
  simp [recoveredAt, hstarted]

theorem recoverNodes_last (hlast : LastRecovered nodeMessages s.1 nodes name) :
    (nodes.foldl (recoverNode nodeMessages) s).1.lastNodeExecuted = some name ∧
    (nodes.foldl (recoverNode nodeMessages) s).2 = recoveredAt nodeMessages name := by
  obtain ⟨before, after, rfl, ⟨hstarted, hdata⟩, hbefore, hafter⟩ := hlast
  rw [List.foldl_append, List.foldl_cons]
  generalize hmiddle : before.foldl (recoverNode nodeMessages) s = middle
  have hrecoverable : Recoverable nodeMessages middle.1 name := by
    refine ⟨hstarted, Bool.eq_false_iff.mpr fun hhas => ?_⟩
    rw [← hmiddle, hasRunData_recoverNodes] at hhas
    simp [hdata, hbefore] at hhas
  obtain ⟨-, hname, htime⟩ := recoverNode_recovers hrecoverable
  rw [recoverNodes_skip]
  · exact ⟨hname, htime⟩
  · rintro other hother ⟨hotherStarted, hotherData⟩
    have hnot := mt (hasRunData_recoverNode other).mpr (Bool.eq_false_iff.mp hotherData)
    rw [← hmiddle, hasRunData_recoverNodes] at hnot
    have hfree : hasRunData s.1 other = false :=
      Bool.eq_false_iff.mpr fun hhas => hnot (.inl (.inl hhas))
    rcases List.mem_cons.mp (hafter other hother ⟨hotherStarted, hfree⟩) with rfl | hmem
    · exact hnot (.inr ⟨rfl, hotherStarted⟩)
    · exact hnot (.inl (.inr ⟨hmem, hotherStarted⟩))

theorem LastRecovered.unique {other : String} (hlast : LastRecovered nodeMessages data nodes name)
    (hother : LastRecovered nodeMessages data nodes other) : name = other := by
  have hname := (recoverNodes_last (s := (data, none)) hlast).1
  exact Option.some.inj (hname.symm.trans (recoverNodes_last (s := (data, none)) hother).1)

theorem exists_lastRecovered (hsome : ∃ node ∈ nodes, Recoverable nodeMessages data node) :
    ∃ name, LastRecovered nodeMessages data nodes name := by
  induction nodes using List.reverseRecOn with
  | nil => simp at hsome
  | append_singleton pre node ih =>
    by_cases hnode : Recoverable nodeMessages data node ∧ node ∉ pre
    · exact ⟨node, pre, [], rfl, hnode.1, hnode.2, by simp⟩
    · have hpre : ∃ node ∈ pre, Recoverable nodeMessages data node := by
        obtain ⟨other, hother, hrecoverable⟩ := hsome
        rcases List.mem_append.mp hother with hmem | hmem
        · exact ⟨other, hmem, hrecoverable⟩
        · obtain rfl := List.mem_singleton.mp hmem
          exact ⟨other, by_contra fun hnot => hnode ⟨hrecoverable, hnot⟩, hrecoverable⟩
      obtain ⟨name, before, after, rfl, hname, hbefore, hafter⟩ := ih hpre
      refine ⟨name, before, after ++ [node], by simp, hname, hbefore, fun other hother hrec => ?_⟩
      rcases List.mem_append.mp hother with hmem | hmem
      · exact hafter other hmem hrec
      · obtain rfl := List.mem_singleton.mp hmem
        have hmem : other ∈ before ++ name :: after := by_contra fun hnot => hnode ⟨hrec, hnot⟩
        rcases List.mem_append.mp hmem with hmem | hmem
        · exact List.mem_cons_of_mem name hmem
        · rcases List.mem_cons.mp hmem with rfl | hmem
          · exact List.mem_cons_self
          · exact hafter other hmem hrec

end Loop

section Latest

/-- The message is about the start or the end of a node. -/
def EventMessage.isAboutRun (m : EventMessage) : Prop :=
  m.eventName = "n8n.node.started" ∨ m.eventName = "n8n.node.finished"

/-- No message about the start or the end of a node is later than the message, which is one. -/
def IsLatest (messages : List EventMessage) (m : EventMessage) : Prop :=
  m ∈ messages ∧ m.isAboutRun ∧ ∀ other ∈ messages, other.isAboutRun → other.ts ≤ m.ts

/-- A recovered execution ends with the node of a latest message, at the time of the message, and
the nodes that had runs have the same ones. -/
structure RecoversState (messages : List EventMessage) (execution : IExecutionResponse ρ ε)
    (amended : IExecutionResponse ρ ε) : Prop where
  latest : (∃ m ∈ messages, m.isAboutRun) →
    ∃ m data, IsLatest messages m ∧ amended.data = some data ∧
      data.lastNodeExecuted = m.nodeName ∧ amended.stoppedAt = some m.ts
  untouched : ∀ data, execution.data = some data → ∀ name, hasRunData data name = true →
    ∃ amendedData, amended.data = some amendedData ∧
      amendedData.runData.get? name = data.runData.get? name

/-- The recovery of an execution gives its latest state, if it gives one. -/
def RecoversLatest (now : Int) (execution : IExecutionResponse ρ ε)
    (messages : List EventMessage) : Prop :=
  ∀ amended, amend now (some execution) messages = some amended →
    RecoversState messages execution amended

/-- The execution is recovered from messages about the runs of nodes. -/
def FromRuns (execution : IExecutionResponse ρ ε) (messages : List EventMessage) : Prop :=
  isFinished execution = false ∧ ∃ m ∈ messages, m.isAboutRun

/-- A latest message is about the node, and has the time that the log gives the node. -/
def EndsLatest (messages : List EventMessage) (name : String) : Prop :=
  ∃ m, IsLatest messages m ∧ m.nodeName = some name ∧
    recoveredAt (toRelevantMessages messages).1 name = some m.ts

/-- The latest message is about the node that was stored as the last one, and has the time that the
log gives the workflow. -/
def StoredLatest (messages : List EventMessage) (data : IRunExecutionData ρ ε) : Prop :=
  ∃ m, IsLatest messages m ∧ data.lastNodeExecuted = m.nodeName ∧
    workflowTime (toRelevantMessages messages).2 = some m.ts

/-- The last node of the workflow that can be recovered is the one of a latest message, or none can
be and what was stored agrees with a latest message. -/
def LastIsLatest (execution : IExecutionResponse ρ ε) (messages : List EventMessage) : Prop :=
  let data := execution.data.getD { }
  let nodeMessages := (toRelevantMessages messages).1
  (∃ name, LastRecovered nodeMessages data execution.nodes name ∧ EndsLatest messages name) ∨
    (∀ node ∈ execution.nodes, ¬ Recoverable nodeMessages data node) ∧ StoredLatest messages data

variable {messages : List EventMessage}

theorem mem_nodeMessages {m : EventMessage} (hm : m ∈ messages) (habout : m.isAboutRun) :
    m ∈ (toRelevantMessages messages).1 := by
  refine List.mem_filter.mpr ⟨hm, ?_⟩
  rcases habout with hname | hname <;> rw [hname] <;> decide

variable {execution : IExecutionResponse ρ ε}

theorem amend_succeeds (now : Int) (hfrom : FromRuns execution messages) :
    ∃ amended, amend now (some execution) messages = some amended := by
  obtain ⟨hfinished, m, hm, habout⟩ := hfrom
  have hmessages : messages ≠ [] := List.ne_nil_of_mem hm
  have hnodes : (toRelevantMessages messages).1 ≠ [] :=
    List.ne_nil_of_mem (mem_nodeMessages hm habout)
  simp [amend, hmessages, hnodes, hfinished]

variable {now : Int}

/-- A recovered execution has the data that was stored if there are no messages, and what the loop
ends with otherwise. -/
theorem amend_cases {amended : IExecutionResponse ρ ε}
    (hamend : amend now (some execution) messages = some amended) :
    messages = [] ∧ amended.data = execution.data ∨
      isFinished execution = false ∧
        amended.data = some (recoverNodes (toRelevantMessages messages).1 execution).1 ∧
        amended.stoppedAt = toStoppedAt (recoverNodes (toRelevantMessages messages).1 execution).2
          (toRelevantMessages messages).2 := by
  by_cases hmessages : messages = []
  · simp only [amend, if_pos hmessages, amendWithoutLogs, Option.map_some,
      Option.some.injEq] at hamend
    exact .inl ⟨hmessages, hamend ▸ rfl⟩
  · by_cases hnodes : (toRelevantMessages messages).1 = []
    · simp [amend, hmessages, hnodes] at hamend
    · by_cases hfinished : isFinished execution = true
      · simp [amend, hmessages, hnodes, hfinished] at hamend
      · simp only [amend, hmessages, hnodes, hfinished, if_false, Bool.false_eq_true,
          Option.some.injEq] at hamend
        exact .inr ⟨Bool.eq_false_iff.mpr hfinished, hamend ▸ rfl, hamend ▸ rfl⟩

theorem amend_untouched {amended : IExecutionResponse ρ ε}
    (hamend : amend now (some execution) messages = some amended) {data : IRunExecutionData ρ ε}
    (hdata : execution.data = some data) {name : String} (hruns : hasRunData data name = true) :
    ∃ amendedData, amended.data = some amendedData ∧
      amendedData.runData.get? name = data.runData.get? name := by
  rcases amend_cases hamend with ⟨-, hsame⟩ | ⟨-, hlooped, -⟩
  · exact ⟨data, hsame.trans hdata, rfl⟩
  · refine ⟨_, hlooped, ?_⟩
    simp only [recoverNodes, hdata, Option.getD_some]
    exact get_recoverNodes hruns

/-- The loop ends with a latest message exactly when its last node is the one of a latest message,
or there is none and what was stored agrees with a latest message. -/
theorem lastIsLatest_iff :
    (∃ m, IsLatest messages m ∧
      (recoverNodes (toRelevantMessages messages).1 execution).1.lastNodeExecuted = m.nodeName ∧
      toStoppedAt (recoverNodes (toRelevantMessages messages).1 execution).2
        (toRelevantMessages messages).2 = some m.ts) ↔ LastIsLatest execution messages := by
  have hended {name : String} (hlast : LastRecovered (toRelevantMessages messages).1
      (execution.data.getD { }) execution.nodes name) :=
    recoverNodes_last (s := (execution.data.getD { }, none)) hlast
  by_cases hsome : ∃ node ∈ execution.nodes, Recoverable (toRelevantMessages messages).1
      (execution.data.getD { }) node
  · obtain ⟨name, hlast⟩ := exists_lastRecovered hsome
    have hat : toStoppedAt (recoverNodes (toRelevantMessages messages).1 execution).2
        (toRelevantMessages messages).2 = recoveredAt (toRelevantMessages messages).1 name := by
      obtain ⟨time, htime⟩ := Option.isSome_iff_exists.mp (recoveredAt_isSome hlast.recoverable.1)
      rw [recoverNodes, (hended hlast).2, htime, toStoppedAt, Option.some_or]
    constructor
    · rintro ⟨m, hlatest, hname, htime⟩
      exact .inl ⟨name, hlast, m, hlatest, hname.symm.trans (hended hlast).1,
        hat.symm.trans htime⟩
    · rintro (⟨other, hother, m, hlatest, hname, htime⟩ | ⟨hnone, -⟩)
      · cases hother.unique hlast
        exact ⟨m, hlatest, (hended hlast).1.trans hname.symm, hat.trans htime⟩
      · obtain ⟨node, hnode, hrecoverable⟩ := hsome
        exact absurd hrecoverable (hnone node hnode)
  · have hnone : ∀ node ∈ execution.nodes, ¬ Recoverable (toRelevantMessages messages).1
        (execution.data.getD { }) node := fun node hnode hrecoverable =>
      hsome ⟨node, hnode, hrecoverable⟩
    have hskip : recoverNodes (toRelevantMessages messages).1 execution =
        (execution.data.getD { }, none) := recoverNodes_skip hnone
    rw [hskip]
    constructor
    · rintro ⟨m, hlatest, hname, htime⟩
      exact .inr ⟨hnone, m, hlatest, hname, htime⟩
    · rintro (⟨other, hother, -⟩ | ⟨-, m, hlatest, hname, htime⟩)
      · exact absurd hother.recoverable (hnone other hother.mem)
      · exact ⟨m, hlatest, hname, htime⟩

/-- The recovery gives the latest state exactly when the last node that it recovers is the one of a
latest message. -/
theorem recoversLatest_iff :
    RecoversLatest now execution messages ↔
      (FromRuns execution messages → LastIsLatest execution messages) := by
  rw [← lastIsLatest_iff]
  constructor
  · intro hrecovers hfrom
    obtain ⟨amended, hamend⟩ := amend_succeeds now hfrom
    obtain ⟨m, data, hlatest, hdata, hname, htime⟩ := (hrecovers amended hamend).latest hfrom.2
    rcases amend_cases hamend with ⟨rfl, -⟩ | ⟨-, hlooped, hstopped⟩
    · simp [FromRuns] at hfrom
    · cases hdata.symm.trans hlooped
      exact ⟨m, hlatest, hname, hstopped.symm.trans htime⟩
  · intro hlast amended hamend
    refine ⟨fun habout => ?_, fun data hdata name hruns => amend_untouched hamend hdata hruns⟩
    rcases amend_cases hamend with ⟨rfl, -⟩ | ⟨hfinished, hlooped, hstopped⟩
    · simp at habout
    · obtain ⟨m, hlatest, hname, htime⟩ := hlast ⟨hfinished, habout⟩
      exact ⟨m, _, hlatest, hlooped, hname, hstopped.trans htime⟩

/-- Every node of the workflow that can be recovered is the one of a latest message, and if none
can be, what was stored agrees with a latest message. -/
def EveryIsLatest (execution : IExecutionResponse ρ ε) (messages : List EventMessage) : Prop :=
  let data := execution.data.getD { }
  let nodeMessages := (toRelevantMessages messages).1
  (∀ node ∈ execution.nodes, Recoverable nodeMessages data node → EndsLatest messages node) ∧
    ((∀ node ∈ execution.nodes, ¬ Recoverable nodeMessages data node) →
      StoredLatest messages data)

theorem lastRecovered_reordered {nodeMessages : List EventMessage} {data : IRunExecutionData ρ ε}
    {nodes : List String} {node : String} (hnode : node ∈ nodes)
    (hrecoverable : Recoverable nodeMessages data node) :
    ∃ order, order.Perm nodes ∧ LastRecovered nodeMessages data order node := by
  have hperm : (nodes.filter (· ≠ node) ++ nodes.filter (¬ · ≠ node)).Perm nodes := by
    simpa using List.filter_append_perm (fun other => decide (other ≠ node)) nodes
  have hself : node ∈ nodes.filter (¬ · ≠ node) := List.mem_filter.mpr ⟨hnode, by simp⟩
  refine ⟨_, hperm, ?_⟩
  cases htail : nodes.filter (¬ · ≠ node) with
  | nil => exact absurd (htail ▸ hself) List.not_mem_nil
  | cons first rest =>
    have heq (other : String) (hother : other ∈ first :: rest) : other = node := by
      rw [← htail] at hother
      simpa using (List.mem_filter.mp hother).2
    obtain rfl := heq first (by simp)
    refine ⟨_, rest, rfl, hrecoverable, by simp, fun other hother _ => ?_⟩
    rw [heq other (by simp [hother])]
    exact List.mem_cons_self

/-- In every order of the nodes the last one that is recovered is the one of a latest message
exactly when every one is. -/
theorem lastIsLatest_reordered_iff :
    (∀ order, order.Perm execution.nodes →
      LastIsLatest { execution with nodes := order } messages) ↔
      EveryIsLatest execution messages := by
  constructor
  · intro hlast
    refine ⟨fun node hnode hrecoverable => ?_, fun hnone => ?_⟩
    · obtain ⟨order, hperm, hnodeLast⟩ := lastRecovered_reordered hnode hrecoverable
      rcases hlast order hperm with ⟨name, hname, hends⟩ | ⟨hnone, -⟩
      · rwa [hnodeLast.unique hname]
      · exact absurd hrecoverable (hnone node (hperm.mem_iff.mpr hnode))
    · rcases hlast _ (List.Perm.refl _) with ⟨name, hname, -⟩ | ⟨-, hstored⟩
      · exact absurd hname.recoverable (hnone name hname.mem)
      · exact hstored
  · rintro ⟨hevery, hstored⟩ order hperm
    by_cases hsome : ∃ node ∈ order, Recoverable (toRelevantMessages messages).1
        (execution.data.getD { }) node
    · obtain ⟨name, hname⟩ := exists_lastRecovered hsome
      exact .inl ⟨name, hname, hevery name (hperm.mem_iff.mp hname.mem) hname.recoverable⟩
    · refine .inr ⟨fun node hnode hrecoverable => hsome ⟨node, hnode, hrecoverable⟩, hstored ?_⟩
      exact fun node hnode hrecoverable => hsome ⟨node, hperm.mem_iff.mpr hnode, hrecoverable⟩

/-- The recovery gives the latest state exactly when the last node in the order of the workflow that
it recovers is the one of a latest message, and it does so for every order of the nodes exactly when
every node that it recovers is. -/
theorem recovers_latest_iff (now : Int) (execution : IExecutionResponse ρ ε)
    (messages : List EventMessage) :
    (RecoversLatest now execution messages ↔
      (FromRuns execution messages → LastIsLatest execution messages)) ∧
    ((∀ order, order.Perm execution.nodes →
      RecoversLatest now { execution with nodes := order } messages) ↔
      (FromRuns execution messages → EveryIsLatest execution messages)) := by
  refine ⟨recoversLatest_iff, ?_⟩
  simp only [recoversLatest_iff, ← lastIsLatest_reordered_iff]
  exact ⟨fun hlast hfrom order hperm => hlast order hperm hfrom,
    fun hlast order hperm hfrom => hlast hfrom order hperm⟩

end Latest

section Example

/-- The node `A` ran from the first to the second millisecond, and then `B` up to the fourth. -/
def twoRuns : List EventMessage :=
  [{ eventName := "n8n.node.started", ts := 1, nodeName := some "A" },
    { eventName := "n8n.node.finished", ts := 2, nodeName := some "A" },
    { eventName := "n8n.node.started", ts := 3, nodeName := some "B" },
    { eventName := "n8n.node.finished", ts := 4, nodeName := some "B" }]

/-- A running execution of a workflow whose nodes are in the other order. -/
def reversedExecution : IExecutionResponse Unit Unit where
  status := .running
  stoppedAt := none
  nodes := ["B", "A"]
  data := none

/-- The recovered execution ends with the first node, at the time when it finished. -/
theorem recovers_first_node :
    (∃ amended data, amend 5 (some reversedExecution) twoRuns = some amended ∧
      amended.data = some data ∧ data.lastNodeExecuted = some "A" ∧ amended.stoppedAt = some 2) ∧
    ¬ RecoversLatest 5 reversedExecution twoRuns := by
  have hamend : ∃ amended data, amend 5 (some reversedExecution) twoRuns = some amended ∧
      amended.data = some data ∧ data.lastNodeExecuted = some "A" ∧ amended.stoppedAt = some 2 :=
    ⟨_, _, rfl, rfl, rfl, rfl⟩
  refine ⟨hamend, fun hrecovers => ?_⟩
  obtain ⟨amended, data, hamend, -, -, hstopped⟩ := hamend
  have habout : ∃ m ∈ twoRuns, m.isAboutRun := ⟨_, List.mem_cons_self, .inl rfl⟩
  obtain ⟨m, -, ⟨-, -, hlatest⟩, -, -, htime⟩ := (hrecovers amended hamend).latest habout
  have hlast := hlatest ⟨"n8n.node.finished", 4, some "B"⟩ (by simp [twoRuns]) (.inr rfl)
  have htwo : (2 : Int) = m.ts := Option.some.inj (hstopped.symm.trans htime)
  rw [← htwo] at hlast
  revert hlast
  decide

end Example

end N8n.Recovery
