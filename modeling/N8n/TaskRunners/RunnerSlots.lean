import N8n.TaskRunners.Handshake

/-!
# The slots of a task runner

`TaskRunner` of `packages/@n8n/task-runner/src/task-runner.ts`, with the `TaskState` objects of its
tasks: a task whose entry is gone or was overwritten still has its object, and its execution and its
timer act through it. `Event` lists the messages, timers and outcomes that the runner reacts to, in
any order. `Bounded` and `Once` are the invariants: the open offers and the running tasks fit the
slots, and no task is reported twice.

The idle timer, the requests of a task and the end of the connection are left out.
-/

namespace N8n.TaskRunners.Slots

open Collections Transition

/-! ## The runner -/

/-- How far the execution of a task has come. -/
inductive Execution where
  | notStarted
  | executing
  /-- The outcome has been handled up to the `finally`; did the handler fail before it? -/
  | handled (failed : Bool)
  /-- The `catch` of `receivedSettings` is about to run. -/
  | rejected
  | over
  deriving DecidableEq, Repr

/-- `TaskState` of `task-state.ts`. -/
structure TaskState where
  taskId : String
  status : TaskStatus := .waitingForSettings
  /-- The timeout timer is set. -/
  timeoutTimer : Bool := true
  execution : Execution := .notStarted
  deriving DecidableEq, Repr

/-- The messages to the broker. The end of a task names it by the number of its `TaskState`, whose
`taskId` it carries. -/
inductive Message where
  | taskOffer (offerId : String) (validFor : Nat)
  | taskRejected (taskId reason : String)
  | taskAccepted (taskId : String)
  | taskDone (task : Nat)
  | taskError (task : Nat)
  deriving DecidableEq, Repr

/-- The message ends a task. -/
def Message.ends (task : Nat) : Message → Bool
  | .taskDone t | .taskError t => t = task
  | _ => false

/-- The state of the runner, with the time of `process.hrtime` in nanoseconds. -/
structure TaskRunner where
  now : Nat := 0
  canSendOffers : Bool := false
  /-- The open offers, each with its `validUntil`. -/
  openOffers : InsertionMap String Nat := .empty
  /-- The `TaskState` objects in the order of their construction. -/
  taskStates : List TaskState := []
  /-- The running tasks, each as the number of its `TaskState`. -/
  runningTasks : InsertionMap String Nat := .empty
  /-- How many offers the runner has made. -/
  offered : Nat := 0
  sent : List Message := []

namespace TaskRunner

variable (opts : TaskRunnerOpts) (r : TaskRunner)

/-- `send(message)`. -/
def send (message : Message) : TaskRunner := { r with sent := r.sent ++ [message] }

/-- The offers that have not expired. -/
def unexpiredOffers : InsertionMap String Nat := r.openOffers.filter fun offer => r.now ≤ offer.2

/-- `deleteStaleOffers()`. -/
def deleteStaleOffers : TaskRunner := { r with openOffers := r.unexpiredOffers }

/-- One round of the loop of `sendOffers`. -/
def sendOffer : TaskRunner :=
  let validForInMs := 5000 + opts.randomInt r.offered
  let offerId := opts.nanoid r.offered
  send
    { r with
      openOffers := r.openOffers.set offerId (r.now + (validForInMs + 100) * 1000000)
      offered := r.offered + 1 }
    (.taskOffer offerId validForInMs)

/-- `sendOffers()`. -/
def sendOffers : TaskRunner :=
  let r := r.deleteStaleOffers
  if r.canSendOffers then
    let offersToSend :=
      opts.maxConcurrency - (r.openOffers.entries.length + r.runningTasks.entries.length)
    (sendOffer opts)^[offersToSend] r
  else r

/-- `hasOpenTaskSlots()`. -/
def hasOpenTaskSlots : Bool := r.runningTasks.entries.length < opts.maxConcurrency

/-- `offerAccepted(offerId, taskId)`. -/
def offerAccepted (offerId taskId : String) : TaskRunner :=
  if !r.hasOpenTaskSlots opts then
    send { r with openOffers := r.openOffers.delete offerId }
      (.taskRejected taskId "No open task slots - runner already at capacity")
  else if !r.openOffers.has offerId then
    r.send (.taskRejected taskId "Offer expired - not accepted within validity window")
  else
    send
      { r with
        openOffers := r.openOffers.delete offerId
        taskStates := r.taskStates ++ [{ taskId := taskId }]
        runningTasks := r.runningTasks.set taskId r.taskStates.length }
      (.taskAccepted taskId)

/-- Write to a `TaskState`. -/
def writeTask (task : Nat) (f : TaskState → TaskState) : TaskRunner :=
  { r with taskStates := r.taskStates.modify task f }

/-- `finishTask(taskState)`. -/
def finishTask (task : Nat) (taskState : TaskState) : TaskRunner :=
  sendOffers opts
    { r.writeTask task fun t => { t with timeoutTimer := false } with
      runningTasks := r.runningTasks.delete taskState.taskId }

/-- The number and the `TaskState` of a running task. -/
def runningTask (taskId : String) : Option (Nat × TaskState) :=
  (r.runningTasks.get? taskId).bind fun task => (r.taskStates[task]?).map fun t => (task, t)

/-- `taskCancelled(taskId, reason)`. -/
def taskCancelled (taskId : String) : TaskRunner :=
  match r.runningTask taskId with
  | none => r
  | some (task, taskState) =>
    match taskState.status with
    | .waitingForSettings => r.finishTask opts task taskState
    | .running => r.writeTask task fun t => { t with status := .abortingCancelled }
    | .abortingCancelled | .abortingTimeout => r

/-- `taskTimedOut(taskId)`. -/
def taskTimedOut (taskId : String) : TaskRunner :=
  match r.runningTask taskId with
  | none => r
  | some (task, taskState) =>
    match taskState.status with
    | .waitingForSettings => (r.send (.taskError task)).finishTask opts task taskState
    | .running => r.writeTask task fun t => { t with status := .abortingTimeout }
    -- The second one throws, which nobody sees
    | .abortingCancelled | .abortingTimeout => r

/-- `receivedSettings(taskId, settings)` up to the execution of the task. -/
def receivedSettings (taskId : String) : TaskRunner :=
  match r.runningTask taskId with
  | none => r
  | some (task, taskState) =>
    match taskState.status with
    | .waitingForSettings =>
      r.writeTask task fun t => { t with status := .running, execution := .executing }
    | _ => r

/-- `taskExecutionSucceeded` and `taskExecutionFailed` up to their `finally`; `sends` tells whether
the message with the outcome can be written. -/
def taskExecutionEnded (message : Message) (sends : Bool) (task : Nat) (taskState : TaskState)
    (handled : Bool → Execution) : TaskRunner :=
  let reports := taskState.status = .running ∨ taskState.status = .abortingTimeout
  let r := if reports ∧ sends then r.send message else r
  let failed := taskState.status = .waitingForSettings ∨ reports ∧ !sends
  r.writeTask task fun t => { t with execution := handled failed }

/-- `taskExecutionSucceeded(taskState, data)`, whose failure is caught. -/
def taskExecutionSucceeded (sends : Bool) (task : Nat) (taskState : TaskState) : TaskRunner :=
  r.taskExecutionEnded (.taskDone task) sends task taskState .handled

/-- `taskExecutionFailed(taskState, error)`, whose failure is not caught. -/
def taskExecutionFailed (sends : Bool) (task : Nat) (taskState : TaskState) : TaskRunner :=
  r.taskExecutionEnded (.taskError task) sends task taskState fun _ => .handled false

end TaskRunner

/-- What the runner reacts to. The number of a task is that of its `TaskState`. -/
inductive Event where
  | runnerRegistered
  | stopTaskOffers
  | elapse (duration : Nat)
  /-- The `offerInterval` fires. -/
  | sendOffers
  | offerAccepted (offerId taskId : String)
  | taskCancelled (taskId : String)
  | receivedSettings (taskId : String)
  /-- The timer of a `TaskState` fires. -/
  | timeout (task : Nat)
  | taskExecutionSucceeded (task : Nat) (sends : Bool)
  | taskExecutionFailed (task : Nat) (sends : Bool)
  /-- The `finally` after an outcome. -/
  | finishTask (task : Nat)
  deriving DecidableEq, Repr

/-- The runner after an event. -/
def step (opts : TaskRunnerOpts) (r : TaskRunner) : Event → Option TaskRunner
  | .runnerRegistered => some { r with canSendOffers := true }
  | .stopTaskOffers => some { r with canSendOffers := false }
  | .elapse duration => some { r with now := r.now + duration }
  | .sendOffers => some (r.sendOffers opts)
  | .offerAccepted offerId taskId => some (r.offerAccepted opts offerId taskId)
  | .taskCancelled taskId => some (r.taskCancelled opts taskId)
  | .receivedSettings taskId => some (r.receivedSettings taskId)
  | .timeout task => do
    let taskState ← r.taskStates[task]?
    guard taskState.timeoutTimer
    let r := r.writeTask task fun t => { t with timeoutTimer := false }
    some (r.taskTimedOut opts taskState.taskId)
  | .taskExecutionSucceeded task sends => do
    let taskState ← r.taskStates[task]?
    guard (taskState.execution = .executing)
    some (r.taskExecutionSucceeded sends task taskState)
  | .taskExecutionFailed task sends => do
    let taskState ← r.taskStates[task]?
    guard (taskState.execution = .executing ∨ taskState.execution = .rejected)
    some (r.taskExecutionFailed sends task taskState)
  | .finishTask task => do
    let taskState ← r.taskStates[task]?
    match taskState.execution with
    | .handled failed =>
      let r := r.writeTask task fun t =>
        { t with execution := if failed then .rejected else .over }
      some (r.finishTask opts task taskState)
    | _ => none

/-! ## What a step changes -/

namespace TaskRunner

variable (opts : TaskRunnerOpts) (r : TaskRunner)

/-- How often the end of a task was sent. -/
def reports (task : Nat) : Nat := r.sent.countP (Message.ends task)

/-- How far the execution of a task has come, when there is a `TaskState`. -/
def execution (task : Nat) : Option Execution := (r.taskStates[task]?).map (·.execution)

/-- The runner has an entry for the `TaskState`. -/
def holds (task : Nat) : Bool := task ∈ r.runningTasks.values

/-- How often the end of a task may still be sent. -/
def allowance : Option Execution → Bool → Nat
  | none, _ => 1
  | some .notStarted, held => if held then 1 else 0
  | some .executing, _ | some .rejected, _ | some (.handled true), _ => 1
  | some (.handled false), _ | some .over, _ => 0

/-- How often the end of a task was sent and may still be sent. -/
def exposure (task : Nat) : Nat := r.reports task + allowance (r.execution task) (r.holds task)

theorem allowance_mono {held held' : Bool} (h : held' → held) (execution : Option Execution) :
    allowance execution held' ≤ allowance execution held := by
  cases held' with
  | false =>
    rcases execution with _ | _ | _ | ⟨_ | _⟩ | _ | _ <;> cases held <;> simp [allowance]
  | true =>
    cases h rfl
    exact Nat.le_refl _

@[simp] theorem reports_send (message : Message) (task : Nat) :
    (r.send message).reports task = r.reports task + if message.ends task then 1 else 0 := by
  simp [reports, send, List.countP_append, List.countP_singleton]

theorem execution_writeTask (task task' : Nat) (f : TaskState → TaskState) :
    (r.writeTask task f).execution task' =
      (r.taskStates[task']?).map fun t =>
        if task = task' then (f t).execution else t.execution := by
  rw [execution, writeTask, List.getElem?_modify, Option.map_eq_map, Option.map_map]
  refine congrArg (Option.map · _) (funext fun t => ?_)
  rw [Function.comp_apply]
  split
  · rfl
  · rfl

theorem iterate_sendOffer (n : Nat) :
    ((sendOffer opts)^[n] r).openOffers.entries.length ≤ r.openOffers.entries.length + n ∧
      ((sendOffer opts)^[n] r).runningTasks = r.runningTasks ∧
      ((sendOffer opts)^[n] r).taskStates = r.taskStates ∧
      ∀ task, ((sendOffer opts)^[n] r).reports task = r.reports task := by
  induction n with
  | zero => exact ⟨Nat.le_refl _, rfl, rfl, fun _ => rfl⟩
  | succ n ih =>
    obtain ⟨hopen, hrunning, hstates, hreports⟩ := ih
    rw [Function.iterate_succ_apply']
    refine ⟨?_, hrunning, hstates, fun task => ?_⟩
    · exact Nat.le_trans (InsertionMap.length_set_le ..) (by omega)
    · rw [sendOffer, reports_send]
      exact hreports task

/-- The open offers and the running tasks fit the slots. -/
def Bounded : Prop :=
  r.openOffers.entries.length + r.runningTasks.entries.length ≤ opts.maxConcurrency

theorem sendOffers_spec (h : r.Bounded opts) :
    (r.sendOffers opts).Bounded opts ∧ (r.sendOffers opts).runningTasks = r.runningTasks ∧
      (r.sendOffers opts).taskStates = r.taskStates ∧
      ∀ task, (r.sendOffers opts).reports task = r.reports task := by
  have hstale : r.deleteStaleOffers.openOffers.entries.length ≤ r.openOffers.entries.length :=
    List.length_filter_le _ _
  rw [Bounded] at h
  rw [sendOffers]
  dsimp only
  split
  · obtain ⟨hopen, hrunning, hstates, hreports⟩ := iterate_sendOffer opts r.deleteStaleOffers
      (opts.maxConcurrency - (r.deleteStaleOffers.openOffers.entries.length +
        r.deleteStaleOffers.runningTasks.entries.length))
    refine ⟨?_, hrunning, hstates, hreports⟩
    have hsame : r.deleteStaleOffers.runningTasks = r.runningTasks := rfl
    rw [Bounded, hrunning]
    rw [hsame] at hopen ⊢
    omega
  · refine ⟨?_, rfl, rfl, fun _ => rfl⟩
    exact Nat.le_trans (Nat.add_le_add_right hstale _) h

end TaskRunner

/-! ## The invariant -/

namespace TaskRunner

/-- The invariant of the runner. -/
structure Sound (opts : TaskRunnerOpts) (r : TaskRunner) : Prop where
  slots : r.Bounded opts
  running : ∀ taskId task, r.runningTasks.get? taskId = some task →
    ∃ t, r.taskStates[task]? = some t ∧ t.taskId = taskId
  started : ∀ t ∈ r.taskStates, t.status = .waitingForSettings ↔ t.execution = .notStarted
  once : ∀ task, r.exposure task ≤ 1

variable {opts : TaskRunnerOpts} {r : TaskRunner}

theorem Sound.sendOffers (h : Sound opts r) : Sound opts (r.sendOffers opts) := by
  obtain ⟨hslots, hrunning, hstates, hreports⟩ := sendOffers_spec opts r h.slots
  refine ⟨hslots, ?_, ?_, fun task => ?_⟩
  · rw [hrunning, hstates]
    exact h.running
  · rw [hstates]
    exact h.started
  · rw [exposure, hreports, execution, holds, hrunning, hstates]
    exact h.once task

/-- A write to a `TaskState`, together with a message about it, keeps the invariant when the task
is not exposed more than before. -/
theorem Sound.write (h : Sound opts r) {task : Nat} {t : TaskState}
    (ht : r.taskStates[task]? = some t) (f : TaskState → TaskState) (sent : List Message)
    (hid : (f t).taskId = t.taskId)
    (hstarted : (f t).status = .waitingForSettings ↔ (f t).execution = .notStarted)
    (hothers : ∀ other ≠ task, sent.countP (Message.ends other) = r.reports other)
    (hself : sent.countP (Message.ends task) +
      allowance (some (f t).execution) (r.holds task) ≤ 1) :
    Sound opts { r.writeTask task f with sent := sent } := by
  refine ⟨h.slots, fun taskId other hget => ?_, fun t' ht' => ?_, fun other => ?_⟩
  · obtain ⟨t', ht', hid'⟩ := h.running taskId other hget
    by_cases hother : task = other
    · subst hother
      cases ht.symm.trans ht'
      exact ⟨f t, by simp [writeTask, ht], hid.trans hid'⟩
    · exact ⟨t', by simp [writeTask, hother, ht'], hid'⟩
  · obtain ⟨other, hget⟩ := List.mem_iff_getElem?.mp ht'
    by_cases hother : task = other
    · subst hother
      simp only [writeTask, List.getElem?_modify_eq, ht, Option.map_eq_map,
        Option.map_some, Option.some.injEq] at hget
      exact hget ▸ hstarted
    · rw [writeTask, List.getElem?_modify_ne _ _ hother] at hget
      exact h.started t' (List.mem_of_getElem? hget)
  · have hexecution := execution_writeTask r task other f
    by_cases hother : task = other
    · subst hother
      rw [ht, Option.map_some, if_pos rfl] at hexecution
      rw [← hexecution] at hself
      exact hself
    · simp only [hother, if_false] at hexecution
      have hbefore := h.once other
      rw [exposure, execution, ← hexecution, ← hothers other (Ne.symm hother)] at hbefore
      exact hbefore

theorem Sound.drop (h : Sound opts r) (taskId : String) (sent : List Message)
    (honce : ∀ task, sent.countP (Message.ends task) +
      allowance (r.execution task) (task ∈ (r.runningTasks.delete taskId).values) ≤ 1) :
    Sound opts { r with runningTasks := r.runningTasks.delete taskId, sent := sent } := by
  refine ⟨?_, fun taskId' task hget => ?_, h.started, honce⟩
  · exact Nat.le_trans (Nat.add_le_add_left (InsertionMap.length_delete_le ..) _) h.slots
  · rw [InsertionMap.get_delete] at hget
    split at hget
    · cases hget
    · exact h.running taskId' task hget

variable {t : TaskState} {task : Nat}

theorem runningTask_eq_some {taskId : String} (h : r.runningTask taskId = some (task, t)) :
    r.runningTasks.get? taskId = some task ∧ r.taskStates[task]? = some t := by
  obtain ⟨task', hget, h⟩ := Option.bind_eq_some_iff.mp h
  obtain ⟨t', ht, heq⟩ := Option.map_eq_some_iff.mp h
  cases heq
  exact ⟨hget, ht⟩

theorem Sound.cleanup (h : Sound opts r) (ht : r.taskStates[task]? = some t) :
    Sound opts (r.writeTask task fun t => { t with timeoutTimer := false }) := by
  have hself := h.once task
  rw [exposure, execution, ht] at hself
  exact h.write ht _ r.sent rfl (h.started t (List.mem_of_getElem? ht)) (fun _ _ => rfl) hself

theorem holds_of_delete {taskId : String}
    (h : decide (task ∈ (r.runningTasks.delete taskId).values) = true) : r.holds task = true := by
  obtain ⟨taskId', hget⟩ := InsertionMap.mem_values_iff.mp (of_decide_eq_true h)
  rw [InsertionMap.get_delete] at hget
  split at hget
  · cases hget
  · exact decide_eq_true (InsertionMap.mem_values_iff.mpr ⟨taskId', hget⟩)

theorem Sound.finishTask (h : Sound opts r) (ht : r.taskStates[task]? = some t)
    (taskState : TaskState) : Sound opts (r.finishTask opts task taskState) := by
  have hcleaned := h.cleanup ht
  refine (hcleaned.drop taskState.taskId r.sent fun task' => ?_).sendOffers
  refine Nat.le_trans (Nat.add_le_add_left (allowance_mono (fun hheld => ?_) _) _)
    (hcleaned.once task')
  exact holds_of_delete hheld

theorem Sound.finishWaiting (h : Sound opts r) {taskId : String}
    (hrunning : r.runningTask taskId = some (task, t)) (hwaiting : t.status = .waitingForSettings) :
    Sound opts ((r.send (.taskError task)).finishTask opts task t) := by
  obtain ⟨hget, ht⟩ := runningTask_eq_some hrunning
  have hcleaned := h.cleanup ht
  refine (hcleaned.drop t.taskId (r.send (.taskError task)).sent fun task' => ?_).sendOffers
  have hbefore := hcleaned.once task'
  have hsent : (r.send (.taskError task)).sent.countP (Message.ends task') =
      r.reports task' + if task = task' then 1 else 0 := by
    refine (reports_send r (.taskError task) task').trans ?_
    simp [Message.ends]
  rw [hsent]
  by_cases htask : task = task'
  · subst htask
    -- The task had its entry, and has none now
    have hheld : r.holds task := decide_eq_true (InsertionMap.mem_values_iff.mpr ⟨taskId, hget⟩)
    have hdropped : ¬ task ∈ (r.runningTasks.delete t.taskId).values := by
      intro hmem
      obtain ⟨taskId', hget'⟩ := InsertionMap.mem_values_iff.mp hmem
      rw [InsertionMap.get_delete] at hget'
      split at hget'
      · cases hget'
      · rename_i hother
        obtain ⟨t', ht', hid⟩ := h.running taskId' task hget'
        cases ht.symm.trans ht'
        exact hother hid.symm
    have hexecution : (r.writeTask task fun t => { t with timeoutTimer := false }).execution task =
        some .notStarted := by
      rw [execution_writeTask, ht, Option.map_some, if_pos rfl]
      exact congrArg some ((h.started t (List.mem_of_getElem? ht)).mp hwaiting)
    have hreports : r.reports task + 1 ≤ 1 := by
      rw [exposure, hexecution] at hbefore
      have hsame : (r.writeTask task fun t => { t with timeoutTimer := false }).holds task = true :=
        hheld
      rw [hsame] at hbefore
      exact hbefore
    rw [hexecution, if_pos rfl]
    change r.reports task + 1 +
      allowance (some .notStarted) (decide (task ∈ (r.runningTasks.delete t.taskId).values)) ≤ 1
    rw [decide_eq_false hdropped]
    exact hreports
  · rw [if_neg htask]
    refine Nat.le_trans (Nat.add_le_add_left (allowance_mono (fun hheld => ?_) _) _) hbefore
    exact holds_of_delete hheld

theorem Sound.setStatus (h : Sound opts r) (ht : r.taskStates[task]? = some t)
    (hstarted : t.status ≠ .waitingForSettings) {status : TaskStatus}
    (hstatus : status ≠ .waitingForSettings) :
    Sound opts (r.writeTask task fun t => { t with status := status }) := by
  have hself := h.once task
  rw [exposure, execution, ht] at hself
  have hexecution : t.execution ≠ .notStarted := fun hnot =>
    hstarted ((h.started t (List.mem_of_getElem? ht)).mpr hnot)
  exact h.write ht (fun t => { t with status := status }) r.sent rfl
    ⟨fun heq => absurd heq hstatus, fun heq => absurd heq hexecution⟩ (fun _ _ => rfl) hself

theorem allowance_accepted (r : TaskRunner) (taskId : String) (task : Nat) :
    allowance (((r.taskStates ++ [{ taskId := taskId }])[task]?).map (·.execution))
        (task ∈ (r.runningTasks.set taskId r.taskStates.length).values) ≤
      allowance (r.execution task) (r.holds task) := by
  rcases Nat.lt_trichotomy task r.taskStates.length with hlt | rfl | hgt
  · rw [List.getElem?_append_left hlt]
    refine allowance_mono (fun hheld => ?_) _
    obtain ⟨taskId', hget⟩ := InsertionMap.mem_values_iff.mp (of_decide_eq_true hheld)
    rw [InsertionMap.get_set] at hget
    split at hget
    · cases hget
      exact absurd hlt (Nat.lt_irrefl _)
    · exact decide_eq_true (InsertionMap.mem_values_iff.mpr ⟨taskId', hget⟩)
  · rw [List.getElem?_concat_length, execution, List.getElem?_eq_none (Nat.le_refl _)]
    simp only [Option.map_some, Option.map_none, allowance]
    split
    · exact Nat.le_refl _
    · exact Nat.zero_le _
  · rw [execution, List.getElem?_eq_none (by simpa using Nat.succ_le_of_lt hgt),
      List.getElem?_eq_none (Nat.le_of_lt hgt)]
    exact Nat.le_refl _

theorem Sound.offerAccepted (h : Sound opts r) (offerId taskId : String) :
    Sound opts (r.offerAccepted opts offerId taskId) := by
  have hrejected : ∀ (openOffers : InsertionMap String Nat) (reason : String),
      openOffers.entries.length ≤ r.openOffers.entries.length →
      Sound opts (send { r with openOffers := openOffers } (.taskRejected taskId reason)) := by
    intro openOffers reason hle
    refine ⟨Nat.le_trans (Nat.add_le_add_right hle _) h.slots, h.running, h.started, fun task => ?_⟩
    rw [exposure, reports_send]
    exact h.once task
  rw [TaskRunner.offerAccepted]
  split
  · exact hrejected _ _ (InsertionMap.length_delete_le ..)
  · split
    · exact hrejected r.openOffers _ (Nat.le_refl _)
    · rename_i hopen
      have hoffer := InsertionMap.length_delete_lt (m := r.openOffers) (by simpa using hopen)
      have htask := InsertionMap.length_set_le r.runningTasks taskId r.taskStates.length
      refine ⟨?_, fun taskId' task hget => ?_, fun t ht => ?_, fun task => ?_⟩
      · have hslots := h.slots
        rw [Bounded] at hslots ⊢
        change (r.openOffers.delete offerId).entries.length +
          (r.runningTasks.set taskId r.taskStates.length).entries.length ≤ opts.maxConcurrency
        omega
      · change (r.runningTasks.set taskId r.taskStates.length).get? taskId' = some task at hget
        change ∃ t, (r.taskStates ++ [{ taskId := taskId }])[task]? = some t ∧ t.taskId = taskId'
        rw [InsertionMap.get_set] at hget
        split at hget
        · rename_i heq
          cases hget
          exact ⟨_, List.getElem?_concat_length, heq.symm⟩
        · obtain ⟨t, ht, hid⟩ := h.running taskId' task hget
          rw [List.getElem?_append_left (List.getElem?_eq_some_iff.mp ht).1]
          exact ⟨t, ht, hid⟩
      · rcases List.mem_append.mp ht with hold | hnew
        · exact h.started t hold
        · cases List.mem_singleton.mp hnew
          exact ⟨fun _ => rfl, fun _ => rfl⟩
      · rw [exposure, reports_send]
        refine Nat.le_trans (Nat.add_le_add_left ?_ _) (h.once task)
        exact allowance_accepted r taskId task

theorem Sound.taskCancelled (h : Sound opts r) (taskId : String) :
    Sound opts (r.taskCancelled opts taskId) := by
  rw [TaskRunner.taskCancelled]
  split
  · exact h
  · rename_i task t hrunning
    obtain ⟨-, ht⟩ := runningTask_eq_some hrunning
    split
    · exact h.finishTask ht t
    · rename_i hstatus
      exact h.setStatus ht (by simp [hstatus]) (by simp)
    · exact h
    · exact h

theorem Sound.taskTimedOut (h : Sound opts r) (taskId : String) :
    Sound opts (r.taskTimedOut opts taskId) := by
  rw [TaskRunner.taskTimedOut]
  split
  · exact h
  · rename_i task t hrunning
    obtain ⟨-, ht⟩ := runningTask_eq_some hrunning
    split
    · rename_i hstatus
      exact h.finishWaiting hrunning hstatus
    · rename_i hstatus
      exact h.setStatus ht (by simp [hstatus]) (by simp)
    · exact h
    · exact h

theorem Sound.receivedSettings (h : Sound opts r) (taskId : String) :
    Sound opts (r.receivedSettings taskId) := by
  rw [TaskRunner.receivedSettings]
  split
  · exact h
  · rename_i task t hrunning
    obtain ⟨hget, ht⟩ := runningTask_eq_some hrunning
    split
    · rename_i hstatus
      have hheld : r.holds task := decide_eq_true (InsertionMap.mem_values_iff.mpr ⟨taskId, hget⟩)
      have hexecution := (h.started t (List.mem_of_getElem? ht)).mp hstatus
      have hself := h.once task
      rw [exposure, execution, ht, Option.map_some, hexecution, hheld] at hself
      exact h.write ht (fun t => { t with status := .running, execution := .executing }) r.sent rfl
        (by simp) (fun _ _ => rfl) hself
    · exact h

theorem Sound.taskExecutionEnded (h : Sound opts r) {task : Nat} {t : TaskState}
    (ht : r.taskStates[task]? = some t) (hallowed : allowance (some t.execution) (r.holds task) = 1)
    (hstarted : t.execution ≠ .notStarted) {message : Message} (hends : ∀ other,
      message.ends other = decide (task = other)) (sends : Bool) (handled : Bool → Execution)
    (hhandled : ∀ failed held, handled failed ≠ .notStarted ∧
      allowance (some (handled failed)) held ≤ if failed then 1 else 0) :
    Sound opts (r.taskExecutionEnded message sends task t handled) := by
  have hstatus : t.status ≠ .waitingForSettings := fun hwaiting =>
    hstarted ((h.started t (List.mem_of_getElem? ht)).mp hwaiting)
  have hself := h.once task
  rw [exposure, execution, ht, Option.map_some, hallowed] at hself
  rw [TaskRunner.taskExecutionEnded]
  by_cases hsent : (t.status = .running ∨ t.status = .abortingTimeout) ∧ sends
  · have hdone : decide (t.status = .waitingForSettings ∨
        (t.status = .running ∨ t.status = .abortingTimeout) ∧ (!sends) = true) = false := by
      simp [hstatus, hsent.2]
    rw [if_pos hsent, hdone]
    obtain ⟨hne, hle⟩ := hhandled false (r.holds task)
    refine h.write ht (fun t => { t with execution := handled false }) (r.send message).sent rfl
      ⟨fun heq => absurd heq hstatus, fun heq => absurd heq hne⟩ (fun other hother => ?_) ?_
    · exact (reports_send r message other).trans (by simp [hends, Ne.symm hother])
    · have hcount := reports_send r message task
      rw [hends, decide_eq_true rfl, if_pos rfl] at hcount
      change (r.send message).reports task + allowance (some (handled false)) _ ≤ 1
      rw [hcount, Nat.le_zero.mp hle]
      exact hself
  · rw [if_neg hsent]
    obtain ⟨hne, hle⟩ := hhandled (decide (t.status = .waitingForSettings ∨
      (t.status = .running ∨ t.status = .abortingTimeout) ∧ (!sends) = true)) (r.holds task)
    refine h.write ht (fun t => { t with execution := handled _ }) r.sent rfl
      ⟨fun heq => absurd heq hstatus, fun heq => absurd heq hne⟩ (fun _ _ => rfl) ?_
    refine Nat.le_trans (Nat.add_le_add_left (Nat.le_trans hle ?_) _) hself
    split
    · exact Nat.le_refl 1
    · exact Nat.zero_le 1

end TaskRunner

theorem step_sound {opts : TaskRunnerOpts} {r r' : TaskRunner} {event : Event}
    (h : r.Sound opts) (hstep : step opts r event = some r') : r'.Sound opts := by
  cases event with
  | runnerRegistered | stopTaskOffers | elapse duration =>
    cases hstep
    exact ⟨h.slots, h.running, h.started, h.once⟩
  | sendOffers =>
    cases hstep
    exact h.sendOffers
  | offerAccepted offerId taskId =>
    cases hstep
    exact h.offerAccepted offerId taskId
  | taskCancelled taskId =>
    cases hstep
    exact h.taskCancelled taskId
  | receivedSettings taskId =>
    cases hstep
    exact h.receivedSettings taskId
  | timeout task =>
    obtain ⟨t, ht, hstep⟩ := Option.bind_eq_some_iff.mp hstep
    obtain ⟨-, -, hstep⟩ := Option.bind_eq_some_iff.mp hstep
    cases hstep
    exact (h.cleanup ht).taskTimedOut t.taskId
  | taskExecutionSucceeded task sends =>
    obtain ⟨t, ht, hstep⟩ := Option.bind_eq_some_iff.mp hstep
    obtain ⟨_, hguard, hstep⟩ := Option.bind_eq_some_iff.mp hstep
    cases hstep
    have hexecuting : t.execution = .executing := by simpa [guard] using hguard
    refine h.taskExecutionEnded ht (by rw [hexecuting]; rfl) (by simp [hexecuting])
      (fun _ => rfl) sends _ fun failed held => ?_
    cases failed <;> simp [TaskRunner.allowance]
  | taskExecutionFailed task sends =>
    obtain ⟨t, ht, hstep⟩ := Option.bind_eq_some_iff.mp hstep
    obtain ⟨_, hguard, hstep⟩ := Option.bind_eq_some_iff.mp hstep
    cases hstep
    have hexecution : t.execution = .executing ∨ t.execution = .rejected :=
      Decidable.or_iff_not_imp_left.mpr (by simpa [guard] using hguard)
    refine h.taskExecutionEnded ht ?_ ?_ (fun _ => rfl) sends _ fun failed held => ?_
    · rcases hexecution with heq | heq <;> rw [heq] <;> rfl
    · rcases hexecution with heq | heq <;> simp [heq]
    · cases failed <;> simp [TaskRunner.allowance]
  | finishTask task =>
    obtain ⟨t, ht, hstep⟩ := Option.bind_eq_some_iff.mp hstep
    split at hstep
    · rename_i failed hexecution
      cases hstep
      have hself := h.once task
      have hstatus : t.status ≠ .waitingForSettings := fun hwaiting => by
        have := (h.started t (List.mem_of_getElem? ht)).mp hwaiting
        rw [hexecution] at this
        cases this
      rw [TaskRunner.exposure, TaskRunner.execution, ht, Option.map_some, hexecution] at hself
      have hwritten := h.write ht
        (fun t => { t with execution := if failed then .rejected else .over }) r.sent rfl
        ⟨fun heq => absurd heq hstatus, by cases failed <;> simp⟩ (fun _ _ => rfl)
        (by cases failed <;> exact hself)
      refine hwritten.finishTask
        (t := { t with execution := if failed then .rejected else .over }) ?_ t
      change (r.taskStates.modify task _)[task]? = _
      rw [List.getElem?_modify_eq, ht]
      rfl
    · cases hstep

/-- In every reachable state the unexpired offers and the running tasks fit the slots, and the end
of each task was sent at most once. -/
theorem never_overcommits {opts : TaskRunnerOpts} {r : TaskRunner}
    (h : Reachable (step opts) (fun _ _ => True) {} r) :
    r.unexpiredOffers.entries.length + r.runningTasks.entries.length ≤ opts.maxConcurrency ∧
      ∀ task, r.sent.countP (Message.ends task) ≤ 1 := by
  have hsound : r.Sound opts := by
    refine h.keeps (TaskRunner.Sound opts) ?_ fun _ _ _ hs _ hstep => step_sound hs hstep
    refine ⟨Nat.zero_le _, fun taskId task hget => ?_, fun t ht => ?_, fun task => Nat.le_refl 1⟩
    · cases hget
    · cases ht
  refine ⟨?_, fun task => Nat.le_trans (Nat.le_add_right _ _) (hsound.once task)⟩
  exact Nat.le_trans (Nat.add_le_add_right (List.length_filter_le _ _) _) hsound.slots

/-- A runner with one slot. -/
def oneSlot : TaskRunnerOpts where
  id := "runner"
  taskType := "javascript"
  maxConcurrency := 1
  nanoid n := if n = 0 then "first" else "second"
  randomInt _ := 0

/-- A task times out, and then its result cannot be written. -/
def lateFailure : List Event :=
  [.runnerRegistered, .sendOffers, .offerAccepted "first" "task", .receivedSettings "task",
    .timeout 0, .taskExecutionSucceeded 0 false, .finishTask 0, .taskExecutionFailed 0 true,
    .finishTask 0]

theorem late_failure_never_overcommits :
    ∃ r, run (step oneSlot) {} lateFailure = some r ∧
      r.unexpiredOffers.entries.length + r.runningTasks.entries.length ≤ 1 ∧
      ∀ task, r.sent.countP (Message.ends task) ≤ 1 := by
  obtain ⟨r, hrun⟩ : ∃ r, run (step oneSlot) {} lateFailure = some r :=
    Option.isSome_iff_exists.mp (by decide +kernel)
  exact ⟨r, hrun, never_overcommits (reachable_of_run hrun)⟩

end N8n.TaskRunners.Slots
