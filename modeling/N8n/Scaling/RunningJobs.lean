import N8n.Collections.InsertionMap
import N8n.Collections.KeyedList
import N8n.Execution.Status
import N8n.Transition.Runs

/-!
# The registry of running jobs

A job is registered when its run starts, which is several awaits after the call of `processJob`, and
removed once the run has resolved. While no run rejects and no request to stop a job comes before
its run is registered, the registry holds unsettled runs only, and stopping a job cancels its run.
-/

namespace N8n.Scaling

open Collections Transition

/-! ## Processing jobs

`JobProcessor` of `packages/cli/src/scaling/job-processor.ts`, and the worker that waits for its
running jobs before it stops. The calls of `processJob` are numbered, and a run has the number of
its call. A call goes on after its run in the microtask that follows the settling of the run, before
anything else looks at the running jobs.
-/

/-- The id of a job in the queue. -/
abbrev JobId := Nat

/-- What `processJob` needs of the execution: its status, and whether it has execution data. -/
structure FoundExecution where
  status : ExecutionStatus
  hasExecutionData : Bool
  deriving DecidableEq, Repr

/-- How the start of a run goes. -/
inductive RunStart where
  | started
  /-- A `WorkflowHasIssuesError` is thrown. -/
  | hasIssues
  | threw
  deriving DecidableEq, Repr

/-- What a call of `processJob` awaits. -/
inductive JobPoint where
  | findingExecution
  | settingRunning (execution : FoundExecution)
  | loadingStaticData (execution : FoundExecution)
  | gettingBase (execution : FoundExecution)
  /-- `workflowExecuteAfter`, for an execution that did not start. -/
  | runningHook
  /-- `await workflowRun`. -/
  | awaitingRun
  /-- `job.progress`, after the run. -/
  | progressing
  deriving DecidableEq, Repr

/-- What happens to the promise that is awaited. -/
inductive JobReply where
  | rejected
  | execution (execution : Option FoundExecution)
  | setRunning
  | workflow (found : Bool)
  /-- `getBase` resolves, and the call goes on to the start of the run. -/
  | base (start : RunStart)
  | hookRan
  /-- The run settles without an exception, also when it was cancelled. -/
  | runResolved
  | progressed
  deriving DecidableEq, Repr

/-- What `processJob` resolves to, or that it throws. -/
inductive JobResult where
  | success
  | failure
  | thrown
  deriving DecidableEq, Repr

/-- A call of `processJob`. -/
structure JobCall where
  number : Nat
  jobId : JobId
  loadStaticData : Bool
  point : JobPoint
  deriving DecidableEq, Repr

/-- The stages of `stopWorker`. -/
inductive WorkerShutdown where
  | notRequested
  | pausingQueue
  /-- Waiting for the running jobs. -/
  | waiting
  | ended
  deriving DecidableEq, Repr

/-- The running jobs with the numbers of their runs, the calls in progress, and what happened: the
number of calls, the runs that were started, settled and cancelled, the calls that a stop request
found unsettled, and the results. -/
structure JobProcessor where
  runningJobs : InsertionMap JobId Nat
  calls : List JobCall
  received : Nat
  started : List Nat
  settled : List Nat
  cancelled : List Nat
  stopRequested : List Nat
  results : List (Nat × JobResult)
  shutdown : WorkerShutdown

inductive WorkerEvent where
  /-- The queue hands a job to the worker. -/
  | processJob (jobId : JobId) (loadStaticData : Bool)
  /-- A call goes on. -/
  | resume (number : Nat) (reply : JobReply)
  /-- A message to abort a job arrives. -/
  | stopJob (jobId : JobId)
  | stopWorker
  | queuePaused
  /-- The worker looks at the running jobs again. -/
  | poll
  deriving DecidableEq, Repr

namespace JobProcessor

/-- The job of a call is handed to the worker. -/
def processJob (s : JobProcessor) (jobId : JobId) (loadStaticData : Bool) : JobProcessor :=
  { s with
    calls := s.calls ++ [⟨s.received, jobId, loadStaticData, .findingExecution⟩]
    received := s.received + 1 }

/-- A call awaits something else. -/
def moveTo (s : JobProcessor) (call : JobCall) (point : JobPoint) : JobProcessor :=
  { s with calls := s.calls.map fun c => if c.number = call.number then { c with point } else c }

/-- A call ends. -/
def finish (s : JobProcessor) (call : JobCall) (result : JobResult) : JobProcessor :=
  { s with
    calls := s.calls.filter (·.number ≠ call.number)
    results := s.results ++ [(call.number, result)] }

/-- The run of a call is started and registered. -/
def register (s : JobProcessor) (call : JobCall) : JobProcessor :=
  ({ s with
      started := s.started ++ [call.number]
      runningJobs := s.runningJobs.set call.jobId call.number } : JobProcessor).moveTo call
    .awaitingRun

/-- A call goes on with what it awaits. -/
def resume (s : JobProcessor) (call : JobCall) (reply : JobReply) : Option JobProcessor :=
  match call.point with
  | .findingExecution =>
    match reply with
    | .rejected => some (s.finish call .thrown)
    | .execution none => some (s.finish call .thrown)
    | .execution (some execution) =>
      if execution.status = .crashed then some (s.finish call .failure)
      else some (s.moveTo call (.settingRunning execution))
    | _ => none
  | .settingRunning execution =>
    match reply with
    | .rejected => some (s.finish call .thrown)
    | .setRunning =>
      if call.loadStaticData then some (s.moveTo call (.loadingStaticData execution))
      else some (s.moveTo call (.gettingBase execution))
    | _ => none
  | .loadingStaticData execution =>
    match reply with
    | .rejected => some (s.finish call .thrown)
    | .workflow false => some (s.finish call .thrown)
    | .workflow true => some (s.moveTo call (.gettingBase execution))
    | _ => none
  | .gettingBase execution =>
    match reply with
    | .rejected => some (s.finish call .thrown)
    | .base .started => some (s.register call)
    | .base .hasIssues =>
      -- only manual executions are started in a `try` block
      if execution.hasExecutionData then some (s.finish call .thrown)
      else some (s.moveTo call .runningHook)
    | .base .threw => some (s.finish call .thrown)
    | _ => none
  | .runningHook =>
    match reply with
    | .rejected => some (s.finish call .thrown)
    | .hookRan => some (s.finish call .failure)
    | _ => none
  | .awaitingRun =>
    let s := { s with settled := s.settled ++ [call.number] }
    match reply with
    | .rejected => some (s.finish call .thrown)
    | .runResolved =>
      some (({ s with runningJobs := s.runningJobs.delete call.jobId } : JobProcessor).moveTo
        call .progressing)
    | _ => none
  | .progressing =>
    match reply with
    | .rejected => some (s.finish call .thrown)
    | .progressed => some (s.finish call .success)
    | _ => none

/-- The cancelled runs after one is asked to cancel, which a settled run ignores. -/
def cancel (s : JobProcessor) (run : Nat) : List Nat :=
  if run ∈ s.settled ∨ run ∈ s.cancelled then s.cancelled else s.cancelled ++ [run]

/-- The calls for a job whose run has not settled. -/
def unsettled (s : JobProcessor) (jobId : JobId) : List Nat :=
  (s.calls.filter fun call => call.jobId = jobId ∧ call.point ≠ .progressing).map JobCall.number

/-- Stop a job. -/
def stopJob (s : JobProcessor) (jobId : JobId) : JobProcessor :=
  { s with
    cancelled := ((s.runningJobs.get? jobId).map s.cancel).getD s.cancelled
    runningJobs := s.runningJobs.delete jobId
    stopRequested := s.stopRequested ++ s.unsettled jobId }

/-- The ids of the running jobs. -/
def getRunningJobIds (s : JobProcessor) : List JobId := s.runningJobs.keys

/-- One check of the loop in `stopWorker`, which sleeps while there are running jobs. -/
def poll (s : JobProcessor) : JobProcessor :=
  if s.getRunningJobIds.length ≠ 0 then { s with shutdown := .waiting }
  else { s with shutdown := .ended }

/-- The state after an event. -/
def step (s : JobProcessor) : WorkerEvent → Option JobProcessor
  | .processJob jobId loadStaticData => some (s.processJob jobId loadStaticData)
  | .resume number reply =>
    (s.calls.find? (·.number = number)).bind fun call => s.resume call reply
  | .stopJob jobId => some (s.stopJob jobId)
  | .stopWorker =>
    if s.shutdown = .notRequested then some { s with shutdown := .pausingQueue } else none
  | .queuePaused => if s.shutdown = .pausingQueue then some s.poll else none
  | .poll => if s.shutdown = .waiting then some s.poll else none

/-- No job was handed to the worker. -/
def initial : JobProcessor := ⟨.empty, [], 0, [], [], [], [], [], .notRequested⟩

end JobProcessor

/-! ## The registry of running jobs -/

namespace JobProcessor

variable {s s' : JobProcessor} {call : JobCall} {reply : JobReply}

/-- The registry holds unsettled runs, so that the worker does not wait once all runs have settled,
and the runs of the calls that a stop request found are cancelled. -/
structure Exact (s : JobProcessor) : Prop where
  running : ∀ jobId run, s.runningJobs.get? jobId = some run → run ∈ s.started ∧ run ∉ s.settled
  waitEnds : s.shutdown = .waiting → (∀ run ∈ s.started, run ∈ s.settled) →
    s.poll.shutdown = .ended
  cancels : ∀ run ∈ s.stopRequested, run ∈ s.started → run ∈ s.cancelled

/-- The awaited run does not reject, a run is not started when its job was asked to stop before, and
a job is asked to stop when each of its runs that is awaited is the registered one, or was cancelled
already. -/
def undisturbed (s : JobProcessor) : WorkerEvent → Prop
  | .processJob _ _ => True
  | .resume number reply => ∀ call ∈ s.calls, call.number = number →
      (call.point = .awaitingRun → reply ≠ .rejected) ∧
        (reply = .base .started → number ∉ s.stopRequested)
  | .stopJob jobId => ∀ call ∈ s.calls, call.jobId = jobId → call.point = .awaitingRun →
      s.runningJobs.get? jobId = some call.number ∨ call.number ∈ s.cancelled
  | .stopWorker => True
  | .queuePaused => True
  | .poll => True

instance (s : JobProcessor) : DecidablePred s.undisturbed
  | .processJob .. => isTrue trivial
  | .resume .. => inferInstanceAs (Decidable (∀ _ ∈ _, _))
  | .stopJob _ => inferInstanceAs (Decidable (∀ _ ∈ _, _))
  | .stopWorker => isTrue trivial
  | .queuePaused => isTrue trivial
  | .poll => isTrue trivial

/-- The run of the call was not started. -/
def beforeRun (point : JobPoint) : Prop := point ≠ .awaitingRun ∧ point ≠ .progressing

/-- The ways in which a call goes on: it ends or awaits something else without its run, its run
starts, or its run settles. -/
inductive Resumed (s : JobProcessor) (call : JobCall) : JobReply → JobProcessor → Prop where
  | ends {reply : JobReply} (h : call.point ≠ .awaitingRun) (result : JobResult) :
      Resumed s call reply (s.finish call result)
  | moves {reply : JobReply} (h : beforeRun call.point) (point : JobPoint)
      (hpoint : beforeRun point) : Resumed s call reply (s.moveTo call point)
  | starts (h : beforeRun call.point) :
      Resumed s call (.base .started) (s.register call)
  | rejects (h : call.point = .awaitingRun) :
      Resumed s call .rejected
        (({ s with settled := s.settled ++ [call.number] } : JobProcessor).finish call .thrown)
  | resolves (h : call.point = .awaitingRun) :
      Resumed s call .runResolved
        (({ s with
            settled := s.settled ++ [call.number]
            runningJobs := s.runningJobs.delete call.jobId } : JobProcessor).moveTo call
          .progressing)

theorem resumed_of_resume (h : s.resume call reply = some s') : Resumed s call reply s' := by
  unfold resume at h
  cases hpoint : call.point with
  | awaitingRun =>
    simp only [hpoint] at h
    split at h
    · cases h
      exact .rejects hpoint
    · cases h
      exact .resolves hpoint
    · cases h
  | gettingBase execution =>
    have hbefore : beforeRun call.point := by
      rw [hpoint]
      exact ⟨nofun, nofun⟩
    simp only [hpoint] at h
    split at h
    · cases h
      exact .ends hbefore.1 _
    · cases h
      exact .starts hbefore
    · split at h
      · cases h
        exact .ends hbefore.1 _
      · cases h
        exact .moves hbefore .runningHook ⟨nofun, nofun⟩
    · cases h
      exact .ends hbefore.1 _
    · cases h
  | findingExecution =>
    have hbefore : beforeRun call.point := by
      rw [hpoint]
      exact ⟨nofun, nofun⟩
    simp only [hpoint] at h
    split at h
    · cases h
      exact .ends hbefore.1 _
    · cases h
      exact .ends hbefore.1 _
    · split at h
      · cases h
        exact .ends hbefore.1 _
      · cases h
        exact .moves hbefore (.settingRunning _) ⟨nofun, nofun⟩
    · cases h
  | settingRunning execution =>
    have hbefore : beforeRun call.point := by
      rw [hpoint]
      exact ⟨nofun, nofun⟩
    simp only [hpoint] at h
    split at h
    · cases h
      exact .ends hbefore.1 _
    · split at h
      · cases h
        exact .moves hbefore (.loadingStaticData execution) ⟨nofun, nofun⟩
      · cases h
        exact .moves hbefore (.gettingBase execution) ⟨nofun, nofun⟩
    · cases h
  | loadingStaticData execution =>
    have hbefore : beforeRun call.point := by
      rw [hpoint]
      exact ⟨nofun, nofun⟩
    simp only [hpoint] at h
    split at h
    · cases h
      exact .ends hbefore.1 _
    · cases h
      exact .ends hbefore.1 _
    · cases h
      exact .moves hbefore (.gettingBase execution) ⟨nofun, nofun⟩
    · cases h
  | runningHook =>
    have hbefore : beforeRun call.point := by
      rw [hpoint]
      exact ⟨nofun, nofun⟩
    simp only [hpoint] at h
    split at h
    · cases h
      exact .ends hbefore.1 _
    · cases h
      exact .ends hbefore.1 _
    · cases h
  | progressing =>
    have hne : call.point ≠ .awaitingRun := by
      rw [hpoint]
      nofun
    simp only [hpoint] at h
    split at h
    · cases h
      exact .ends hne _
    · cases h
      exact .ends hne _
    · cases h

section Calls

theorem mem_moveTo {c : JobCall} {point : JobPoint} (h : c ∈ (s.moveTo call point).calls) :
    (∃ old ∈ s.calls, old.number = call.number ∧ c = { old with point }) ∨
      c ∈ s.calls ∧ c.number ≠ call.number :=
  mem_map_ite.mp h

theorem mem_moveTo_of_ne {c : JobCall} {point : JobPoint} (h : c ∈ s.calls)
    (hne : c.number ≠ call.number) : c ∈ (s.moveTo call point).calls :=
  mem_map_ite.mpr (.inr ⟨h, hne⟩)

theorem mem_finish {c : JobCall} {result : JobResult} :
    c ∈ (s.finish call result).calls ↔ c ∈ s.calls ∧ c.number ≠ call.number := by
  rw [finish, List.mem_filter, decide_eq_true_iff]

theorem map_number_moveTo (s : JobProcessor) (call : JobCall) (point : JobPoint) :
    (s.moveTo call point).calls.map JobCall.number = s.calls.map JobCall.number :=
  map_map_ite fun _ => rfl

end Calls

/-- What the events keep: each registered run is that of a call that awaits it. -/
structure Invariant (s : JobProcessor) : Prop where
  awaited : ∀ jobId run, s.runningJobs.get? jobId = some run →
    run ∈ s.started ∧ run ∉ s.settled ∧
      ∃ call ∈ s.calls, call.number = run ∧ call.jobId = jobId ∧ call.point = .awaitingRun
  numbers : (s.calls.map JobCall.number).Nodup
  fresh : ∀ call ∈ s.calls, call.number < s.received
  unstarted : ∀ call ∈ s.calls, beforeRun call.point → call.number ∉ s.started
  awaiting : ∀ call ∈ s.calls, call.point = .awaitingRun → call.number ∈ s.started
  started_received : ∀ run ∈ s.started, run < s.received
  settled_started : ∀ run ∈ s.settled, run ∈ s.started
  cancels : ∀ run ∈ s.stopRequested, run ∈ s.started → run ∈ s.cancelled

section Invariant

theorem Invariant.eq_of_number (h : Invariant s) {c c' : JobCall} (hc : c ∈ s.calls)
    (hc' : c' ∈ s.calls) (hnumber : c.number = c'.number) : c = c' :=
  List.inj_on_of_nodup_map h.numbers hc hc' hnumber

theorem initial_invariant : Invariant initial where
  awaited _ _ h := by cases h
  numbers := List.nodup_nil
  fresh _ hmem := absurd hmem List.not_mem_nil
  unstarted _ hmem := absurd hmem List.not_mem_nil
  awaiting _ hmem := absurd hmem List.not_mem_nil
  started_received _ hmem := absurd hmem List.not_mem_nil
  settled_started _ hmem := absurd hmem List.not_mem_nil
  cancels _ hmem := absurd hmem List.not_mem_nil

theorem Invariant.processJob (h : Invariant s) (jobId : JobId) (loadStaticData : Bool) :
    Invariant (s.processJob jobId loadStaticData) where
  awaited jobId run hget := by
    obtain ⟨hstarted, hsettled, c, hc, hcall⟩ := h.awaited jobId run hget
    exact ⟨hstarted, hsettled, c, List.mem_append_left _ hc, hcall⟩
  numbers := by
    rw [JobProcessor.processJob, List.map_append]
    refine h.numbers.append (List.nodup_singleton _) fun number hold hnew => ?_
    obtain ⟨c, hc, rfl⟩ := List.mem_map.mp hold
    exact Nat.ne_of_lt (h.fresh c hc) (List.mem_singleton.mp hnew)
  fresh c hc := by
    obtain hc | hc := List.mem_append.mp hc
    · exact Nat.lt_succ_of_lt (h.fresh c hc)
    · cases List.mem_singleton.mp hc
      exact Nat.lt_succ_self _
  unstarted c hc hbefore hstarted := by
    obtain hc | hc := List.mem_append.mp hc
    · exact h.unstarted c hc hbefore hstarted
    · cases List.mem_singleton.mp hc
      exact Nat.lt_irrefl _ (h.started_received _ hstarted)
  awaiting c hc hpoint := by
    obtain hc | hc := List.mem_append.mp hc
    · exact h.awaiting c hc hpoint
    · cases List.mem_singleton.mp hc
      cases hpoint
  started_received run hrun := Nat.lt_succ_of_lt (h.started_received run hrun)
  settled_started := h.settled_started
  cancels := h.cancels

theorem Invariant.finish (h : Invariant s) (hcall : call ∈ s.calls)
    (hpoint : call.point ≠ .awaitingRun) (result : JobResult) :
    Invariant (s.finish call result) where
  awaited jobId run hget := by
    obtain ⟨hstarted, hsettled, c, hc, hnumber, hjob, hawaits⟩ := h.awaited jobId run hget
    refine ⟨hstarted, hsettled, c, mem_finish.mpr ⟨hc, fun heq => ?_⟩, hnumber, hjob, hawaits⟩
    exact hpoint (h.eq_of_number hc hcall heq ▸ hawaits)
  numbers := h.numbers.sublist (List.filter_sublist.map JobCall.number)
  fresh c hc := h.fresh c (mem_finish.mp hc).1
  unstarted c hc := h.unstarted c (mem_finish.mp hc).1
  awaiting c hc := h.awaiting c (mem_finish.mp hc).1
  started_received := h.started_received
  settled_started := h.settled_started
  cancels := h.cancels

theorem Invariant.moveTo (h : Invariant s) (hcall : call ∈ s.calls) (hbefore : beforeRun call.point)
    {point : JobPoint} (hpoint : beforeRun point) : Invariant (s.moveTo call point) where
  awaited jobId run hget := by
    obtain ⟨hstarted, hsettled, c, hc, hnumber, hjob, hawaits⟩ := h.awaited jobId run hget
    refine ⟨hstarted, hsettled, c, mem_moveTo_of_ne hc fun heq => ?_, hnumber, hjob, hawaits⟩
    exact hbefore.1 (h.eq_of_number hc hcall heq ▸ hawaits)
  numbers := by
    rw [map_number_moveTo]
    exact h.numbers
  fresh c hc := by
    obtain ⟨old, hold, -, rfl⟩ | ⟨hc, -⟩ := mem_moveTo hc
    · exact h.fresh old hold
    · exact h.fresh c hc
  unstarted c hc hpoint := by
    obtain ⟨old, hold, hnumber, rfl⟩ | ⟨hc, -⟩ := mem_moveTo hc
    · cases h.eq_of_number hold hcall hnumber
      exact h.unstarted call hcall hbefore
    · exact h.unstarted c hc hpoint
  awaiting c hc hawaits := by
    obtain ⟨old, -, -, rfl⟩ | ⟨hc, -⟩ := mem_moveTo hc
    · exact absurd hawaits hpoint.1
    · exact h.awaiting c hc hawaits
  started_received := h.started_received
  settled_started := h.settled_started
  cancels := h.cancels

theorem Invariant.register (h : Invariant s) (hcall : call ∈ s.calls)
    (hbefore : beforeRun call.point) (hstop : call.number ∉ s.stopRequested) :
    Invariant (s.register call) where
  awaited jobId run hget := by
    change (s.runningJobs.set call.jobId call.number).get? jobId = some run at hget
    rw [InsertionMap.get_set] at hget
    split at hget
    · rename_i hjob
      cases hget
      refine ⟨List.mem_append_right _ (List.mem_singleton_self _), fun hsettled => ?_,
        { call with point := .awaitingRun }, ?_, rfl, hjob.symm, rfl⟩
      · exact h.unstarted call hcall hbefore (h.settled_started _ hsettled)
      · exact List.mem_map.mpr ⟨call, hcall, if_pos rfl⟩
    · obtain ⟨hstarted, hsettled, c, hc, hnumber, hjob, hawaits⟩ := h.awaited jobId run hget
      refine ⟨List.mem_append_left _ hstarted, hsettled, c, mem_moveTo_of_ne hc fun heq => ?_,
        hnumber, hjob, hawaits⟩
      exact hbefore.1 (h.eq_of_number hc hcall heq ▸ hawaits)
  numbers := by
    rw [JobProcessor.register, map_number_moveTo]
    exact h.numbers
  fresh c hc := by
    obtain ⟨old, hold, -, rfl⟩ | ⟨hc, -⟩ := mem_moveTo hc
    · exact h.fresh old hold
    · exact h.fresh c hc
  unstarted c hc hpoint hstarted := by
    obtain ⟨old, hold, hnumber, rfl⟩ | ⟨hc, hne⟩ := mem_moveTo hc
    · exact hpoint.1 rfl
    · obtain hstarted | hstarted := List.mem_append.mp hstarted
      · exact h.unstarted c hc hpoint hstarted
      · exact hne (List.mem_singleton.mp hstarted)
  awaiting c hc hawaits := by
    obtain ⟨old, -, hnumber, rfl⟩ | ⟨hc, -⟩ := mem_moveTo hc
    · exact List.mem_append_right _ (List.mem_singleton.mpr hnumber)
    · exact List.mem_append_left _ (h.awaiting c hc hawaits)
  started_received run hrun := by
    obtain hrun | hrun := List.mem_append.mp hrun
    · exact h.started_received run hrun
    · cases List.mem_singleton.mp hrun
      exact h.fresh call hcall
  settled_started run hrun := List.mem_append_left _ (h.settled_started run hrun)
  cancels run hrun hstarted := by
    obtain hstarted | hstarted := List.mem_append.mp hstarted
    · exact h.cancels run hrun hstarted
    · cases List.mem_singleton.mp hstarted
      exact absurd hrun hstop

theorem Invariant.resolve (h : Invariant s) (hcall : call ∈ s.calls)
    (hpoint : call.point = .awaitingRun) :
    Invariant (({ s with
        settled := s.settled ++ [call.number]
        runningJobs := s.runningJobs.delete call.jobId } : JobProcessor).moveTo call
      .progressing) where
  awaited jobId run hget := by
    change (s.runningJobs.delete call.jobId).get? jobId = some run at hget
    rw [InsertionMap.get_delete] at hget
    split at hget
    · cases hget
    · rename_i hother
      obtain ⟨hstarted, hsettled, c, hc, hnumber, hjob, hawaits⟩ := h.awaited jobId run hget
      -- the call that resolves has another job, so it is another call
      have hne : c.number ≠ call.number := fun heq =>
        hother (hjob.symm.trans (congrArg JobCall.jobId (h.eq_of_number hc hcall heq)))
      refine ⟨hstarted, fun hmem => ?_, c, mem_moveTo_of_ne hc hne, hnumber, hjob, hawaits⟩
      obtain hmem | hmem := List.mem_append.mp hmem
      · exact hsettled hmem
      · exact hne (hnumber.trans (List.mem_singleton.mp hmem))
  numbers := by
    rw [map_number_moveTo]
    exact h.numbers
  fresh c hc := by
    obtain ⟨old, hold, -, rfl⟩ | ⟨hc, -⟩ := mem_moveTo hc
    · exact h.fresh old hold
    · exact h.fresh c hc
  unstarted c hc hbefore := by
    obtain ⟨old, hold, -, rfl⟩ | ⟨hc, -⟩ := mem_moveTo hc
    · exact absurd rfl hbefore.2
    · exact h.unstarted c hc hbefore
  awaiting c hc hawaits := by
    obtain ⟨old, -, -, rfl⟩ | ⟨hc, -⟩ := mem_moveTo hc
    · cases hawaits
    · exact h.awaiting c hc hawaits
  started_received := h.started_received
  settled_started run hrun := by
    obtain hrun | hrun := List.mem_append.mp hrun
    · exact h.settled_started run hrun
    · cases List.mem_singleton.mp hrun
      exact h.awaiting call hcall hpoint
  cancels := h.cancels

theorem mem_cancel {run other : Nat} (h : run ∈ s.cancelled) : run ∈ s.cancel other := by
  rw [cancel]
  split
  · exact h
  · exact List.mem_append_left _ h

theorem mem_cancel_self {run : Nat} (h : run ∉ s.settled) : run ∈ s.cancel run := by
  rw [cancel]
  split
  · rename_i hor
    exact hor.resolve_left h
  · exact List.mem_append_right _ (List.mem_singleton_self _)

theorem Invariant.stopJob (h : Invariant s) {jobId : JobId}
    (hregistered : ∀ call ∈ s.calls, call.jobId = jobId → call.point = .awaitingRun →
      s.runningJobs.get? jobId = some call.number ∨ call.number ∈ s.cancelled) :
    Invariant (s.stopJob jobId) where
  awaited other run hget := by
    change (s.runningJobs.delete jobId).get? other = some run at hget
    rw [InsertionMap.get_delete] at hget
    split at hget
    · cases hget
    · exact h.awaited other run hget
  numbers := h.numbers
  fresh := h.fresh
  unstarted := h.unstarted
  awaiting := h.awaiting
  started_received := h.started_received
  settled_started := h.settled_started
  cancels run hrun hstarted := by
    have hkept : ∀ run ∈ s.cancelled,
        run ∈ ((s.runningJobs.get? jobId).map s.cancel).getD s.cancelled := by
      intro run hmem
      cases s.runningJobs.get? jobId with
      | none => exact hmem
      | some registered => exact mem_cancel hmem
    obtain hrun | hrun := List.mem_append.mp hrun
    · exact hkept run (h.cancels run hrun hstarted)
    · obtain ⟨call, hcall, rfl⟩ := List.mem_map.mp hrun
      rw [List.mem_filter, decide_eq_true_iff] at hcall
      obtain ⟨hcall, hjob, hunsettled⟩ := hcall
      -- a run that is not awaited has not started
      by_cases hpoint : call.point = .awaitingRun
      · obtain hget | hcancelled := hregistered call hcall hjob hpoint
        · show call.number ∈ ((s.runningJobs.get? jobId).map s.cancel).getD s.cancelled
          rw [hget]
          exact mem_cancel_self (h.awaited jobId _ hget).2.1
        · exact hkept _ hcancelled
      · exact absurd hstarted (h.unstarted call hcall ⟨hpoint, hunsettled⟩)

theorem Invariant.withShutdown (h : Invariant s) (shutdown : WorkerShutdown) :
    Invariant { s with shutdown } :=
  ⟨h.awaited, h.numbers, h.fresh, h.unstarted, h.awaiting, h.started_received, h.settled_started,
    h.cancels⟩

theorem Invariant.poll (h : Invariant s) : Invariant s.poll := by
  rw [JobProcessor.poll]
  split
  · exact h.withShutdown .waiting
  · exact h.withShutdown .ended

theorem Invariant.step {event : WorkerEvent} (h : Invariant s) (hallowed : s.undisturbed event)
    (hstep : s.step event = some s') : Invariant s' := by
  cases event with
  | processJob jobId loadStaticData =>
    cases hstep
    exact h.processJob jobId loadStaticData
  | resume number reply =>
    obtain ⟨call, hfind, hresume⟩ := Option.bind_eq_some_iff.mp hstep
    have hcall := List.mem_of_find?_eq_some hfind
    have hnumber : call.number = number := by simpa using List.find?_some hfind
    obtain ⟨hresolves, hstop⟩ := hallowed call hcall hnumber
    cases resumed_of_resume hresume with
    | ends hpoint result => exact h.finish hcall hpoint result
    | moves hbefore point hpoint => exact h.moveTo hcall hbefore hpoint
    | starts hbefore => exact h.register hcall hbefore (hnumber ▸ hstop rfl)
    | rejects hpoint => exact absurd rfl (hresolves hpoint)
    | resolves hpoint => exact h.resolve hcall hpoint
  | stopJob jobId =>
    cases hstep
    exact h.stopJob hallowed
  | stopWorker =>
    rw [JobProcessor.step] at hstep
    split at hstep
    · cases hstep
      exact h.withShutdown .pausingQueue
    · cases hstep
  | queuePaused =>
    rw [JobProcessor.step] at hstep
    split at hstep
    · cases hstep
      exact h.poll
    · cases hstep
  | poll =>
    rw [JobProcessor.step] at hstep
    split at hstep
    · cases hstep
      exact h.poll
    · cases hstep

theorem Invariant.exact (h : Invariant s) : s.Exact where
  running jobId run hget := ⟨(h.awaited jobId run hget).1, (h.awaited jobId run hget).2.1⟩
  waitEnds _ hsettled := by
    have hempty : s.getRunningJobIds = [] := by
      refine List.eq_nil_iff_forall_not_mem.mpr fun jobId hmem => ?_
      obtain ⟨run, hget⟩ := InsertionMap.mem_keys_iff.mp hmem
      obtain ⟨hstarted, hunsettled, -⟩ := h.awaited jobId run hget
      exact hunsettled (hsettled run hstarted)
    rw [JobProcessor.poll, hempty]
    rfl
  cancels := h.cancels

end Invariant

/-- In every run in which no awaited run rejects and no stop request comes before a run is
registered, the registry is exact. -/
theorem registry_exact (h : Reachable step undisturbed initial s) : s.Exact :=
  (h.keeps Invariant initial_invariant fun _ _ _ hs hallowed hstep =>
    hs.step hallowed hstep).exact

theorem not_exact_of_rejected (hget : s.runningJobs.get? call.jobId = some call.number) :
    ¬ (({ s with settled := s.settled ++ [call.number] } : JobProcessor).finish call
      .thrown).Exact := by
  intro h
  exact (h.running call.jobId call.number hget).2
    (List.mem_append_right _ (List.mem_singleton_self _))

/-- The replies that lead a call to the start of its run. -/
def startRun (number : Nat) : List WorkerEvent :=
  [.resume number (.execution (some ⟨.new, true⟩)), .resume number .setRunning,
    .resume number (.base .started)]

/-- Of two jobs that run, one is stopped; the worker stops after both runs. -/
theorem stopped_job_exact : ∃ s, Reachable step undisturbed initial s ∧ s.Exact ∧
    s.cancelled = [0] ∧ s.shutdown = .ended ∧ s.results = [(0, .success), (1, .success)] := by
  obtain ⟨s, hs, hlists⟩ : ∃ s,
      runAllowed step undisturbed initial
        ([.processJob 7 false, .processJob 8 false] ++ startRun 0 ++ startRun 1 ++
          [.stopJob 7, .stopWorker, .queuePaused, .resume 0 .runResolved, .resume 0 .progressed,
            .poll, .resume 1 .runResolved, .poll, .resume 1 .progressed]) = some s ∧
      (s.cancelled, s.shutdown, s.results) = ([0], .ended, [(0, .success), (1, .success)]) := by
    refine Option.map_eq_some_iff.mp ?_
    decide +kernel
  simp only [Prod.mk.injEq] at hlists
  have hreach := reachable_of_runAllowed .start hs
  exact ⟨s, hreach, registry_exact hreach, hlists⟩

/-- A request to stop a job that arrives while its execution is being set up cancels nothing. -/
theorem early_stop_cancels_nothing :
    ¬ ∀ s, Reachable step (fun _ _ => True) initial s → s.Exact := by
  intro h
  obtain ⟨s, hs, hlists⟩ : ∃ s,
      run step initial
        ([.processJob 7 false, .resume 0 (.execution (some ⟨.new, true⟩)), .stopJob 7,
          .resume 0 .setRunning, .resume 0 (.base .started), .resume 0 .runResolved]) = some s ∧
      (s.stopRequested, s.started, s.cancelled) = ([0], [0], []) := by
    refine Option.map_eq_some_iff.mp ?_
    decide +kernel
  simp only [Prod.mk.injEq] at hlists
  obtain ⟨hrequested, hstarted, hcancelled⟩ := hlists
  have hmem := (h s (reachable_of_run hs)).cancels 0 (by rw [hrequested]; exact .head _)
    (by rw [hstarted]; exact .head _)
  rw [hcancelled] at hmem
  exact List.not_mem_nil hmem

end JobProcessor

end N8n.Scaling
