import N8n.Execution.Status
import N8n.Transition.Runs

/-!
# What queue recovery marks as crashed

A pass reads the database first and the queue afterwards, and marks what it found without looking
again. It is right about the executions that it marks as long as those without a job were left
behind when it reads the queue and stay so. It marks nothing when the queue is empty.
-/

namespace N8n.Scaling

open Transition

/-! ## Queue recovery

`recoverFromQueue` of `packages/cli/src/scaling/scaling.service.ts` compares the executions that the
database stores as in progress with the jobs in the queue, while main processes create and enqueue
executions and workers process them. The database and the queue execute one command after the
other, in any order that the processes allow.
-/

/-- A stored execution. -/
structure StoredExecution where
  status : ExecutionStatus := .new
  startedAt : Option Nat := none
  /-- The main process that created the execution has not added its job yet. -/
  enqueueing : Bool := true
  /-- The number of recovery passes that were completed before the execution was created. -/
  createdAfter : Nat
  deriving DecidableEq, Repr

/-- The job statuses that a recovery pass asks for. -/
inductive JobStatus where
  | waiting
  | active
  deriving DecidableEq, Repr

/-- A job in the queue. -/
structure Job where
  executionId : Nat
  status : JobStatus := .waiting
  deriving DecidableEq, Repr

/-- What a pass of `recoverFromQueue` awaits. -/
inductive RecoveryPass where
  | idle
  /-- `getInProgressExecutionIds`. -/
  | gettingIds
  /-- `findJobsByStatus`. -/
  | findingJobs (storedIds : List Nat)
  /-- `markAsCrashed`. -/
  | marking (danglingIds : List Nat)
  deriving DecidableEq, Repr

/-- The database, the queue and the recovery. The id of an execution is its position. -/
structure ScalingState where
  executions : List StoredExecution := []
  queue : List Job := []
  pass : RecoveryPass := .idle
  /-- The number of completed passes. -/
  passes : Nat := 0

/-- What the processes do. -/
inductive ScalingEvent where
  /-- A main process stores a new execution. -/
  | createNewExecution
  /-- A main process adds the job of an execution that it created. -/
  | addJob (executionId : Nat)
  /-- Adding the job fails, and `processError` stores the error. -/
  | failToAddJob (executionId : Nat)
  /-- The main process ends before it adds the job. -/
  | exitBeforeAddJob (executionId : Nat)
  /-- A worker takes a waiting job. -/
  | pickUp (executionId : Nat)
  /-- `processJob` starts the execution of an active job. -/
  | processJob (executionId startedAt : Nat)
  /-- The final status of an execution is stored. -/
  | finish (executionId : Nat) (status : ExecutionStatus)
  /-- A job has completed, failed, stalled too often or was stopped. -/
  | removeJob (executionId : Nat)
  | startPass
  | getIds (storedIds : List Nat)
  | findJobs
  | mark
  /-- A command of the pass fails. -/
  | failPass
  deriving DecidableEq, Repr

namespace ScalingState

variable (s : ScalingState)

/-- The execution is stored as in progress. -/
def isInProgress (executionId : Nat) : Bool :=
  s.executions[executionId]?.any (·.status.isInProgress)

/-- The execution was created but not enqueued yet. -/
def isEnqueueing (executionId : Nat) : Bool :=
  s.executions[executionId]?.any (·.enqueueing)

/-- The execution has a job in the queue. -/
def hasJob (executionId : Nat) : Bool := s.queue.any (·.executionId = executionId)

/-- Change a stored execution. -/
def update (executionId : Nat) (f : StoredExecution → StoredExecution) : ScalingState :=
  { s with executions := s.executions.modify executionId f }

section Processes

/-- `createNewExecution(...)`. -/
def createNewExecution : ScalingState :=
  let execution : StoredExecution := { createdAfter := s.passes }
  { s with executions := s.executions ++ [execution] }

/-- What happens to the execution that a main process is about to enqueue. -/
def endEnqueueing (executionId : Nat) (f : StoredExecution → StoredExecution) :
    Option ScalingState :=
  if s.isEnqueueing executionId then
    some (s.update executionId fun execution => { f execution with enqueueing := false })
  else none

/-- `addJob(...)` in `enqueueExecution`. -/
def addJob (executionId : Nat) : Option ScalingState :=
  (s.endEnqueueing executionId id).map fun s =>
    { s with queue := s.queue ++ [{ executionId := executionId }] }

/-- A worker takes the job of an execution. -/
def pickUp (executionId : Nat) : Option ScalingState :=
  if s.queue.any fun job => job.executionId = executionId && job.status = .waiting then
    some { s with queue := s.queue.map fun job =>
      if job.executionId = executionId then { job with status := .active } else job }
  else none

/-- `processJob(job)` up to `setRunning`. -/
def processJob (executionId startedAt : Nat) : Option ScalingState :=
  if s.queue.any fun job => job.executionId = executionId && job.status = .active then
    match s.executions[executionId]? with
    | none => none
    | some execution =>
      if execution.status = .crashed then some s
      else
        some (s.update executionId fun execution =>
          { execution with status := .running, startedAt := some startedAt })
  else none

end Processes

section Recovery

/-- The pass ends. -/
def endPass : ScalingState := { s with pass := .idle, passes := s.passes + 1 }

/-- The first execution was not started later than the second, if both were started. -/
def startedNoLater (executionId executionId' : Nat) : Bool :=
  match s.executions[executionId]?.bind (·.startedAt),
    s.executions[executionId']?.bind (·.startedAt) with
  | some startedAt, some startedAt' => startedAt ≤ startedAt'
  | _, _ => true

/-- The ids are an answer to the query of `getInProgressExecutionIds`: the executions in progress
that were started last, and all of them if they are fewer than `batchSize`. Databases differ in
where they order executions that were not started. -/
def IsAnswer (batchSize : Nat) (storedIds : List Nat) : Prop :=
  storedIds.Nodup ∧ storedIds.length ≤ batchSize ∧ (∀ id ∈ storedIds, s.isInProgress id = true) ∧
  ∀ id ∈ List.range s.executions.length, s.isInProgress id = true → id ∉ storedIds →
    storedIds.length = batchSize ∧ ∀ id' ∈ storedIds, s.startedNoLater id id' = true

instance (batchSize : Nat) (storedIds : List Nat) : Decidable (s.IsAnswer batchSize storedIds) :=
  inferInstanceAs (Decidable (_ ∧ _ ∧ (∀ id ∈ storedIds, _) ∧
    ∀ id ∈ List.range s.executions.length, _ → _ → _ ∧ ∀ id' ∈ storedIds, _))

/-- `recoverFromQueue()` after `getInProgressExecutionIds`. -/
def getIds (storedIds : List Nat) : ScalingState :=
  if storedIds.length = 0 then s.endPass else { s with pass := .findingJobs storedIds }

/-- `recoverFromQueue()` after `findJobsByStatus`. -/
def findJobs (storedIds : List Nat) : ScalingState :=
  let queuedIds := s.queue.map (·.executionId)
  if queuedIds.length = 0 then s.endPass
  else
    let danglingIds := storedIds.filter (· ∉ queuedIds)
    if danglingIds.length = 0 then s.endPass else { s with pass := .marking danglingIds }

/-- `markAsCrashed(executionIds)`. -/
def markAsCrashed (executionIds : List Nat) : ScalingState :=
  executionIds.foldl (fun s id => s.update id ({ · with status := .crashed })) s

end Recovery

/-- The state after an event. -/
def step (batchSize : Nat) (s : ScalingState) : ScalingEvent → Option ScalingState
  | .createNewExecution => some s.createNewExecution
  | .addJob executionId => s.addJob executionId
  | .failToAddJob executionId => s.endEnqueueing executionId ({ · with status := .error })
  | .exitBeforeAddJob executionId => s.endEnqueueing executionId id
  | .pickUp executionId => s.pickUp executionId
  | .processJob executionId startedAt => s.processJob executionId startedAt
  | .finish executionId status =>
    if status.isInProgress then none
    else some (s.update executionId ({ · with status := status }))
  | .removeJob executionId =>
    some { s with queue := s.queue.filter (·.executionId ≠ executionId) }
  | .startPass => if s.pass = .idle then some { s with pass := .gettingIds } else none
  | .getIds storedIds =>
    if s.pass = .gettingIds ∧ s.IsAnswer batchSize storedIds then some (s.getIds storedIds)
    else none
  | .findJobs =>
    match s.pass with
    | .findingJobs storedIds => some (s.findJobs storedIds)
    | .idle | .gettingIds | .marking _ => none
  | .mark =>
    match s.pass with
    | .marking danglingIds => some (s.markAsCrashed danglingIds).endPass
    | .idle | .gettingIds | .findingJobs _ => none
  | .failPass => if s.pass = .idle then none else some s.endPass

end ScalingState

/-! ## What queue recovery marks as crashed -/

namespace ScalingState

variable {s s' : ScalingState} {e : ScalingEvent} {id : Nat}

/-- The execution was left behind: it is stored as in progress, but it has no job and nobody is
about to add one. -/
def IsDangling (s : ScalingState) (id : Nat) : Prop :=
  s.isInProgress id = true ∧ s.hasJob id = false ∧ s.isEnqueueing id = false

instance (s : ScalingState) (id : Nat) : Decidable (s.IsDangling id) :=
  inferInstanceAs (Decidable (_ ∧ _ ∧ _))

/-- The execution is stored as in progress and was created at least two passes ago. -/
def IsOld (s : ScalingState) (id : Nat) : Prop :=
  s.isInProgress id = true ∧ (s.executions[id]?.any fun x => x.createdAfter + 2 ≤ s.passes) = true

instance (s : ScalingState) (id : Nat) : Decidable (s.IsOld id) :=
  inferInstanceAs (Decidable (_ ∧ _))

/-- The ids that the pass is comparing with the queue. -/
def storedIds (s : ScalingState) : List Nat :=
  match s.pass with
  | .findingJobs storedIds => storedIds
  | .idle | .gettingIds | .marking _ => []

/-- The ids that the pass is about to mark. -/
def danglingIds (s : ScalingState) : List Nat :=
  match s.pass with
  | .marking danglingIds => danglingIds
  | .idle | .gettingIds | .findingJobs _ => []

/-- The execution is marked as crashed, or the pass is about to mark it. -/
def IsMarked (s : ScalingState) (id : Nat) : Prop :=
  (∃ x, s.executions[id]? = some x ∧ x.status = .crashed) ∨ id ∈ s.danglingIds

/-- A pass marks only executions that were left behind, and all old ones in progress when it finds
the queue empty. -/
structure MarksCrashed (s : ScalingState) (e : ScalingEvent) (s' : ScalingState) : Prop where
  only : e = .mark → ∀ id ∈ s.danglingIds, s.IsDangling id
  all : e = .findJobs → s.queue = [] → ∀ id, s.IsOld id → s'.IsMarked id

/-- What a pass reads is true and stays true: when it finds jobs, the stored executions without a
job were left behind, and an execution that it is about to mark does not finish. When it finds none,
no execution in progress is old. -/
def ReadsTruth (s : ScalingState) : ScalingEvent → Prop
  | .findJobs =>
    (s.queue = [] → ∀ id ∈ List.range s.executions.length, ¬ s.IsOld id) ∧
    (s.queue ≠ [] → ∀ id ∈ s.storedIds, s.hasJob id = false → s.IsDangling id)
  | .finish id _ => id ∉ s.danglingIds
  | .createNewExecution | .addJob _ | .failToAddJob _ | .exitBeforeAddJob _ | .pickUp _
  | .processJob _ _ | .removeJob _ | .startPass | .getIds _ | .mark | .failPass => True

instance (s : ScalingState) (e : ScalingEvent) : Decidable (s.ReadsTruth e) :=
  match e with
  | .findJobs => inferInstanceAs (Decidable ((_ → ∀ id ∈ List.range s.executions.length, _) ∧
      (_ → ∀ id ∈ s.storedIds, _ → _)))
  | .finish id _ => inferInstanceAs (Decidable (id ∉ s.danglingIds))
  | .createNewExecution | .addJob _ | .failToAddJob _ | .exitBeforeAddJob _ | .pickUp _
  | .processJob _ _ | .removeJob _ | .startPass | .getIds _ | .mark | .failPass =>
    inferInstanceAs (Decidable True)

section Frame

theorem IsDangling.update (h : s.IsDangling id) {id' : Nat} (f : StoredExecution → StoredExecution)
    (hne : id' ≠ id) : (s.update id' f).IsDangling id := by
  have hget : (s.update id' f).executions[id]? = s.executions[id]? := by
    rw [show (s.update id' f).executions[id]? = _ from List.getElem?_modify ..]
    cases s.executions[id]? with
    | none => rfl
    | some x => exact congrArg some (if_neg hne)
  refine ⟨?_, h.2.1, ?_⟩
  · rw [isInProgress, hget]
    exact h.1
  · rw [isEnqueueing, hget]
    exact h.2.2

theorem lt_of_isInProgress (h : s.isInProgress id = true) : id < s.executions.length := by
  by_contra hge
  rw [isInProgress, List.getElem?_eq_none (Nat.le_of_not_lt hge)] at h
  cases h

theorem IsDangling.createNewExecution (h : s.IsDangling id) :
    s.createNewExecution.IsDangling id := by
  have hlt : id < s.executions.length := lt_of_isInProgress h.1
  have hget : s.createNewExecution.executions[id]? = s.executions[id]? :=
    List.getElem?_append_left hlt
  refine ⟨?_, h.2.1, ?_⟩
  · rw [isInProgress, hget]
    exact h.1
  · rw [isEnqueueing, hget]
    exact h.2.2

theorem IsDangling.endEnqueueing (h : s.IsDangling id) {id' : Nat}
    {f : StoredExecution → StoredExecution} (hstep : s.endEnqueueing id' f = some s') :
    s'.IsDangling id ∧ id' ≠ id := by
  unfold ScalingState.endEnqueueing at hstep
  split at hstep
  · rename_i henqueueing
    cases hstep
    have hne : id' ≠ id := by
      intro heq
      rw [heq, h.2.2] at henqueueing
      cases henqueueing
    exact ⟨h.update _ hne, hne⟩
  · cases hstep

theorem ne_of_any {p : Job → Bool} {id' : Nat} (h : s.IsDangling id)
    (hany : (s.queue.any fun job => job.executionId = id' && p job) = true) : id' ≠ id := by
  intro heq
  obtain ⟨job, hjob, hp⟩ := List.any_eq_true.mp hany
  have hhas : s.hasJob id = true :=
    List.any_eq_true.mpr ⟨job, hjob, heq ▸ (Bool.and_eq_true_iff.mp hp).1⟩
  rw [h.2.1] at hhas
  cases hhas

end Frame

section Runs

theorem pass_endEnqueueing {id' : Nat} {f : StoredExecution → StoredExecution}
    (hstep : s.endEnqueueing id' f = some s') : s'.pass = s.pass := by
  unfold endEnqueueing at hstep
  split at hstep
  · cases hstep
    rfl
  · cases hstep

/-- The executions that the pass is about to mark were left behind. -/
def Truthful (s : ScalingState) : Prop := ∀ id ∈ s.danglingIds, s.IsDangling id

theorem truthful_of_nil (h : s.danglingIds = []) : s.Truthful := by
  intro id hid
  rw [h] at hid
  cases hid

theorem Truthful.keep (h : s.Truthful) (hpass : s'.pass = s.pass)
    (hkeep : ∀ id ∈ s.danglingIds, s.IsDangling id → s'.IsDangling id) : s'.Truthful := by
  intro id hid
  have hid' : id ∈ s.danglingIds := by
    unfold danglingIds at hid ⊢
    rwa [hpass] at hid
  exact hkeep id hid' (h id hid')

theorem hasJob_eq_false (h : id ∉ s.queue.map (·.executionId)) : s.hasJob id = false := by
  rw [hasJob, List.any_eq_false]
  exact fun job hjob heq => h (List.mem_map.mpr ⟨job, hjob, of_decide_eq_true heq⟩)

theorem truthful_findJobs {storedIds : List Nat} (hpass : s.pass = .findingJobs storedIds)
    (htruth : s.ReadsTruth .findJobs) : (s.findJobs storedIds).Truthful := by
  unfold findJobs
  dsimp only
  split
  · exact truthful_of_nil rfl
  · rename_i hqueue
    split
    · exact truthful_of_nil rfl
    · intro id hid
      have hid : id ∈ storedIds.filter (· ∉ s.queue.map (·.executionId)) := hid
      obtain ⟨hstored, hnot⟩ := List.mem_filter.mp hid
      have hmem : id ∈ s.storedIds := by
        unfold ScalingState.storedIds
        rwa [hpass]
      have hne : s.queue ≠ [] := fun heq => hqueue (by rw [heq]; rfl)
      exact htruth.2 hne id hmem (hasJob_eq_false (of_decide_eq_true hnot))

theorem Truthful.step {batchSize : Nat} (h : s.Truthful) (htruth : s.ReadsTruth e)
    (hstep : s.step batchSize e = some s') : s'.Truthful := by
  cases e with
  | createNewExecution =>
    cases hstep
    exact h.keep rfl fun id _ hid => hid.createNewExecution
  | addJob id' =>
    obtain ⟨s₁, hs₁, rfl⟩ := Option.map_eq_some_iff.mp hstep
    have hpass : s₁.pass = s.pass := pass_endEnqueueing hs₁
    refine h.keep hpass fun id _ hid => ?_
    obtain ⟨hid₁, hne⟩ := hid.endEnqueueing hs₁
    refine ⟨hid₁.1, ?_, hid₁.2.2⟩
    rw [hasJob, List.any_append, Bool.or_eq_false_iff]
    refine ⟨hid₁.2.1, ?_⟩
    rw [List.any_cons, List.any_nil, Bool.or_false]
    exact decide_eq_false hne
  | failToAddJob id' =>
    exact h.keep (pass_endEnqueueing hstep) fun id _ hid => (hid.endEnqueueing hstep).1
  | exitBeforeAddJob id' =>
    exact h.keep (pass_endEnqueueing hstep) fun id _ hid => (hid.endEnqueueing hstep).1
  | pickUp id' =>
    simp only [ScalingState.step, pickUp] at hstep
    split at hstep
    · cases hstep
      refine h.keep rfl fun id _ hid => ⟨hid.1, ?_, hid.2.2⟩
      rw [← hid.2.1, hasJob, hasJob, List.any_map]
      congr 1
      funext job
      show decide ((if job.executionId = id' then _ else job).executionId = id) = _
      split <;> rfl
    · cases hstep
  | processJob id' startedAt =>
    simp only [ScalingState.step, processJob] at hstep
    split at hstep
    · rename_i hany
      split at hstep
      · cases hstep
      · split at hstep
        · cases hstep
          exact h
        · cases hstep
          exact h.keep rfl fun id _ hid => hid.update _ (ne_of_any hid hany)
    · cases hstep
  | finish id' status =>
    simp only [ScalingState.step] at hstep
    split at hstep
    · cases hstep
    · cases hstep
      refine h.keep rfl fun id hmem hid => hid.update _ fun heq => ?_
      exact htruth (heq ▸ hmem)
  | removeJob id' =>
    cases hstep
    refine h.keep rfl fun id _ hid => ⟨hid.1, ?_, hid.2.2⟩
    have hnone := hid.2.1
    rw [hasJob, List.any_eq_false] at hnone ⊢
    exact fun job hjob => hnone job (List.mem_of_mem_filter hjob)
  | startPass =>
    simp only [ScalingState.step] at hstep
    split at hstep
    · cases hstep
      exact truthful_of_nil rfl
    · cases hstep
  | getIds storedIds =>
    simp only [ScalingState.step] at hstep
    split at hstep
    · cases hstep
      apply truthful_of_nil
      unfold getIds
      split <;> rfl
    · cases hstep
  | findJobs =>
    simp only [ScalingState.step] at hstep
    split at hstep
    · rename_i storedIds hpass
      cases hstep
      exact truthful_findJobs hpass htruth
    · cases hstep
    · cases hstep
    · cases hstep
  | mark =>
    simp only [ScalingState.step] at hstep
    split at hstep
    · cases hstep
      exact truthful_of_nil rfl
    · cases hstep
    · cases hstep
    · cases hstep
  | failPass =>
    simp only [ScalingState.step] at hstep
    split at hstep
    · cases hstep
    · cases hstep
      exact truthful_of_nil rfl

theorem findJobs_empty (storedIds : List Nat) (h : s.queue = []) :
    s.findJobs storedIds = s.endPass := by
  unfold findJobs
  rw [h]
  rfl

/-- In a run in which passes read the truth and it stays true, they mark only executions that were
left behind, and all old ones when the queue is empty. -/
theorem marks_crashed (batchSize : Nat) (s s' : ScalingState) (e : ScalingEvent)
    (h : Reachable (step batchSize) ReadsTruth {} s) (htruth : s.ReadsTruth e)
    (hstep : s.step batchSize e = some s') : MarksCrashed s e s' := by
  have htruthful : s.Truthful :=
    h.keeps Truthful (truthful_of_nil rfl) fun s e s' hs htruth hstep => hs.step htruth hstep
  constructor
  · exact fun _ => htruthful
  · intro he hqueue id hold
    subst he
    exact absurd hold (htruth.1 hqueue id (List.mem_range.mpr (lt_of_isInProgress hold.1)))

/-- An execution that was processed by a worker which ended is left behind, and another one is in
the queue. -/
def leftBehind : List ScalingEvent :=
  [.createNewExecution, .addJob 0, .pickUp 0, .processJob 0 1, .removeJob 0, .createNewExecution,
    .addJob 1, .startPass, .getIds [0, 1], .findJobs]

/-- It is marked. -/
theorem marks_crashed_leftBehind :
    ∃ s s', runAllowed (step 100) ReadsTruth {} leftBehind = some s ∧ s.step 100 .mark = some s' ∧
      MarksCrashed s .mark s' := by
  have hrun : (runAllowed (step 100) ReadsTruth {} leftBehind).any fun s =>
      (s.step 100 .mark).isSome := by decide +kernel
  obtain ⟨s, hs, hstep⟩ := (Option.any_eq_true _ _).mp hrun
  obtain ⟨s', hs'⟩ := Option.isSome_iff_exists.mp hstep
  exact ⟨s, s', hs, hs',
    marks_crashed 100 s s' .mark (reachable_of_runAllowed .start hs) trivial hs'⟩

/-- The pass reads the ids when an execution was created, and the queue before its job is added. -/
def enqueuedMeanwhile : List ScalingEvent :=
  [.createNewExecution, .addJob 0, .createNewExecution, .startPass, .getIds [0, 1], .findJobs,
    .addJob 1]

/-- An execution with a job is marked as crashed. -/
theorem marks_enqueued : ¬ ∀ (batchSize : Nat) (s s' : ScalingState) (e : ScalingEvent),
    Reachable (step batchSize) (fun _ _ => True) {} s → s.step batchSize e = some s' →
    MarksCrashed s e s' := by
  intro hclaim
  have hrun : (run (step 100) {} enqueuedMeanwhile).any fun s =>
      (s.step 100 .mark).isSome = true ∧ 1 ∈ s.danglingIds ∧ s.hasJob 1 = true := by decide +kernel
  obtain ⟨s, hs, h⟩ := (Option.any_eq_true _ _).mp hrun
  obtain ⟨hstep, hmem, hjob⟩ := of_decide_eq_true h
  obtain ⟨s', hs'⟩ := Option.isSome_iff_exists.mp hstep
  have hdangling := (hclaim 100 s s' .mark (reachable_of_run hs) hs').only rfl 1 hmem
  rw [hdangling.2.1] at hjob
  cases hjob

end Runs

end ScalingState

end N8n.Scaling
