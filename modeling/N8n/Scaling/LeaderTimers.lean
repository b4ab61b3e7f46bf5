import N8n.Scaling.MultiMainSetup

/-!
# Timers of the leader

The pruning of executions (`packages/cli/src/services/pruning/executions-pruning.service.ts`) and
the queue recovery of `ScalingService` run on timers of the main instance that is the leader. A pass
of the hard deletion or of the recovery schedules the next one when it ends. The handlers of
leadership events run when `MultiMainSetup` emits them, after it has set the role.
-/

namespace N8n.Scaling

/-- The settings of a main instance, with its rates in milliseconds. -/
structure LeaderConfig where
  pruneData : Bool
  /-- `connectionState.migrated`. -/
  migrated : Bool
  isSingleMain : Bool
  softDeletionRate : Nat
  hardDeletionRate : Nat
  recoveryWait : Nat
  recoveryBatchSize : Nat

inductive TimerKind where
  | softDeletion
  | hardDeletion
  | recovery
  deriving DecidableEq, Repr

/-- A live timer: the interval of the soft deletion or a timeout. -/
structure LeaderTimer where
  id : Nat
  kind : TimerKind
  wait : Nat
  deriving DecidableEq, Repr

/-- What a pass awaits. -/
inductive TimerPass where
  | softDeleting
  | findingSoftDeleted
  | deletingBinaryData (executions : Nat)
  | deletingRows (executions : Nat)
  | gettingInProgressIds
  | findingJobs (stored : Nat)
  | markingAsCrashed (stored : Nat)
  deriving DecidableEq, Repr

/-- What happens to the promise that a pass awaits. -/
inductive PassReply where
  | rejected
  /-- The number of executions found: soft-deleted ones, those in progress, or dangling ones. -/
  | found (executions : Nat)
  | done
  deriving DecidableEq, Repr

/-- What a call of `MultiMainSetup` awaits. -/
inductive LeaderCall where
  | gettingKey
  | settingExpiration
  | settingKey
  deriving DecidableEq, Repr

/-- The reply to a call of `MultiMainSetup`. -/
inductive LeaderReply where
  | rejected
  /-- The key holds the id of this instance. -/
  | own
  | other
  | vacant
  | expirationSet
  | keySet
  | keyTaken
  deriving DecidableEq, Repr

/-- A main instance: its role, the handles that the services keep, the live timers, and the passes
and calls that are suspended. `pruningEnded` and `recoveryEnded` tell that a step-down or a shutdown
was the last thing that happened to the leadership. -/
structure LeaderTimers where
  role : InstanceRole
  handlersRegistered : Bool
  queueSetUp : Bool
  isShuttingDown : Bool
  /-- `stopMain` was called. -/
  stopping : Bool
  pausingQueue : Bool
  softDeletionInterval : Option Nat
  hardDeletionTimeout : Option Nat
  recoveryTimeout : Option Nat
  timers : List LeaderTimer
  nextTimer : Nat
  passes : List TimerPass
  calls : List LeaderCall
  pruningEnded : Bool
  recoveryEnded : Bool
  deriving DecidableEq, Repr

inductive LeaderEvent where
  | registerEventHandlers
  /-- `MultiMainSetup.init`, or `markAsLeader` of a single main. -/
  | initRole
  | setupQueue
  | initPruning
  | checkLeader
  /-- A call of `MultiMainSetup` goes on. -/
  | reply (index : Nat) (reply : LeaderReply)
  /-- A timer fires. -/
  | fire (id : Nat)
  /-- A pass goes on. -/
  | resume (index : Nat) (reply : PassReply)
  /-- The shutdown handler of the pruning. -/
  | shutdownPruning
  /-- The shutdown handler of the scaling service. -/
  | stopMain
  | queuePaused
  deriving DecidableEq, Repr

namespace LeaderTimers

/-- `isLeader` of the instance settings. -/
def isLeader (s : LeaderTimers) : Bool := s.role = .leader

/-- `isEnabled` of the pruning, on a main instance. -/
def isEnabled (config : LeaderConfig) (s : LeaderTimers) : Bool := config.pruneData && s.isLeader

/-- A timer is set. -/
def setTimer (s : LeaderTimers) (kind : TimerKind) (wait : Nat) : LeaderTimers :=
  { s with timers := s.timers ++ [⟨s.nextTimer, kind, wait⟩], nextTimer := s.nextTimer + 1 }

/-- A timer is cleared, if there is one. -/
def clearTimer (s : LeaderTimers) (id : Option Nat) : LeaderTimers :=
  { s with timers := s.timers.filter fun timer => some timer.id ≠ id }

section Pruning

variable (config : LeaderConfig)

def scheduleRollingSoftDeletions (s : LeaderTimers) : LeaderTimers :=
  { s.setTimer .softDeletion config.softDeletionRate with
    softDeletionInterval := some s.nextTimer }

def scheduleNextHardDeletion (s : LeaderTimers) (rate : Nat) : LeaderTimers :=
  { s.setTimer .hardDeletion rate with hardDeletionTimeout := some s.nextTimer }

/-- Start the timers of the pruning, on a leader. -/
def startPruning (s : LeaderTimers) : LeaderTimers :=
  if !s.isEnabled config || !config.migrated || s.isShuttingDown then s
  else (s.scheduleRollingSoftDeletions config).scheduleNextHardDeletion config.hardDeletionRate

/-- Stop the timers of the pruning, on a leader. -/
def stopPruning (s : LeaderTimers) : LeaderTimers :=
  if !s.isEnabled config then s
  else (s.clearTimer s.softDeletionInterval).clearTimer s.hardDeletionTimeout

/-- The delay after a hard deletion of some executions. -/
def nextHardDeletion (executions : Nat) : Nat :=
  if 100 ≤ executions then 1000 else config.hardDeletionRate

end Pruning

section Recovery

variable (config : LeaderConfig)

def scheduleQueueRecovery (s : LeaderTimers) (wait : Nat) : LeaderTimers :=
  { s.setTimer .recovery wait with recoveryTimeout := some s.nextTimer }

def stopQueueRecovery (s : LeaderTimers) : LeaderTimers := s.clearTimer s.recoveryTimeout

/-- The delay after a recovery that marked executions. -/
def nextRecovery (stored : Nat) : Nat :=
  if config.recoveryBatchSize ≤ stored then config.recoveryWait / 2 else config.recoveryWait

end Recovery

section Leadership

variable (config : LeaderConfig)

/-- `leader-takeover` is emitted. -/
def emitTakeover (s : LeaderTimers) : LeaderTimers :=
  if s.handlersRegistered then
    (s.startPruning config).scheduleQueueRecovery config.recoveryWait
  else s

/-- `leader-stepdown` is emitted. -/
def emitStepdown (s : LeaderTimers) : LeaderTimers :=
  if s.handlersRegistered then (s.stopPruning config).stopQueueRecovery else s

def markAsLeader (s : LeaderTimers) : LeaderTimers :=
  { s with role := .leader, pruningEnded := false, recoveryEnded := false }

def markAsFollower (s : LeaderTimers) : LeaderTimers :=
  { s with role := .follower, pruningEnded := true, recoveryEnded := true }

/-- A call of `MultiMainSetup` goes on, up to its next `await`. -/
def onReply (s : LeaderTimers) (index : Nat) (reply : LeaderReply) : Option LeaderTimers :=
  let ended := { s with calls := s.calls.eraseIdx index }
  match s.calls[index]?, reply with
  | some _, .rejected => some ended
  | some .gettingKey, .own => some { s with calls := s.calls.set index .settingExpiration }
  | some .gettingKey, .other =>
    if s.isLeader then some (ended.markAsFollower.emitStepdown config) else some ended
  | some .gettingKey, .vacant =>
    some (({ s with calls := s.calls.set index .settingKey } :
      LeaderTimers).markAsFollower.emitStepdown config)
  | some .settingExpiration, .expirationSet => some ended
  | some .settingKey, .keySet => some (ended.markAsLeader.emitTakeover config)
  | some .settingKey, .keyTaken => some ended.markAsFollower
  | _, _ => none

end Leadership

section Passes

variable (config : LeaderConfig)

/-- A timer fires: a timeout is no longer live, and a pass begins. -/
def onFire (s : LeaderTimers) (timer : LeaderTimer) : LeaderTimers :=
  match timer.kind with
  | .softDeletion => { s with passes := s.passes ++ [.softDeleting] }
  | .hardDeletion =>
    { s.clearTimer (some timer.id) with passes := s.passes ++ [.findingSoftDeleted] }
  | .recovery =>
    { s.clearTimer (some timer.id) with passes := s.passes ++ [.gettingInProgressIds] }

/-- A pass goes on, up to its next `await`. -/
def onPass (s : LeaderTimers) (index : Nat) (reply : PassReply) : Option LeaderTimers :=
  let ended := { s with passes := s.passes.eraseIdx index }
  let goesOn := fun pass => { s with passes := s.passes.set index pass }
  match s.passes[index]?, reply with
  | some .softDeleting, _ => some ended
  | some .findingSoftDeleted, .rejected => some (ended.scheduleNextHardDeletion 1000)
  | some .findingSoftDeleted, .found 0 =>
    some (ended.scheduleNextHardDeletion config.hardDeletionRate)
  | some .findingSoftDeleted, .found executions => some (goesOn (.deletingBinaryData executions))
  | some (.deletingBinaryData executions), .done => some (goesOn (.deletingRows executions))
  | some (.deletingBinaryData executions), .rejected =>
    some (ended.scheduleNextHardDeletion (nextHardDeletion config executions))
  | some (.deletingRows executions), .done =>
    some (ended.scheduleNextHardDeletion (nextHardDeletion config executions))
  | some (.deletingRows executions), .rejected =>
    some (ended.scheduleNextHardDeletion (nextHardDeletion config executions))
  | some .gettingInProgressIds, .rejected =>
    some (ended.scheduleQueueRecovery config.recoveryWait)
  | some .gettingInProgressIds, .found 0 =>
    some (ended.scheduleQueueRecovery config.recoveryWait)
  | some .gettingInProgressIds, .found stored => some (goesOn (.findingJobs stored))
  | some (.findingJobs _), .rejected => some (ended.scheduleQueueRecovery config.recoveryWait)
  | some (.findingJobs _), .found 0 => some (ended.scheduleQueueRecovery config.recoveryWait)
  | some (.findingJobs stored), .found _ => some (goesOn (.markingAsCrashed stored))
  | some (.markingAsCrashed stored), .done =>
    some (ended.scheduleQueueRecovery (nextRecovery config stored))
  | some (.markingAsCrashed _), .rejected =>
    some (ended.scheduleQueueRecovery config.recoveryWait)
  | _, _ => none

end Passes

/-- `stopMain`, once the queue is paused. -/
def stopRecovery (s : LeaderTimers) : LeaderTimers :=
  { s.stopQueueRecovery with pausingQueue := false, recoveryEnded := true }

/-- The state after an event. -/
def step (config : LeaderConfig) (s : LeaderTimers) : LeaderEvent → Option LeaderTimers
  | .registerEventHandlers => some { s with handlersRegistered := true }
  | .initRole =>
    if s.role ≠ .unset then none
    else if config.isSingleMain then some s.markAsLeader
    else some { s with calls := s.calls ++ [.settingKey] }
  | .setupQueue =>
    if s.queueSetUp ∨ s.stopping then none
    else if s.isLeader then
      some ({ s with queueSetUp := true }.scheduleQueueRecovery config.recoveryWait)
    else some { s with queueSetUp := true }
  | .initPruning => if s.isLeader then some (s.startPruning config) else some s
  | .checkLeader =>
    if config.isSingleMain then none else some { s with calls := s.calls ++ [.gettingKey] }
  | .reply index reply => s.onReply config index reply
  | .fire id => (s.timers.find? (·.id = id)).map s.onFire
  | .resume index reply => s.onPass config index reply
  | .shutdownPruning =>
    if s.isShuttingDown then none
    else
      some { ({ s with isShuttingDown := true } : LeaderTimers).stopPruning config with
        pruningEnded := true }
  | .stopMain =>
    if s.stopping then none
    else if config.isSingleMain then some { s with stopping := true, pausingQueue := true }
    else some ({ s with stopping := true } : LeaderTimers).stopRecovery
  | .queuePaused => if s.pausingQueue then some s.stopRecovery else none

/-- An instance that has not decided its role. -/
def initial : LeaderTimers where
  role := .unset
  handlersRegistered := false
  queueSetUp := false
  isShuttingDown := false
  stopping := false
  pausingQueue := false
  softDeletionInterval := none
  hardDeletionTimeout := none
  recoveryTimeout := none
  timers := []
  nextTimer := 0
  passes := []
  calls := []
  pruningEnded := false
  recoveryEnded := false

end LeaderTimers

end N8n.Scaling
