import Mathlib.Logic.Function.Iterate
import Mathlib.Logic.Relation
import N8n.TaskRunners.TaskBroker
import N8n.Transition.Runs

/-!
# The handshake about one task

What the broker and the runner of a session know about one task, and what is under way about it.
`Handshake.Step` lists the moves of the two sides, each on its own knowledge and on the messages.
`Handshake.Sound` is their invariant: the broker and the runner agree on the task as long as no
acceptance comes late.
-/

namespace N8n.TaskRunners

open Collections

/-! ## A task runner and its broker

`TaskRunner` of `packages/@n8n/task-runner/src/task-runner.ts` offers to run as many tasks as it has
slots, reserves a slot when the broker accepts an offer, and runs the task when it gets the
settings. A `Session` is a broker with one registered runner; the messages between the two arrive
in the order in which they were sent, at any later moment.

The requests of a task for data, node types and remote calls, the idle timer and the end of the
connection are left out.
-/

/-- The status of a task that the runner holds. -/
inductive TaskStatus where
  | waitingForSettings
  | running
  | abortingCancelled
  | abortingTimeout
  deriving DecidableEq, Repr

/-- What a runner is constructed with, and the ids and random numbers that it draws. -/
structure TaskRunnerOpts where
  id : String
  taskType : String
  maxConcurrency : Nat
  nanoid : Nat → String
  /-- `randomInt(500)`, below 500. -/
  randomInt : Nat → Nat

/-- The state of the runner, with the time of `process.hrtime` in nanoseconds. -/
structure TaskRunner where
  now : Nat := 0
  canSendOffers : Bool := false
  /-- The open offers, each with its `validUntil`. -/
  openOffers : InsertionMap String Nat := .empty
  runningTasks : InsertionMap Nat TaskStatus := .empty
  /-- How many offers the runner has made. -/
  offered : Nat := 0
  /-- The messages that were sent and have not reached the broker. -/
  toBroker : List RunnerMessage := []

namespace TaskRunner

variable (opts : TaskRunnerOpts) (r : TaskRunner)

/-- `send(message)`. -/
def send (message : RunnerMessage) : TaskRunner := { r with toBroker := r.toBroker ++ [message] }

/-- `deleteStaleOffers()`. -/
def deleteStaleOffers : TaskRunner :=
  { r with openOffers := r.openOffers.filter fun offer => r.now ≤ offer.2 }

/-- One round of the loop of `sendOffers`. -/
def sendOffer : TaskRunner :=
  let validForInMs := 5000 + opts.randomInt r.offered
  let offerId := opts.nanoid r.offered
  send
    { r with
      openOffers := r.openOffers.set offerId (r.now + (validForInMs + 100) * 1000000)
      offered := r.offered + 1 }
    (.taskOffer offerId opts.taskType validForInMs)

/-- `sendOffers()`. -/
def sendOffers : TaskRunner :=
  let r := r.deleteStaleOffers
  if r.canSendOffers then
    let offersToSend :=
      opts.maxConcurrency - (r.openOffers.entries.length + r.runningTasks.entries.length)
    (sendOffer opts)^[offersToSend] r
  else r

/-- `hasOpenTaskSlots()`. -/
def hasOpenTaskSlots : Bool := r.runningTasks.entries.length < opts.maxConcurrency

/-- `offerAccepted(offerId, taskId)`. -/
def offerAccepted (offerId : String) (taskId : Nat) : TaskRunner :=
  if !r.hasOpenTaskSlots opts then
    send { r with openOffers := r.openOffers.delete offerId }
      (.taskRejected taskId "No open task slots - runner already at capacity")
  else if !r.openOffers.has offerId then
    r.send (.taskRejected taskId "Offer expired - not accepted within validity window")
  else
    send
      { r with
        openOffers := r.openOffers.delete offerId
        runningTasks := r.runningTasks.set taskId .waitingForSettings }
      (.taskAccepted taskId)

/-- `finishTask(taskState)`. -/
def finishTask (taskId : Nat) : TaskRunner :=
  sendOffers opts { r with runningTasks := r.runningTasks.delete taskId }

/-- Change the status of a task. -/
def setStatus (taskId : Nat) (status : TaskStatus) : TaskRunner :=
  { r with runningTasks := r.runningTasks.set taskId status }

/-- `taskCancelled(taskId, reason)`. -/
def taskCancelled (taskId : Nat) : TaskRunner :=
  match r.runningTasks.get? taskId with
  | none => r
  | some .waitingForSettings => r.finishTask opts taskId
  | some .running => r.setStatus taskId .abortingCancelled
  | some .abortingCancelled | some .abortingTimeout => r

/-- `taskTimedOut(taskId)`. -/
def taskTimedOut (taskId : Nat) : TaskRunner :=
  match r.runningTasks.get? taskId with
  | none => r
  | some .waitingForSettings => (r.send (.taskError taskId)).finishTask opts taskId
  | some .running => r.setStatus taskId .abortingTimeout
  | some .abortingCancelled | some .abortingTimeout => r

/-- `receivedSettings(taskId, settings)` up to the execution of the task. -/
def receivedSettings (taskId : Nat) : TaskRunner :=
  match r.runningTasks.get? taskId with
  | some .waitingForSettings => r.setStatus taskId .running
  | _ => r

/-- `taskExecutionSucceeded` and `taskExecutionFailed`, with the message that they send. -/
def taskExecutionEnded (message : Nat → RunnerMessage) (taskId : Nat) : TaskRunner :=
  match r.runningTasks.get? taskId with
  | some .running | some .abortingTimeout => (r.send (message taskId)).finishTask opts taskId
  | _ => r.finishTask opts taskId

/-- `taskExecutionSucceeded(taskState, data)`. -/
def taskExecutionSucceeded (taskId : Nat) : TaskRunner :=
  r.taskExecutionEnded opts .taskDone taskId

/-- `taskExecutionFailed(taskState, error)`. -/
def taskExecutionFailed (taskId : Nat) : TaskRunner :=
  r.taskExecutionEnded opts .taskError taskId

/-- `onMessage(message)`. -/
def onMessage : ToRunner → TaskRunner
  | .runnerRegistered => { r with canSendOffers := true }
  | .taskOfferAccept offerId taskId => r.offerAccepted opts offerId taskId
  | .taskCancel taskId _ => r.taskCancelled opts taskId
  | .taskSettings taskId => r.receivedSettings taskId

end TaskRunner

/-- A broker and its runner. -/
structure Session where
  broker : TaskBroker
  runner : TaskRunner := {}
  /-- The messages of the broker that have not reached the runner. -/
  toRunner : List ToRunner := []

/-- What happens in a session. -/
inductive SessionEvent where
  /-- The broker reacts to something else than its runner. -/
  | broker (event : BrokerEvent)
  | toBroker
  | toRunner
  | elapse (duration : Nat)
  /-- The `offerInterval` fires. -/
  | sendOffers
  | stopTaskOffers
  | taskTimedOut (taskId : Nat)
  | taskExecutionSucceeded (taskId : Nat)
  | taskExecutionFailed (taskId : Nat)
  deriving DecidableEq, Repr

/-- The event is none of a runner, whose messages arrive in their order and without failure. -/
def TaskBroker.isLocal (b : TaskBroker) : BrokerEvent → Bool
  | .registerRunner _ | .deregisterRunner _ | .runnerMessage _ _ => false
  | .resumeAttempt taskId ok => ok || !b.attempts[taskId]?.any (·.phase = .messagingRunner)
  | _ => true

namespace Session

variable (mode : TaskRunnerMode) (opts : TaskRunnerOpts) (s : Session)

/-- The broker has reacted, and what it has sent is on its way to the runner. -/
def react (b : TaskBroker) : Session :=
  { s with
    broker := { b with toRunners := [] }
    toRunner := s.toRunner ++ (b.toRunners.filter (·.1 = opts.id)).map (·.2) }

/-- The session after the runner was registered. -/
def start : Session :=
  react opts { broker := {} } (TaskBroker.registerRunner {} opts.id)

/-- The session after an event. -/
def step (s : Session) : SessionEvent → Option Session
  | .broker event =>
    if s.broker.isLocal event then (s.broker.step mode event).map (s.react opts) else none
  | .toBroker =>
    match s.runner.toBroker with
    | [] => none
    | message :: messages =>
      let s := { s with runner := { s.runner with toBroker := messages } }
      (s.broker.step mode (.runnerMessage opts.id message)).map (s.react opts)
  | .toRunner =>
    match s.toRunner with
    | [] => none
    | message :: messages =>
      some { s with runner := s.runner.onMessage opts message, toRunner := messages }
  | .elapse duration => some { s with runner := { s.runner with now := s.runner.now + duration } }
  | .sendOffers => some { s with runner := s.runner.sendOffers opts }
  | .stopTaskOffers => some { s with runner := { s.runner with canSendOffers := false } }
  | .taskTimedOut taskId => some { s with runner := s.runner.taskTimedOut opts taskId }
  | .taskExecutionSucceeded taskId =>
    match s.runner.runningTasks.get? taskId with
    | none | some .waitingForSettings => none
    | some _ => some { s with runner := s.runner.taskExecutionSucceeded opts taskId }
  | .taskExecutionFailed taskId =>
    match s.runner.runningTasks.get? taskId with
    | none | some .waitingForSettings => none
    | some _ => some { s with runner := s.runner.taskExecutionFailed opts taskId }

end Session

/-! ## The handshake about one task -/

/-- The runner holds the task as accepted. -/
def TaskStatus.isAccepted : TaskStatus → Bool
  | .waitingForSettings | .running => true
  | .abortingCancelled | .abortingTimeout => false

/-- What there is about a task on both sides and in between. -/
@[ext] structure Handshake where
  /-- The broker has made an accept attempt. -/
  attempted : Bool
  /-- How often the accepted offer is on its way to the runner. -/
  offers : Nat
  /-- How often the acceptance is on its way to the broker. -/
  acceptances : Nat
  /-- How often a rejection or a deferral is on its way to the broker. -/
  refusals : Nat
  /-- How often the end of the task is on its way to the broker. -/
  ends : Nat
  answer : Option RunnerAnswer
  /-- The attempt has not gone on from the answer yet. -/
  undecided : Bool
  /-- The broker knows the task. -/
  known : Bool
  /-- A handler is about to delete the task. -/
  finishing : Bool
  /-- A handler is about to report a timeout. -/
  timingOut : Bool
  /-- A cancellation is on its way to the runner. -/
  cancelled : Bool
  /-- The runner is to be restarted because of the task. -/
  expired : Bool
  /-- The status of the task, while the runner holds it. -/
  status : Option TaskStatus
  deriving DecidableEq, Repr

namespace Handshake

/-- The runner holds the task as accepted. -/
def accepted (h : Handshake) : Bool := h.status.any TaskStatus.isAccepted

/-- A message or a timeout answers the attempt, unless something has before. -/
def settle (h : Handshake) (answer : RunnerAnswer) : Handshake :=
  { h with answer := if h.answer.isNone then some answer else h.answer }

/-- The moves of the broker and the runner. -/
inductive Step : Handshake → Handshake → Prop where
  | attempt (h : Handshake) (hnew : h.attempted = false) :
      Step h { h with attempted := true, offers := h.offers + 1, answer := none, undecided := true }
  | accept (h : Handshake) {n : Nat} (hoffers : h.offers = n + 1) :
      Step h
        { h with
          offers := n, acceptances := h.acceptances + 1, status := some .waitingForSettings }
  | refuse (h : Handshake) {n : Nat} (hoffers : h.offers = n + 1) :
      Step h { h with offers := n, refusals := h.refusals + 1 }
  | start (h : Handshake) (hstatus : h.status = some .waitingForSettings) :
      Step h { h with status := some .running }
  /-- The runner lets go of the task, and may report its end. -/
  | leave (h : Handshake) (status : Option TaskStatus) (sent : Nat) (hheld : h.status.isSome)
      (hstatus : status.any TaskStatus.isAccepted = false) :
      Step h { h with status := status, ends := h.ends + sent }
  /-- The runner has read a cancellation, and there may be another one. -/
  | cancellationRead (h : Handshake) (cancelled : Bool) (hleft : h.accepted = false) :
      Step h { h with cancelled := cancelled }
  | acceptanceRead (h : Handshake) {n : Nat} (hacceptances : h.acceptances = n + 1)
      (hlate : h.answer = some .timedOut → h.accepted = false) :
      Step h (settle { h with acceptances := n } .accepted)
  | refusalRead (h : Handshake) {n : Nat} (answer : RunnerAnswer) (hrefusals : h.refusals = n + 1) :
      Step h (settle { h with refusals := n } answer)
  | timeOut (h : Handshake) (hattempted : h.attempted) : Step h (h.settle .timedOut)
  | create (h : Handshake) (hundecided : h.undecided) (hanswer : h.answer = some .accepted) :
      Step h { h with undecided := false, known := true }
  | fail (h : Handshake) (hanswer : ∃ answer, h.answer = some answer ∧ answer ≠ .accepted) :
      Step h { h with undecided := false }
  | cancel (h : Handshake) : Step h { h with known := false, cancelled := true }
  | endRead (h : Handshake) {n : Nat} (hends : h.ends = n + 1) :
      Step h { h with ends := n, finishing := h.finishing || h.known }
  /-- The task takes too long, and the runner is restarted. -/
  | restart (h : Handshake) (hknown : h.known) :
      Step h { h with expired := true, finishing := true }
  /-- The task takes too long, and the runner is told to cancel it. -/
  | cancelLate (h : Handshake) (hknown : h.known) :
      Step h { h with cancelled := true, timingOut := true }
  | reportLate (h : Handshake) (timingOut : Bool) (hbefore : h.timingOut) :
      Step h { h with timingOut := timingOut, finishing := h.finishing || h.known }
  | finish (h : Handshake) (finishing : Bool) (hbefore : h.finishing) :
      Step h { h with known := false, finishing := finishing }
  /-- A handler ends early. -/
  | handlerFails (h : Handshake) {finishing timingOut : Bool} (hfinishing : finishing → h.finishing)
      (htimingOut : timingOut → h.timingOut) :
      Step h { h with finishing := finishing, timingOut := timingOut }

/-- The broker and the runner agree on the task: if the runner holds it as accepted, the broker
knows it or something about it is under way. -/
def Agrees (h : Handshake) : Prop :=
  h.accepted → h.known ∨ 0 < h.acceptances ∨ (h.undecided ∧ h.answer = some .accepted) ∨
    0 < h.ends ∨ h.cancelled ∨ h.expired

/-- The invariant of the handshake. -/
structure Sound (h : Handshake) : Prop where
  new : h.attempted = false → h.offers = 0 ∧ h.acceptances = 0 ∧ h.refusals = 0 ∧ h.ends = 0 ∧
    h.undecided = false ∧ h.status = none ∧ h.known = false ∧ h.finishing = false ∧
    h.timingOut = false
  one : h.offers + h.acceptances + h.refusals ≤ 1
  unanswered : 0 < h.offers + h.acceptances + h.refusals →
    h.answer = none ∨ h.answer = some .timedOut
  waiting : h.attempted → h.answer = none → h.undecided
  unread : 0 < h.offers → h.status = none ∧ h.ends = 0
  created : h.known ∨ h.finishing ∨ h.timingOut → h.answer = some .accepted
  ended : 0 < h.ends → h.accepted = false
  finishing : h.finishing → h.accepted → h.cancelled ∨ h.expired
  timingOut : h.timingOut → h.accepted → h.cancelled ∨ h.expired
  agrees : h.accepted → 0 < h.acceptances ∨ (h.undecided ∧ h.answer = some .accepted) ∨ h.known ∨
    h.cancelled ∨ h.expired

variable {h h' : Handshake}

theorem Sound.of_new (hattempted : h.attempted = false) (hoffers : h.offers = 0)
    (hacceptances : h.acceptances = 0) (hrefusals : h.refusals = 0) (hends : h.ends = 0)
    (hundecided : h.undecided = false) (hstatus : h.status = none) (hknown : h.known = false)
    (hfinishing : h.finishing = false) (htimingOut : h.timingOut = false) : h.Sound := by
  have hleft : h.accepted = false := by
    rw [accepted, hstatus]
    rfl
  constructor <;> grind

/-- While the answer of the runner is under way, the broker has not made the task. -/
theorem Sound.not_created (hs : h.Sound) (hopen : 0 < h.offers + h.acceptances + h.refusals) :
    h.known = false ∧ h.finishing = false ∧ h.timingOut = false := by
  have hanswer := hs.unanswered hopen
  have hcreated := hs.created
  grind

theorem Sound.offers_eq_zero (hs : h.Sound) (hheld : h.status.isSome) : h.offers = 0 := by
  by_contra hne
  rw [(hs.unread (Nat.pos_of_ne_zero hne)).1] at hheld
  cases hheld

/-- Every move keeps the invariant: a move concerns the clauses that speak of what it changes. -/
theorem Sound.step (hs : h.Sound) (hstep : h.Step h') : h'.Sound := by
  have ⟨hnew, hone, hunanswered, hwaiting, hunread, hcreated, hended, hfinishing, htimingOut,
    hagrees⟩ := hs
  cases hstep with
  | attempt hattempted =>
    have hnothing := hnew hattempted
    refine
      { hs with
        new := ?_, one := ?_, unanswered := ?_, waiting := ?_, unread := ?_,
        created := ?_, agrees := ?_ } <;>
      grind -ring -linarith [accepted]
  | accept hoffers =>
    -- the broker has not answered itself, so nothing that ends the task has begun
    have hnot := hs.not_created (by omega)
    have hends := (hunread (by omega)).2
    refine
      { hs with
        new := ?_, one := ?_, unanswered := ?_, unread := ?_, ended := ?_,
        finishing := ?_, timingOut := ?_, agrees := ?_ } <;>
      grind -ring -linarith [accepted]
  | refuse hoffers =>
    have hnot := hs.not_created (by omega)
    refine { hs with new := ?_, one := ?_, unanswered := ?_, unread := ?_ } <;>
      grind -ring -linarith
  | start hstatus =>
    have hoffers := hs.offers_eq_zero (by rw [hstatus]; rfl)
    refine
      { hs with
        new := ?_, unread := ?_, ended := ?_, finishing := ?_, timingOut := ?_,
        agrees := ?_ } <;>
      grind -ring -linarith [accepted, TaskStatus.isAccepted]
  | leave status sent hheld hstatus =>
    have hoffers := hs.offers_eq_zero hheld
    refine
      { hs with
        new := ?_, unread := ?_, ended := ?_, finishing := ?_, timingOut := ?_,
        agrees := ?_ } <;>
      grind -ring -linarith [accepted]
  | cancellationRead cancelled hleft =>
    refine { hs with finishing := ?_, timingOut := ?_, agrees := ?_ } <;>
      grind -ring -linarith [accepted]
  | acceptanceRead hacceptances hlate =>
    -- an attempt that is still unanswered is undecided, and a late answer finds the runner done
    have hnot := hs.not_created (by omega)
    have hanswer := hunanswered (by omega)
    refine
      { hs with
        new := ?_, one := ?_, unanswered := ?_, waiting := ?_, created := ?_,
        agrees := ?_ } <;>
      grind -ring -linarith [accepted, settle]
  | refusalRead answer hrefusals =>
    have hnot := hs.not_created (by omega)
    refine
      { hs with
        new := ?_, one := ?_, unanswered := ?_, waiting := ?_, created := ?_,
        agrees := ?_ } <;>
      grind -ring -linarith [accepted, settle]
  | timeOut hattempted =>
    refine
      { hs with unanswered := ?_, waiting := ?_, created := ?_, agrees := ?_ } <;>
      grind -ring -linarith [accepted, settle]
  | create hundecided hanswer =>
    refine { hs with new := ?_, waiting := ?_, created := ?_, agrees := ?_ } <;>
      grind -ring -linarith [accepted]
  | fail hanswer =>
    refine { hs with new := ?_, waiting := ?_, agrees := ?_ } <;> grind -ring -linarith [accepted]
  | cancel =>
    refine
      { hs with new := ?_, created := ?_, finishing := ?_, timingOut := ?_, agrees := ?_ } <;>
      grind -ring -linarith [accepted]
  | endRead hends =>
    have hleft := hended (by omega)
    refine
      { hs with new := ?_, unread := ?_, created := ?_, ended := ?_, finishing := ?_ } <;>
      grind -ring -linarith [accepted]
  | restart hknown =>
    refine
      { hs with new := ?_, created := ?_, finishing := ?_, timingOut := ?_, agrees := ?_ } <;>
      grind -ring -linarith [accepted]
  | cancelLate hknown =>
    refine
      { hs with new := ?_, created := ?_, finishing := ?_, timingOut := ?_, agrees := ?_ } <;>
      grind -ring -linarith [accepted]
  | reportLate timingOut hbefore =>
    refine
      { hs with new := ?_, created := ?_, finishing := ?_, timingOut := ?_ } <;>
      grind -ring -linarith [accepted]
  | finish finishing hbefore =>
    refine
      { hs with new := ?_, created := ?_, finishing := ?_, agrees := ?_ } <;>
      grind -ring -linarith [accepted]
  | handlerFails hfinishing' htimingOut' =>
    refine
      { hs with new := ?_, created := ?_, finishing := ?_, timingOut := ?_ } <;>
      grind -ring -linarith [accepted]

/-- A run of moves. -/
abbrev Steps : Handshake → Handshake → Prop := Relation.ReflTransGen Step

theorem Steps.of_eq (heq : h' = h) : h.Steps h' := by
  rw [heq]

theorem Step.to {h'' : Handshake} (hstep : h.Step h') (heq : h'' = h') : h.Steps h'' := by
  rw [heq]
  exact .single hstep

theorem Sound.steps (hs : h.Sound) (hsteps : h.Steps h') : h'.Sound := by
  induction hsteps with
  | refl => exact hs
  | tail _ hstep ih => exact ih.step hstep

theorem Sound.handshake_agrees (hs : h.Sound) : h.Agrees := by
  intro haccepted
  cases hs.agrees haccepted with
  | inl hacceptance => exact .inr (.inl hacceptance)
  | inr hrest =>
    cases hrest with
    | inl hanswered => exact .inr (.inr (.inl hanswered))
    | inr hrest =>
      cases hrest with
      | inl hknown => exact .inl hknown
      | inr hunderWay => exact .inr (.inr (.inr (.inr hunderWay)))

end Handshake

end N8n.TaskRunners
