import N8n.TaskRunners.TaskBroker
import N8n.Transition.Runs

/-!
# Matching requests with offers

What the task broker is for, without its messages, timers and awaits: requests and offers wait, a
request is paired with an offer of its task type, and a pairing fails or makes a task. The main
theorem of this file, `step_matching`, says that every reaction of the broker is one step of its
matching.
-/

namespace N8n.TaskRunners

/-- What has become of a pairing. -/
inductive Outcome where
  | undecided
  | failed
  | created
  deriving DecidableEq, Repr

/-- An offer and a request that were paired. -/
structure Pairing where
  offer : Nat
  request : Nat
  outcome : Outcome := .undecided
  deriving DecidableEq, Repr

/-- The requests and offers, those of them that wait, and the pairings so far. -/
structure Matching where
  now : Nat
  requests : List TaskRequest
  offers : List TaskOffer
  waitingRequests : List Nat
  waitingOffers : List Nat
  pairings : List Pairing

/-- What happens to a matching. -/
inductive MatchingEvent where
  | idle
  | elapse (duration : Nat)
  | request (request : TaskRequest)
  | offer (offer : TaskOffer)
  /-- The offers of a runner are withdrawn. -/
  | withdraw (runnerId : String)
  /-- A pairing fails, and its request is put back when it is deferred. -/
  | fail (pairing : Nat) (deferred : Bool)
  /-- A pairing makes a task. -/
  | create (pairing : Nat)
  deriving DecidableEq, Repr

namespace Matching

variable (m : Matching)

/-- The request at a position. -/
def request (r : Nat) : TaskRequest := m.requests.getD r default

/-- The offer at a position. -/
def offer (o : Nat) : TaskOffer := m.offers.getD o default

/-- The offer is expired. -/
def expired (o : Nat) : Bool := (m.offer o).validFor ≠ -1 && (m.offer o).validUntil < m.now

/-- Let go of the expired offers. -/
def expire : Matching := { m with waitingOffers := m.waitingOffers.filter fun o => !m.expired o }

/-- Say whether a request is being accepted. -/
def setInProgress (r : Nat) (inProgress : Bool) : Matching :=
  { m with requests := m.requests.modify r fun q => { q with acceptInProgress := inProgress } }

/-- Pair a request with the first offer of its task type. -/
def pair (r : Nat) : Matching :=
  if (m.request r).acceptInProgress then m
  else
    match m.waitingOffers.find? fun o => (m.offer o).taskType = (m.request r).taskType with
    | none => m
    | some o =>
      { m.setInProgress r true with
        waitingOffers := m.waitingOffers.erase o
        pairings := m.pairings ++ [{ offer := o, request := r }] }

/-- Pair all waiting requests. -/
def settle : Matching := m.expire.waitingRequests.foldl pair m.expire

/-- Say what has become of a pairing. -/
def setOutcome (p : Nat) (outcome : Outcome) : Matching :=
  { m with pairings := m.pairings.modify p ({ · with outcome := outcome }) }

/-- A pairing, while it is undecided. -/
def undecided (p : Nat) : Option Pairing := m.pairings[p]?.filter (·.outcome = .undecided)

/-- A pairing fails. -/
def fail (p : Nat) (deferred : Bool) : Matching :=
  match m.undecided p with
  | none => m
  | some pairing =>
    let failed := (m.setInProgress pairing.request false).setOutcome p .failed
    if deferred then
      { failed with waitingRequests := m.waitingRequests ++ [pairing.request] }
    else failed

/-- A pairing makes a task, and the first waiting request with the id of its request is done. -/
def create (p : Nat) : Matching :=
  match m.undecided p with
  | none => m
  | some pairing =>
    { m.setOutcome p .created with
      waitingRequests := m.waitingRequests.eraseP fun r =>
        (m.request r).requestId = (m.request pairing.request).requestId }

/-- The matching after an event. -/
def step : MatchingEvent → Matching
  | .idle => m
  | .elapse duration => { m with now := m.now + duration }
  | .request request =>
    settle { m with
      requests := m.requests ++ [request]
      waitingRequests := m.waitingRequests ++ [m.requests.length] }
  | .offer offer =>
    settle { m with
      offers := m.offers ++ [offer], waitingOffers := m.waitingOffers ++ [m.offers.length] }
  | .withdraw runnerId =>
    { m with waitingOffers := m.waitingOffers.filter fun o => (m.offer o).runnerId ≠ runnerId }
  | .fail p deferred => m.fail p deferred
  | .create p => m.create p

end Matching

section Broker

/-- What has become of an accept attempt in a phase. -/
def AcceptPhase.outcome : AcceptPhase → Outcome
  | .messagingRunner | .waitingForRunner => .undecided
  | .failed => .failed
  | .messagingRequester | .waitingForSettings | .gettingRunner | .sendingSettings | .ended =>
    .created

/-- The pairing that an attempt is about. -/
def Attempt.pairing (a : Attempt) : Pairing :=
  { offer := a.offer, request := a.request, outcome := a.phase.outcome }

/-- The matching of a broker. -/
def TaskBroker.matching (b : TaskBroker) : Matching :=
  { now := b.now, requests := b.requests, offers := b.offers
    waitingRequests := b.pendingTaskRequests, waitingOffers := b.pendingTaskOffers
    pairings := b.attempts.map Attempt.pairing }

/-- What an event of the broker is to its matching. -/
def TaskBroker.matchingEvent (b : TaskBroker) : BrokerEvent → MatchingEvent
  | .elapse duration => .elapse duration
  | .deregisterRunner runnerId => .withdraw runnerId
  | .runnerMessage runnerId (.taskOffer offerId taskType validFor) =>
    if runnerId ∈ b.knownRunners then
      .offer
        { offerId := offerId, runnerId := runnerId, taskType := taskType, validFor := validFor
          validUntil := if validFor = -1 then 0 else b.now + validFor * 1000000 }
    else .idle
  | .requesterMessage requesterId (.taskRequest requestId taskType) =>
    .request { requestId := requestId, requesterId := requesterId, taskType := taskType }
  | .resumeAttempt taskId ok =>
    match b.attempts[taskId]? with
    | none => .idle
    | some a =>
      match a.phase, a.answer with
      | .messagingRunner, _ => if ok then .idle else .fail taskId false
      | .waitingForRunner, some .accepted => .create taskId
      | .waitingForRunner, some .deferred => .fail taskId true
      | .waitingForRunner, some (.rejected _) | .waitingForRunner, some .timedOut =>
        .fail taskId false
      | _, _ => .idle
  | _ => .idle

end Broker

namespace TaskBroker

variable (b : TaskBroker)

section Frame

@[simp]
theorem messageRunner_matching (runnerId : String) (message : ToRunner) :
    (b.messageRunner runnerId message).matching = b.matching := by
  unfold messageRunner
  split <;> rfl

@[simp]
theorem messageRequester_matching (requesterId : String) (message : ToRequester) :
    (b.messageRequester requesterId message).matching = b.matching := by
  unfold messageRequester
  split <;> rfl

@[simp]
theorem cancelTask_matching (taskId : Nat) (reason : String) :
    (b.cancelTask taskId reason).matching = b.matching := by
  unfold cancelTask
  split
  · rfl
  · exact messageRunner_matching _ _ _

@[simp]
theorem failTask_matching (taskId : Nat) : (b.failTask taskId).matching = b.matching := by
  unfold failTask
  split
  · rfl
  · exact messageRequester_matching _ _ _

@[simp]
theorem finishTask_matching (message : Nat → ToRequester) (taskId : Nat) :
    (b.finishTask message taskId).matching = b.matching := by
  unfold finishTask
  split
  · rfl
  · exact messageRequester_matching _ _ _

@[simp]
theorem handleTaskTimeout_matching (mode : TaskRunnerMode) (taskId : Nat) :
    (b.handleTaskTimeout mode taskId).matching = b.matching := by
  cases mode with
  | internal =>
    simp only [handleTaskTimeout]
    split
    · rfl
    · exact finishTask_matching _ _ _
  | external =>
    simp only [handleTaskTimeout]
    split
    · rfl
    · exact messageRunner_matching _ _ _

@[simp]
theorem getRunnerOrFailTask_matching (taskId : Nat) :
    (b.getRunnerOrFailTask taskId).1.matching = b.matching := by
  unfold getRunnerOrFailTask
  split
  · rfl
  · split
    · rfl
    · exact failTask_matching _ _

theorem foldl_failTask_matching (taskIds : List (Nat × Task)) :
    (taskIds.foldl (fun b e => b.failTask e.1) b).matching = b.matching := by
  induction taskIds generalizing b with
  | nil => rfl
  | cons e taskIds ih =>
    rw [List.foldl_cons, ih]
    exact failTask_matching b e.1

theorem setAttempt_matching (taskId : Nat) (f : Attempt → Attempt)
    (hf : ∀ a, b.attempts[taskId]? = some a → (f a).pairing = a.pairing) :
    (b.setAttempt taskId f).matching = b.matching := by
  have hpairings : (b.attempts.modify taskId f).map Attempt.pairing =
      b.attempts.map Attempt.pairing := by
    apply List.ext_getElem?
    intro i
    rw [List.getElem?_map, List.getElem?_map, List.getElem?_modify]
    cases ha : b.attempts[i]? with
    | none => rfl
    | some a =>
      show some (if taskId = i then f a else a).pairing = some a.pairing
      split
      · rename_i hi
        subst hi
        exact congrArg some (hf a ha)
      · rfl
  show ({ b.matching with pairings := (b.attempts.modify taskId f).map Attempt.pairing } :
    Matching) = b.matching
  rw [hpairings]
  rfl

@[simp]
theorem answerOffer_matching (taskId : Nat) (answer : RunnerAnswer) :
    (b.answerOffer taskId answer).matching = b.matching := by
  apply setAttempt_matching
  intro a _
  split <;> rfl

@[simp]
theorem answerSettings_matching (taskId : Nat) (answer : SettingsAnswer) :
    (b.answerSettings taskId answer).matching = b.matching := by
  apply setAttempt_matching
  intro a _
  split <;> rfl

theorem setPhase_matching {taskId : Nat} {a : Attempt} {phase : AcceptPhase}
    (ha : b.attempts[taskId]? = some a) (hphase : phase.outcome = a.phase.outcome) :
    (b.setAttempt taskId ({ · with phase := phase })).matching = b.matching := by
  apply setAttempt_matching
  intro a' ha'
  rw [ha] at ha'
  cases ha'
  simp only [Attempt.pairing, hphase]

end Frame

section Steps

theorem setAttempt_phase (taskId : Nat) (phase : AcceptPhase) :
    (b.setAttempt taskId ({ · with phase := phase })).matching =
      b.matching.setOutcome taskId phase.outcome := by
  unfold setAttempt Matching.setOutcome matching
  congr 1
  apply List.ext_getElem?
  intro i
  simp only [List.getElem?_map, List.getElem?_modify]
  cases b.attempts[i]? with
  | none => rfl
  | some a =>
    simp only [Option.map_some]
    split <;> rfl

theorem undecided_matching {taskId : Nat} {a : Attempt} (ha : b.attempts[taskId]? = some a)
    (hphase : a.phase.outcome = .undecided) : b.matching.undecided taskId = some a.pairing := by
  simp only [Matching.undecided, matching, List.getElem?_map, ha, Option.map_some]
  exact Option.filter_eq_some_iff.mpr ⟨rfl, decide_eq_true hphase⟩

theorem failAttempt_matching {taskId : Nat} {a : Attempt} (deferred : Bool)
    (ha : b.attempts[taskId]? = some a) (hphase : a.phase.outcome = .undecided) :
    (b.failAttempt taskId a.request deferred).matching = b.matching.fail taskId deferred := by
  have hp := undecided_matching b ha hphase
  have hfailed := setAttempt_phase (b.setAcceptInProgress a.request false) taskId .failed
  simp only [failAttempt, Matching.fail, hp]
  cases deferred with
  | false => exact hfailed
  | true => exact congrArg (fun m : Matching =>
    { m with waitingRequests := m.waitingRequests ++ [a.request] }) hfailed

theorem taskAccepted_matching {taskId : Nat} {a : Attempt}
    (ha : b.attempts[taskId]? = some a) (hphase : a.phase.outcome = .undecided) :
    (b.taskAccepted taskId a.offer a.request).matching = b.matching.create taskId := by
  have hp := undecided_matching b ha hphase
  have hcreated := setAttempt_phase b taskId
  simp only [taskAccepted, Matching.create, hp]
  have hfind : b.matching.waitingRequests.findIdx? (fun r =>
      (b.matching.request r).requestId = (b.matching.request a.pairing.request).requestId) =
      b.pendingTaskRequests.findIdx? fun r =>
        (b.request r).requestId = (b.request a.request).requestId := rfl
  rw [List.eraseP_eq_eraseIdx, hfind]
  simp only [show ∀ r, ({ b with tasks := b.tasks.set taskId ⟨(b.offer a.offer).taskType,
    (b.offer a.offer).runnerId, (b.request a.request).requesterId⟩ } : TaskBroker).request r =
      b.request r from fun _ => rfl]
  cases b.pendingTaskRequests.findIdx? fun r =>
      (b.request r).requestId = (b.request a.request).requestId with
  | none => exact hcreated .ended
  | some i =>
    simp only [messageRequester_matching]
    exact congrArg (fun m : Matching =>
      { m with waitingRequests := b.pendingTaskRequests.eraseIdx i })
      (hcreated .messagingRequester)

theorem settleRequest_matching (requestRef : Nat) :
    (b.settleRequest requestRef).matching = b.matching.pair requestRef := by
  simp only [settleRequest, Matching.pair]
  by_cases hprogress : (b.request requestRef).acceptInProgress = true
  · have hprogress' : (b.matching.request requestRef).acceptInProgress = true := hprogress
    rw [if_pos hprogress, if_pos hprogress']
  · have hprogress' : ¬(b.matching.request requestRef).acceptInProgress = true := hprogress
    rw [if_neg hprogress, if_neg hprogress']
    have hfind : b.matching.waitingOffers.find? (fun o =>
        (b.matching.offer o).taskType = (b.matching.request requestRef).taskType) =
        b.pendingTaskOffers.find? fun o =>
          (b.offer o).taskType = (b.request requestRef).taskType := rfl
    rw [hfind]
    cases b.pendingTaskOffers.find? fun o =>
        (b.offer o).taskType = (b.request requestRef).taskType with
    | none => rfl
    | some offerRef =>
      simp only [acceptOffer, messageRunner_matching]
      simp only [matching, List.map_append]
      rfl

theorem foldl_settleRequest_matching (requestRefs : List Nat) :
    (requestRefs.foldl settleRequest b).matching = requestRefs.foldl Matching.pair b.matching := by
  induction requestRefs generalizing b with
  | nil => rfl
  | cons requestRef requestRefs ih =>
    rw [List.foldl_cons, List.foldl_cons, ih, settleRequest_matching]

theorem settleTasks_matching : b.settleTasks.matching = b.matching.settle :=
  foldl_settleRequest_matching b.expireTasks b.expireTasks.pendingTaskRequests

end Steps

section Refinement

theorem taskRequested_matching (request : TaskRequest) :
    (b.taskRequested request).matching = b.matching.step (.request request) :=
  settleTasks_matching _

theorem taskOffered_matching (offer : TaskOffer) :
    (b.taskOffered offer).matching = b.matching.step (.offer offer) :=
  settleTasks_matching _

theorem resumeHandler_matching {b b' : TaskBroker} {index : Nat} {ok : Bool}
    (h : b.resumeHandler index ok = some b') : b'.matching = b.matching := by
  obtain ⟨handler, -, rfl⟩ := Option.map_eq_some_iff.mp h
  cases ok with
  | false => rfl
  | true =>
    cases handler with
    | finishing taskId => rfl
    | timingOut taskId => exact finishTask_matching _ _ _

variable {taskId : Nat}

theorem abandonTask_matching {a : Attempt} (reason : String) (ha : b.attempts[taskId]? = some a)
    (hcreated : a.phase.outcome = .created) :
    (b.abandonTask taskId reason).matching = b.matching := by
  rw [abandonTask, cancelTask_matching]
  exact setPhase_matching b ha hcreated.symm

theorem sendTaskSettings_matching {a : Attempt} (ha : b.attempts[taskId]? = some a)
    (hcreated : a.phase.outcome = .created) :
    (b.sendTaskSettings taskId).matching = b.matching := by
  have hattempts : (b.getRunnerOrFailTask taskId).1.attempts = b.attempts := by
    simp only [getRunnerOrFailTask, failTask, messageRequester]
    split
    · rfl
    · split
      · rfl
      · split
        · rfl
        · split <;> rfl
  have hmatching := getRunnerOrFailTask_matching b taskId
  unfold sendTaskSettings
  split
  · rename_i b' runnerId hget
    rw [hget] at hattempts hmatching
    rw [← hmatching]
    exact setPhase_matching b' (hattempts ▸ ha) hcreated.symm
  · rename_i b' hget
    rw [hget] at hattempts hmatching
    rw [← hmatching]
    exact abandonTask_matching b' _ (hattempts ▸ ha) hcreated

theorem startTask_matching {a : Attempt} (ha : b.attempts[taskId]? = some a)
    (hcreated : a.phase.outcome = .created) : (b.startTask taskId).matching = b.matching := by
  unfold startTask
  split
  · exact setPhase_matching b ha hcreated.symm
  · rw [messageRunner_matching]
    exact setPhase_matching { b with timers := b.timers ++ [taskId] } ha hcreated.symm

theorem resumeAttempt_matching {b b' : TaskBroker} {ok : Bool}
    (h : b.resumeAttempt taskId ok = some b') :
    b'.matching = b.matching.step (b.matchingEvent (.resumeAttempt taskId ok)) := by
  obtain ⟨a, ha, h⟩ := Option.bind_eq_some_iff.mp h
  simp only [matchingEvent, ha]
  cases hphase : a.phase with
  | messagingRunner =>
    rw [hphase] at h
    have hundecided : a.phase.outcome = .undecided := by rw [hphase]; rfl
    cases ok with
    | false =>
      cases h
      exact failAttempt_matching b false ha hundecided
    | true =>
      cases h
      exact setPhase_matching b ha hundecided.symm
  | waitingForRunner =>
    rw [hphase] at h
    have hundecided : a.phase.outcome = .undecided := by rw [hphase]; rfl
    obtain ⟨answer, hanswer, h⟩ := Option.bind_eq_some_iff.mp h
    rw [hanswer]
    cases answer with
    | accepted =>
      cases h
      exact taskAccepted_matching b ha hundecided
    | rejected reason =>
      cases h
      exact failAttempt_matching b false ha hundecided
    | deferred =>
      cases h
      exact failAttempt_matching b true ha hundecided
    | timedOut =>
      cases h
      exact failAttempt_matching b false ha hundecided
  | failed =>
    rw [hphase] at h
    cases h
  | messagingRequester =>
    rw [hphase] at h
    have hcreated : a.phase.outcome = .created := by rw [hphase]; rfl
    cases ok with
    | false =>
      cases h
      exact abandonTask_matching b _ ha hcreated
    | true =>
      cases h
      exact setPhase_matching b ha hcreated.symm
  | waitingForSettings =>
    rw [hphase] at h
    have hcreated : a.phase.outcome = .created := by rw [hphase]; rfl
    obtain ⟨settings, -, h⟩ := Option.bind_eq_some_iff.mp h
    cases settings with
    | received =>
      cases h
      exact sendTaskSettings_matching b ha hcreated
    | timedOut =>
      cases h
      exact abandonTask_matching b _ ha hcreated
  | gettingRunner =>
    rw [hphase] at h
    cases h
    exact startTask_matching b ha (by rw [hphase]; rfl)
  | sendingSettings =>
    rw [hphase] at h
    have hcreated : a.phase.outcome = .created := by rw [hphase]; rfl
    cases ok with
    | false =>
      cases h
      exact abandonTask_matching b _ ha hcreated
    | true =>
      cases h
      exact setPhase_matching b ha hcreated.symm
  | ended =>
    rw [hphase] at h
    cases h

theorem onRunnerMessage_matching (runnerId : String) (message : RunnerMessage) :
    (b.onRunnerMessage runnerId message).matching =
      b.matching.step (b.matchingEvent (.runnerMessage runnerId message)) := by
  unfold onRunnerMessage
  by_cases hknown : runnerId ∈ b.knownRunners
  · rw [if_neg (not_not.mpr hknown)]
    cases message with
    | taskAccepted taskId => exact answerOffer_matching _ _ _
    | taskRejected taskId reason => exact answerOffer_matching _ _ _
    | taskDeferred taskId => exact answerOffer_matching _ _ _
    | taskOffer offerId taskType validFor =>
      simp only [matchingEvent, if_pos hknown]
      exact taskOffered_matching _ _
    | taskDone taskId => exact finishTask_matching _ _ _
    | taskError taskId => exact finishTask_matching _ _ _
    | forwarded taskId => rfl
  · rw [if_pos hknown]
    cases message with
    | taskOffer offerId taskType validFor =>
      simp only [matchingEvent, if_neg hknown]
      rfl
    | _ => rfl

theorem step_matching {mode : TaskRunnerMode} {b b' : TaskBroker} {e : BrokerEvent}
    (h : b.step mode e = some b') : b'.matching = b.matching.step (b.matchingEvent e) := by
  cases e with
  | elapse duration =>
    cases h
    rfl
  | registerRunner runnerId =>
    cases h
    exact messageRunner_matching _ _ _
  | deregisterRunner runnerId =>
    cases h
    exact foldl_failTask_matching _ _
  | registerRequester requesterId =>
    cases h
    rfl
  | deregisterRequester requesterId =>
    cases h
    rfl
  | runnerMessage runnerId message =>
    cases h
    exact onRunnerMessage_matching _ _ _
  | requesterMessage requesterId message =>
    cases h
    cases message with
    | taskSettings taskId => exact answerSettings_matching _ _ _
    | taskCancel taskId reason => exact cancelTask_matching _ _ _
    | taskRequest requestId taskType => exact taskRequested_matching _ _
    | response taskId => exact getRunnerOrFailTask_matching _ _
  | acceptTimeout taskId =>
    cases h
    exact answerOffer_matching _ _ _
  | settingsTimeout taskId =>
    cases h
    exact answerSettings_matching _ _ _
  | taskTimeout taskId =>
    simp only [step] at h
    split at h
    · cases h
      exact handleTaskTimeout_matching _ _ _
    · cases h
  | resumeAttempt taskId ok => exact resumeAttempt_matching h
  | resumeHandler index ok => exact resumeHandler_matching h

end Refinement

end TaskBroker

end N8n.TaskRunners
