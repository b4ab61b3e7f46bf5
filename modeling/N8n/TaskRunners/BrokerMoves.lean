import N8n.TaskRunners.Handshake
import N8n.TaskRunners.TaskOrigin

/-!
# The moves of the broker

In a session, everything that the broker does by itself is, for each task, a run of moves of its
handshake: `moves_of_isLocal`. `BrokerMoves` says so of a function of the broker, and that it leaves
the registered runners and the offers alone.
-/

namespace N8n.TaskRunners

open Collections

/-- The message accepts an offer for the task. -/
def ToRunner.acceptsFor (taskId : Nat) : ToRunner → Bool
  | .taskOfferAccept _ taskId' => taskId' = taskId
  | _ => false

/-- The message cancels the task. -/
def ToRunner.cancels (taskId : Nat) : ToRunner → Bool
  | .taskCancel taskId' _ => taskId' = taskId
  | _ => false

/-- The message rejects or defers the task. -/
def RunnerMessage.refuses (taskId : Nat) : RunnerMessage → Bool
  | .taskRejected taskId' _ | .taskDeferred taskId' => taskId' = taskId
  | _ => false

/-- The message reports the end of the task. -/
def RunnerMessage.ends (taskId : Nat) : RunnerMessage → Bool
  | .taskDone taskId' | .taskError taskId' => taskId' = taskId
  | _ => false

/-- The messages that the broker has sent to a runner. -/
def TaskBroker.sentTo (b : TaskBroker) (runnerId : String) : List ToRunner :=
  (b.toRunners.filter (·.1 = runnerId)).map (·.2)

/-- The messages that are on their way to the runner. -/
def TaskBroker.unread (b : TaskBroker) (runnerId : String) (toRunner : List ToRunner) :
    List ToRunner :=
  toRunner ++ b.sentTo runnerId

/-- The handshake about a task between a broker and a runner, with the messages between them. -/
def handshake (runnerId : String) (b : TaskBroker) (r : TaskRunner) (toRunner : List ToRunner)
    (taskId : Nat) : Handshake where
  attempted := taskId < b.attempts.length
  offers := (b.unread runnerId toRunner).countP (·.acceptsFor taskId)
  acceptances := r.toBroker.countP (· = .taskAccepted taskId)
  refusals := r.toBroker.countP (·.refuses taskId)
  ends := r.toBroker.countP (·.ends taskId)
  answer := b.attempts[taskId]?.bind (·.answer)
  undecided := b.attempts[taskId]?.any (·.phase.outcome = .undecided)
  known := b.tasks.has taskId
  finishing := .finishing taskId ∈ b.handlers
  timingOut := .timingOut taskId ∈ b.handlers
  cancelled := (b.unread runnerId toRunner).any (·.cancels taskId)
  expired := taskId ∈ b.timedOutDuringTask
  status := r.runningTasks.get? taskId

/-- Every runner of the broker is one runner, and it is registered. -/
structure TaskBroker.ServedBy (b : TaskBroker) (runnerId : String) : Prop where
  known : runnerId ∈ b.knownRunners
  offers : ∀ offer ∈ b.offers, offer.runnerId = runnerId
  origin : b.Origin

/-- What the broker has done is a run of moves. -/
structure BrokerMoves (runnerId : String) (b b' : TaskBroker) : Prop where
  knownRunners : b'.knownRunners = b.knownRunners
  offers : b'.offers = b.offers
  steps : ∀ r toRunner taskId, Handshake.Steps (handshake runnerId b r toRunner taskId)
    (handshake runnerId b' r toRunner taskId)

namespace BrokerMoves

variable {b b' b'' : TaskBroker} {runnerId : String}

protected theorem refl (b : TaskBroker) : BrokerMoves runnerId b b where
  knownRunners := rfl
  offers := rfl
  steps _ _ _ := .refl

protected theorem trans (h : BrokerMoves runnerId b b') (h' : BrokerMoves runnerId b' b'') :
    BrokerMoves runnerId b b'' where
  knownRunners := h'.knownRunners.trans h.knownRunners
  offers := h'.offers.trans h.offers
  steps r toRunner taskId := (h.steps r toRunner taskId).trans (h'.steps r toRunner taskId)

theorem of_eq (hknown : b'.knownRunners = b.knownRunners) (hoffers : b'.offers = b.offers)
    (hsame : ∀ r toRunner taskId,
      handshake runnerId b' r toRunner taskId = handshake runnerId b r toRunner taskId) :
    BrokerMoves runnerId b b' where
  knownRunners := hknown
  offers := hoffers
  steps r toRunner taskId := by
    rw [hsame]

end BrokerMoves

namespace TaskBroker

variable {b b' b'' : TaskBroker} {runnerId : String}

section Served

theorem ServedBy.runnerId_of_offer (h : b.ServedBy runnerId) {offerRef : Nat}
    (hlt : offerRef < b.offers.length) : (b.offer offerRef).runnerId = runnerId := by
  rw [offer, List.getD_eq_getElem?_getD, List.getElem?_eq_getElem hlt]
  exact h.offers _ (List.getElem_mem hlt)

theorem ServedBy.runnerId_of_task (h : b.ServedBy runnerId) {taskId : Nat} {task : Task}
    (htask : b.tasks.get? taskId = some task) : task.runnerId = runnerId := by
  obtain ⟨a, hcreated, rfl⟩ := h.origin.known taskId task htask
  have hmem : a.pairing ∈ b.matching.pairings :=
    List.mem_map.mpr ⟨a, List.mem_of_getElem? hcreated.1, rfl⟩
  exact h.runnerId_of_offer (h.origin.wf.paired_lt _ hmem).2

end Served

section Messages

theorem unread_messageRunner (hknown : runnerId ∈ b.knownRunners) (message : ToRunner)
    (toRunner : List ToRunner) :
    (b.messageRunner runnerId message).unread runnerId toRunner =
      b.unread runnerId toRunner ++ [message] := by
  rw [messageRunner, if_pos hknown, unread, unread, List.append_assoc, sentTo, sentTo,
    List.filter_append, List.map_append]
  simp only [decide_true, List.filter_cons, if_true, List.filter_nil, List.map_cons, List.map_nil]

theorem handshake_messageRunner (hknown : runnerId ∈ b.knownRunners) (message : ToRunner)
    (r : TaskRunner) (toRunner : List ToRunner) (taskId : Nat) :
    handshake runnerId (b.messageRunner runnerId message) r toRunner taskId =
      { handshake runnerId b r toRunner taskId with
        offers := (handshake runnerId b r toRunner taskId).offers +
          if message.acceptsFor taskId then 1 else 0
        cancelled := (handshake runnerId b r toRunner taskId).cancelled ||
          message.cancels taskId } := by
  have hunread := unread_messageRunner hknown message toRunner
  have hframe : b.messageRunner runnerId message =
      { b with toRunners := b.toRunners ++ [(runnerId, message)] } := if_pos hknown
  have hoffers : ((b.messageRunner runnerId message).unread runnerId toRunner).countP
      (·.acceptsFor taskId) = (b.unread runnerId toRunner).countP (·.acceptsFor taskId) +
        if message.acceptsFor taskId then 1 else 0 := by
    rw [hunread, List.countP_append, List.countP_singleton]
  have hcancelled : ((b.messageRunner runnerId message).unread runnerId toRunner).any
      (·.cancels taskId) = ((b.unread runnerId toRunner).any (·.cancels taskId) ||
        message.cancels taskId) := by
    rw [hunread, List.any_append, List.any_cons, List.any_nil, Bool.or_false]
  rw [hframe] at hoffers hcancelled ⊢
  exact Handshake.ext rfl hoffers rfl rfl rfl rfl rfl rfl rfl rfl hcancelled rfl rfl

theorem moves_messageRequester (b : TaskBroker) (requesterId : String) (message : ToRequester) :
    BrokerMoves runnerId b (b.messageRequester requesterId message) := by
  unfold messageRequester
  split
  · exact .of_eq rfl rfl fun _ _ _ => rfl
  · exact .refl b

theorem moves_messageRunner (hknown : runnerId ∈ b.knownRunners) {message : ToRunner}
    (haccepts : ∀ taskId, message.acceptsFor taskId = false)
    (hcancels : ∀ taskId, message.cancels taskId = false) :
    BrokerMoves runnerId b (b.messageRunner runnerId message) := by
  have hframe : b.messageRunner runnerId message =
      { b with toRunners := b.toRunners ++ [(runnerId, message)] } := if_pos hknown
  refine .of_eq (by rw [hframe]) (by rw [hframe]) fun r toRunner taskId => ?_
  rw [handshake_messageRunner hknown, haccepts, hcancels, Bool.or_false]
  rfl

end Messages

section Attempts

variable {t : Nat} {a : Attempt}

theorem handshake_setAttempt (ha : b.attempts[t]? = some a) (f : Attempt → Attempt) (r : TaskRunner)
    (toRunner : List ToRunner) :
    handshake runnerId (b.setAttempt t f) r toRunner t =
      { handshake runnerId b r toRunner t with
        answer := (f a).answer, undecided := (f a).phase.outcome = .undecided } := by
  have hget : (b.attempts.modify t f)[t]? = some (f a) := by
    simp only [List.getElem?_modify, ha, Option.map_eq_map, Option.map_some, if_true]
  have hanswer : (b.attempts.modify t f)[t]?.bind (·.answer) = (f a).answer := by
    rw [hget]
    rfl
  have hundecided : (b.attempts.modify t f)[t]?.any (·.phase.outcome = .undecided) =
      decide ((f a).phase.outcome = .undecided) := by
    rw [hget]
    rfl
  have hlength : decide (t < (b.attempts.modify t f).length) = decide (t < b.attempts.length) := by
    rw [List.length_modify]
  exact Handshake.ext hlength rfl rfl rfl rfl hanswer hundecided rfl rfl rfl rfl rfl rfl

theorem handshake_setAttempt_of_ne {taskId : Nat} (hne : taskId ≠ t) (f : Attempt → Attempt)
    (r : TaskRunner) (toRunner : List ToRunner) :
    handshake runnerId (b.setAttempt t f) r toRunner taskId =
      handshake runnerId b r toRunner taskId := by
  have hget : (b.attempts.modify t f)[taskId]? = b.attempts[taskId]? := by
    simp only [List.getElem?_modify, hne.symm, if_false, Option.map_eq_map, Option.map_id']
  have hlength : decide (taskId < (b.attempts.modify t f).length) =
      decide (taskId < b.attempts.length) := by
    rw [List.length_modify]
  have hanswer : (b.attempts.modify t f)[taskId]?.bind (·.answer) =
      b.attempts[taskId]?.bind (·.answer) := by rw [hget]
  have hundecided : (b.attempts.modify t f)[taskId]?.any (·.phase.outcome = .undecided) =
      b.attempts[taskId]?.any (·.phase.outcome = .undecided) := by rw [hget]
  exact Handshake.ext hlength rfl rfl rfl rfl hanswer hundecided rfl rfl rfl rfl rfl rfl

theorem moves_setAttempt (ha : b.attempts[t]? = some a) {f : Attempt → Attempt}
    (hsteps : ∀ r toRunner, Handshake.Steps (handshake runnerId b r toRunner t)
      { handshake runnerId b r toRunner t with
        answer := (f a).answer, undecided := (f a).phase.outcome = .undecided }) :
    BrokerMoves runnerId b (b.setAttempt t f) where
  knownRunners := rfl
  offers := rfl
  steps r toRunner taskId := by
    by_cases heq : taskId = t
    · subst heq
      rw [handshake_setAttempt ha]
      exact hsteps r toRunner
    · rw [handshake_setAttempt_of_ne heq]

theorem moves_setAttempt_of_none (ha : b.attempts[t]? = none) (f : Attempt → Attempt) :
    BrokerMoves runnerId b (b.setAttempt t f) := by
  have hsame : b.setAttempt t f = b := by
    rw [setAttempt, List.modify_eq_self (List.getElem?_eq_none_iff.mp ha)]
  rw [hsame]
  exact .refl b

theorem handshake_of_attempt (runnerId : String) (ha : b.attempts[t]? = some a) (r : TaskRunner)
    (toRunner : List ToRunner) :
    (handshake runnerId b r toRunner t).attempted = true ∧
      (handshake runnerId b r toRunner t).answer = a.answer ∧
      (handshake runnerId b r toRunner t).undecided = decide (a.phase.outcome = .undecided) := by
  refine ⟨decide_eq_true (List.getElem?_eq_some_iff.mp ha).1, ?_, ?_⟩
  · show b.attempts[t]?.bind (·.answer) = a.answer
    rw [ha]
    rfl
  · show b.attempts[t]?.any (·.phase.outcome = .undecided) = _
    rw [ha]
    rfl

theorem moves_setPhase {phase : AcceptPhase} (ha : b.attempts[t]? = some a)
    (hphase : phase.outcome = a.phase.outcome) :
    BrokerMoves runnerId b (b.setAttempt t ({ · with phase := phase })) := by
  refine moves_setAttempt ha fun r toRunner => ?_
  obtain ⟨-, hanswer, hundecided⟩ := handshake_of_attempt runnerId ha r toRunner
  rw [hphase, ← hanswer, ← hundecided]

theorem handshake_answerOffer (ha : b.attempts[t]? = some a) (answer : RunnerAnswer)
    (r : TaskRunner) (toRunner : List ToRunner) :
    handshake runnerId (b.answerOffer t answer) r toRunner t =
      (handshake runnerId b r toRunner t).settle answer := by
  obtain ⟨-, hanswer, hundecided⟩ := handshake_of_attempt runnerId ha r toRunner
  rw [answerOffer, handshake_setAttempt ha, Handshake.settle, hanswer, hundecided]
  split <;> rfl

theorem moves_acceptTimeout (b : TaskBroker) (t : Nat) :
    BrokerMoves runnerId b (b.answerOffer t .timedOut) := by
  cases ha : b.attempts[t]? with
  | none => exact moves_setAttempt_of_none ha _
  | some a =>
    refine ⟨rfl, rfl, fun r toRunner taskId => ?_⟩
    by_cases heq : taskId = t
    · subst heq
      rw [handshake_answerOffer ha]
      exact .single (.timeOut _ (handshake_of_attempt runnerId ha r toRunner).1)
    · rw [answerOffer, handshake_setAttempt_of_ne heq]

theorem moves_answerSettings (b : TaskBroker) (t : Nat) (answer : SettingsAnswer) :
    BrokerMoves runnerId b (b.answerSettings t answer) := by
  cases ha : b.attempts[t]? with
  | none => exact moves_setAttempt_of_none ha _
  | some a =>
    refine moves_setAttempt ha fun r toRunner => ?_
    obtain ⟨-, hanswer, hundecided⟩ := handshake_of_attempt runnerId ha r toRunner
    split
    · rw [← hanswer, ← hundecided]
    · rw [← hanswer, ← hundecided]

theorem moves_failAttempt (ha : b.attempts[t]? = some a)
    (hanswer : ∃ answer, a.answer = some answer ∧ answer ≠ .accepted) (deferred : Bool) :
    BrokerMoves runnerId b (b.failAttempt t a.request deferred) := by
  have hmoves : BrokerMoves runnerId (b.setAcceptInProgress a.request false)
      ((b.setAcceptInProgress a.request false).setAttempt t ({ · with phase := .failed })) := by
    have ha' : (b.setAcceptInProgress a.request false).attempts[t]? = some a := ha
    refine moves_setAttempt ha' fun r toRunner => .single ?_
    have hsame : handshake runnerId (b.setAcceptInProgress a.request false) r toRunner t =
        handshake runnerId b r toRunner t := rfl
    obtain ⟨-, hanswer', -⟩ := handshake_of_attempt runnerId ha r toRunner
    rw [hsame, ← hanswer']
    exact .fail _ (hanswer' ▸ hanswer)
  have hbefore : BrokerMoves runnerId b (b.setAcceptInProgress a.request false) :=
    .of_eq rfl rfl fun _ _ _ => rfl
  unfold failAttempt
  split
  · exact (hbefore.trans hmoves).trans (.of_eq rfl rfl fun _ _ _ => rfl)
  · exact hbefore.trans hmoves

end Attempts

section Tasks

theorem handshake_delete (runnerId : String) (b : TaskBroker) (t : Nat) (r : TaskRunner)
    (toRunner : List ToRunner)
    (taskId : Nat) :
    handshake runnerId { b with tasks := b.tasks.delete t } r toRunner taskId =
      { handshake runnerId b r toRunner taskId with
        known := if taskId = t then false else b.tasks.has taskId } := by
  have hknown : (b.tasks.delete t).has taskId =
      if taskId = t then false else b.tasks.has taskId := by
    rw [InsertionMap.has, InsertionMap.get_delete]
    split <;> rfl
  exact Handshake.ext rfl rfl rfl rfl rfl rfl rfl hknown rfl rfl rfl rfl rfl

variable {t : Nat}

theorem moves_cancelTask (hknown : runnerId ∈ b.knownRunners)
    (hrunner : ∀ task, b.tasks.get? t = some task → task.runnerId = runnerId) (reason : String) :
    BrokerMoves runnerId b (b.cancelTask t reason) := by
  unfold cancelTask
  cases htask : b.tasks.get? t with
  | none => exact .refl b
  | some task =>
    dsimp only
    rw [hrunner task htask]
    have hframe : ({ b with tasks := b.tasks.delete t } : TaskBroker).messageRunner runnerId
        (.taskCancel t reason) = { b with
          tasks := b.tasks.delete t
          toRunners := b.toRunners ++ [(runnerId, .taskCancel t reason)] } := if_pos hknown
    refine ⟨by rw [hframe], by rw [hframe], fun r toRunner taskId => ?_⟩
    have hknown' : runnerId ∈ ({ b with tasks := b.tasks.delete t } : TaskBroker).knownRunners :=
      hknown
    rw [handshake_messageRunner hknown', handshake_delete]
    by_cases heq : taskId = t
    · subst heq
      have hcancels : (ToRunner.taskCancel taskId reason).cancels taskId = true :=
        decide_eq_true rfl
      rw [hcancels, if_pos rfl, Bool.or_true]
      exact .single (.cancel _)
    · have hcancels : (ToRunner.taskCancel t reason).cancels taskId = false :=
        decide_eq_false (Ne.symm heq)
      rw [hcancels, if_neg heq, Bool.or_false]
      exact .refl

theorem handshake_finishTask (b : TaskBroker) (message : Nat → ToRequester) (t : Nat)
    (r : TaskRunner) (toRunner : List ToRunner) (taskId : Nat) :
    handshake runnerId (b.finishTask message t) r toRunner taskId =
      { handshake runnerId b r toRunner taskId with
        finishing := (handshake runnerId b r toRunner taskId).finishing ||
          (decide (taskId = t) && b.tasks.has t) } := by
  have hrequester : ∀ (b : TaskBroker) (requesterId : String) (message : ToRequester),
      handshake runnerId (b.messageRequester requesterId message) r toRunner taskId =
        handshake runnerId b r toRunner taskId := by
    intro b requesterId message
    unfold messageRequester
    split <;> rfl
  unfold finishTask InsertionMap.has
  cases b.tasks.get? t with
  | none =>
    rw [Option.isSome_none, Bool.and_false, Bool.or_false]
  | some task =>
    dsimp only
    rw [hrequester, Option.isSome_some, Bool.and_true]
    have hfinishing : decide (Handler.finishing taskId ∈ b.handlers ++ [.finishing t]) =
        (decide (Handler.finishing taskId ∈ b.handlers) || decide (taskId = t)) := by
      simp only [List.mem_append, List.mem_singleton, Handler.finishing.injEq, Bool.decide_or]
    have htimingOut : decide (Handler.timingOut taskId ∈ b.handlers ++ [.finishing t]) =
        decide (Handler.timingOut taskId ∈ b.handlers) := by
      simp only [List.mem_append, List.mem_singleton, reduceCtorEq, or_false]
    exact Handshake.ext rfl rfl rfl rfl rfl rfl rfl rfl hfinishing htimingOut rfl rfl rfl

theorem finishTask_frame (b : TaskBroker) (message : Nat → ToRequester) (t : Nat) :
    (b.finishTask message t).knownRunners = b.knownRunners ∧
      (b.finishTask message t).offers = b.offers := by
  unfold finishTask messageRequester
  split
  · exact ⟨rfl, rfl⟩
  · dsimp only
    split <;> exact ⟨rfl, rfl⟩

theorem ServedBy.getRunnerOrFailTask (h : b.ServedBy runnerId) (t : Nat) :
    b.getRunnerOrFailTask t = (b, (b.tasks.get? t).map (·.runnerId)) := by
  unfold TaskBroker.getRunnerOrFailTask
  cases htask : b.tasks.get? t with
  | none => rfl
  | some task =>
    dsimp only
    rw [if_pos (by rw [h.runnerId_of_task htask]; exact h.known)]
    rfl

variable {a : Attempt}

theorem moves_abandonTask (h : b.ServedBy runnerId) (ha : b.attempts[t]? = some a)
    (hcreated : a.phase.outcome = .created) (reason : String) :
    BrokerMoves runnerId b (b.abandonTask t reason) := by
  have hphase : BrokerMoves runnerId b (b.setAttempt t ({ · with phase := .ended })) :=
    moves_setPhase ha hcreated.symm
  have hknown : runnerId ∈ (b.setAttempt t ({ · with phase := .ended })).knownRunners := h.known
  exact hphase.trans (moves_cancelTask hknown (fun _ htask => h.runnerId_of_task htask) reason)

theorem moves_sendTaskSettings (h : b.ServedBy runnerId) (ha : b.attempts[t]? = some a)
    (hcreated : a.phase.outcome = .created) : BrokerMoves runnerId b (b.sendTaskSettings t) := by
  unfold sendTaskSettings
  rw [h.getRunnerOrFailTask]
  cases b.tasks.get? t with
  | none => exact moves_abandonTask h ha hcreated _
  | some task => exact moves_setPhase ha hcreated.symm

theorem moves_startTask (h : b.ServedBy runnerId) (ha : b.attempts[t]? = some a)
    (hcreated : a.phase.outcome = .created) : BrokerMoves runnerId b (b.startTask t) := by
  unfold startTask
  cases htask : b.tasks.get? t with
  | none => exact moves_setPhase ha hcreated.symm
  | some task =>
    dsimp only
    rw [h.runnerId_of_task htask]
    have htimer : BrokerMoves runnerId b { b with timers := b.timers ++ [t] } :=
      .of_eq rfl rfl fun _ _ _ => rfl
    have ha' : ({ b with timers := b.timers ++ [t] } : TaskBroker).attempts[t]? = some a := ha
    have hphase : BrokerMoves runnerId { b with timers := b.timers ++ [t] }
        (setAttempt { b with timers := b.timers ++ [t] } t
          ({ · with phase := .sendingSettings })) := moves_setPhase ha' hcreated.symm
    have hknown : runnerId ∈ (setAttempt { b with timers := b.timers ++ [t] } t
        ({ · with phase := .sendingSettings })).knownRunners := h.known
    exact (htimer.trans hphase).trans (moves_messageRunner hknown (fun _ => rfl) fun _ => rfl)

theorem moves_taskAccepted (ha : b.attempts[t]? = some a)
    (hundecided : a.phase.outcome = .undecided) (hanswer : a.answer = some .accepted) :
    BrokerMoves runnerId b (b.taskAccepted t a.offer a.request) := by
  have hcreate (task : Task) (requestRefs : List Nat) (phase : AcceptPhase)
      (hphase : phase.outcome = .created) : BrokerMoves runnerId b
        (setAttempt { b with tasks := b.tasks.set t task, pendingTaskRequests := requestRefs } t
          ({ · with phase := phase })) := by
    refine ⟨rfl, rfl, fun r toRunner taskId => ?_⟩
    have hknown : (b.tasks.set t task).has taskId =
        if taskId = t then true else b.tasks.has taskId := by
      rw [InsertionMap.has, InsertionMap.get_set]
      split <;> rfl
    have hset : handshake runnerId
        { b with tasks := b.tasks.set t task, pendingTaskRequests := requestRefs }
        r toRunner taskId =
        { handshake runnerId b r toRunner taskId with
          known := if taskId = t then true else b.tasks.has taskId } :=
      Handshake.ext rfl rfl rfl rfl rfl rfl rfl hknown rfl rfl rfl rfl rfl
    by_cases heq : taskId = t
    · subst heq
      obtain ⟨-, hanswer', hundecided'⟩ :=
        handshake_of_attempt runnerId ha r toRunner
      rw [hanswer] at hanswer'
      have ha' : ({ b with
          tasks := b.tasks.set taskId task, pendingTaskRequests := requestRefs } :
            TaskBroker).attempts[taskId]? = some a := ha
      rw [handshake_setAttempt ha', hset, if_pos rfl, hphase]
      simp only [hanswer, ← hanswer']
      refine .single (.create _ ?_ hanswer')
      rw [hundecided', hundecided]
      rfl
    · rw [handshake_setAttempt_of_ne heq, hset, if_neg heq]
      exact .refl
  unfold taskAccepted
  dsimp only
  split
  · exact hcreate _ b.pendingTaskRequests .ended rfl
  · exact (hcreate _ _ .messagingRequester rfl).trans (moves_messageRequester _ _ _)

theorem moves_restart (b : TaskBroker) (hknown : b.tasks.has t = true) :
    BrokerMoves runnerId b
      (taskErrorHandler { b with timedOutDuringTask := b.timedOutDuringTask ++ [t] } t) := by
  refine ⟨(finishTask_frame _ _ _).1, (finishTask_frame _ _ _).2, fun r toRunner taskId => ?_⟩
  rw [taskErrorHandler, handshake_finishTask]
  by_cases heq : taskId = t
  · subst heq
    refine (Handshake.Step.restart _ hknown).to
      (Handshake.ext rfl rfl rfl rfl rfl rfl rfl rfl ?_ rfl rfl ?_ rfl)
    · show (_ || (decide (taskId = taskId) && b.tasks.has taskId)) = true
      rw [hknown, Bool.and_true, decide_eq_true rfl, Bool.or_true]
    · exact decide_eq_true (List.mem_append_right _ (List.mem_singleton_self _))
  · refine .of_eq (Handshake.ext rfl rfl rfl rfl rfl rfl rfl rfl ?_ rfl rfl ?_ rfl)
    · rw [decide_eq_false heq, Bool.false_and, Bool.or_false]
      rfl
    · show decide (taskId ∈ b.timedOutDuringTask ++ [t]) = decide (taskId ∈ b.timedOutDuringTask)
      simp only [List.mem_append, List.mem_singleton, heq, or_false]

theorem moves_cancelLate (b : TaskBroker) (hrunner : runnerId ∈ b.knownRunners)
    (hknown : b.tasks.has t = true) (reason : String) :
    BrokerMoves runnerId b
      (messageRunner { b with handlers := b.handlers ++ [.timingOut t] } runnerId
        (.taskCancel t reason)) := by
  have hrunner' : runnerId ∈
      ({ b with handlers := b.handlers ++ [.timingOut t] } : TaskBroker).knownRunners := hrunner
  refine ⟨by rw [messageRunner, if_pos hrunner'], by rw [messageRunner, if_pos hrunner'], ?_⟩
  intro r toRunner taskId
  rw [handshake_messageRunner hrunner']
  have hfinishing : decide (Handler.finishing taskId ∈ b.handlers ++ [.timingOut t]) =
      decide (Handler.finishing taskId ∈ b.handlers) := by
    simp only [List.mem_append, List.mem_singleton, reduceCtorEq, or_false]
  by_cases heq : taskId = t
  · subst heq
    refine (Handshake.Step.cancelLate _ hknown).to
      (Handshake.ext rfl rfl rfl rfl rfl rfl rfl rfl hfinishing ?_ ?_ rfl rfl)
    · exact decide_eq_true (List.mem_append_right _ (List.mem_singleton_self _))
    · show (_ || decide (taskId = taskId)) = true
      rw [decide_eq_true rfl, Bool.or_true]
  · refine .of_eq (Handshake.ext rfl rfl rfl rfl rfl rfl rfl rfl hfinishing ?_ ?_ rfl rfl)
    · show decide (Handler.timingOut taskId ∈ b.handlers ++ [.timingOut t]) =
        decide (Handler.timingOut taskId ∈ b.handlers)
      simp only [List.mem_append, List.mem_singleton, Handler.timingOut.injEq, heq, or_false]
    · show (_ || decide (t = taskId)) = _
      rw [decide_eq_false (Ne.symm heq), Bool.or_false]
      rfl

theorem moves_handleTaskTimeout (h : b.ServedBy runnerId) (mode : TaskRunnerMode) (t : Nat) :
    BrokerMoves runnerId b (b.handleTaskTimeout mode t) := by
  have htimer : BrokerMoves runnerId b { b with timers := b.timers.filter (· ≠ t) } :=
    .of_eq rfl rfl fun _ _ _ => rfl
  unfold handleTaskTimeout
  dsimp only
  cases htask : b.tasks.get? t with
  | none => exact htimer
  | some task =>
    have hknown : b.tasks.has t = true := by
      rw [InsertionMap.has, htask]
      rfl
    refine htimer.trans ?_
    cases mode with
    | internal => exact moves_restart { b with timers := b.timers.filter (· ≠ t) } hknown
    | external =>
      dsimp only
      rw [h.runnerId_of_task htask]
      exact moves_cancelLate { b with timers := b.timers.filter (· ≠ t) } h.known hknown _

theorem mem_of_eraseIdx {index : Nat} {handler : Handler}
    (h : decide (handler ∈ b.handlers.eraseIdx index) = true) :
    decide (handler ∈ b.handlers) = true :=
  decide_eq_true (List.mem_of_mem_eraseIdx (of_decide_eq_true h))

theorem moves_resumeHandler {index : Nat} {ok : Bool} (h : b.resumeHandler index ok = some b') :
    BrokerMoves runnerId b b' := by
  obtain ⟨handler, hhandler, rfl⟩ := Option.map_eq_some_iff.mp h
  have hmem : handler ∈ b.handlers := List.mem_of_getElem? hhandler
  have hended : BrokerMoves runnerId b { b with handlers := b.handlers.eraseIdx index } := by
    refine ⟨rfl, rfl, fun r toRunner taskId => .single ?_⟩
    exact .handlerFails (handshake runnerId b r toRunner taskId) mem_of_eraseIdx mem_of_eraseIdx
  cases ok with
  | false => exact hended
  | true =>
    cases handler with
    | finishing t =>
      refine ⟨rfl, rfl, fun r toRunner taskId => ?_⟩
      show Handshake.Steps _ (handshake runnerId { b with
        handlers := b.handlers.eraseIdx index, tasks := b.tasks.delete t } r toRunner taskId)
      have hdelete := handshake_delete runnerId
        { b with handlers := b.handlers.eraseIdx index } t r toRunner taskId
      rw [hdelete]
      by_cases heq : taskId = t
      · subst heq
        rw [if_pos rfl]
        have hfinish := Handshake.Step.finish (handshake runnerId b r toRunner taskId)
          (decide (Handler.finishing taskId ∈ b.handlers.eraseIdx index)) (decide_eq_true hmem)
        refine .trans (.single hfinish) (.single ?_)
        exact .handlerFails _ id mem_of_eraseIdx
      · rw [if_neg heq]
        exact hended.steps r toRunner taskId
    | timingOut t =>
      refine ⟨(finishTask_frame _ _ _).1, (finishTask_frame _ _ _).2, ?_⟩
      intro r toRunner taskId
      show Handshake.Steps _ (handshake runnerId
        (finishTask { b with handlers := b.handlers.eraseIdx index } .taskError t) r toRunner
          taskId)
      rw [handshake_finishTask]
      by_cases heq : taskId = t
      · subst heq
        have hreport := Handshake.Step.reportLate (handshake runnerId b r toRunner taskId)
          (decide (Handler.timingOut taskId ∈ b.handlers.eraseIdx index)) (decide_eq_true hmem)
        refine .trans (.single hreport) (.single ?_)
        refine .handlerFails _ (fun hfinishing => ?_) id
        rw [decide_eq_true rfl, Bool.true_and] at hfinishing
        cases Bool.or_eq_true_iff.mp hfinishing with
        | inl hbefore => exact Bool.or_eq_true_iff.mpr (.inl (mem_of_eraseIdx hbefore))
        | inr hknown => exact Bool.or_eq_true_iff.mpr (.inr hknown)
      · rw [decide_eq_false heq, Bool.false_and, Bool.or_false]
        exact hended.steps r toRunner taskId

end Tasks

section Settling

theorem moves_acceptOffer (hknown : runnerId ∈ b.knownRunners) {offerRef : Nat}
    (hoffer : (b.offer offerRef).runnerId = runnerId) (requestRef : Nat) :
    BrokerMoves runnerId b (b.acceptOffer offerRef requestRef) := by
  let attempt : Attempt := { offer := offerRef, request := requestRef }
  let next : TaskBroker := { b with attempts := b.attempts ++ [attempt] }
  have hnext : b.acceptOffer offerRef requestRef =
      next.messageRunner runnerId
        (.taskOfferAccept (b.offer offerRef).offerId b.attempts.length) := by
    rw [← hoffer]
    rfl
  have hrunner : runnerId ∈ next.knownRunners := hknown
  rw [hnext]
  refine ⟨by rw [messageRunner, if_pos hrunner], by rw [messageRunner, if_pos hrunner], ?_⟩
  intro r toRunner taskId
  rw [handshake_messageRunner hrunner]
  by_cases heq : taskId = b.attempts.length
  · have hget : next.attempts[taskId]? = some attempt := by
      rw [heq]
      exact List.getElem?_concat_length
    obtain ⟨hattempted, hanswer, hundecided⟩ :=
      handshake_of_attempt runnerId hget r toRunner
    have hbefore : (handshake runnerId b r toRunner taskId).attempted = false :=
      decide_eq_false (by omega)
    refine (Handshake.Step.attempt _ hbefore).to
      (Handshake.ext hattempted ?_ rfl rfl rfl hanswer hundecided rfl rfl rfl ?_ rfl rfl)
    · show _ + (if decide (b.attempts.length = taskId) = true then 1 else 0) = _ + 1
      rw [heq, decide_eq_true rfl, if_pos rfl]
      rfl
    · exact Bool.or_false _
  · have hget : next.attempts[taskId]? = b.attempts[taskId]? := by
      cases Nat.lt_or_gt_of_ne heq with
      | inl hlt => exact List.getElem?_append_left hlt
      | inr hgt =>
        rw [List.getElem?_eq_none (Nat.le_of_lt hgt), List.getElem?_eq_none]
        rw [List.length_append, List.length_singleton]
        omega
    have hlength : decide (taskId < next.attempts.length) =
        decide (taskId < b.attempts.length) := by
      show decide (taskId < (b.attempts ++ [attempt]).length) = _
      rw [List.length_append, List.length_singleton]
      apply decide_eq_decide.mpr
      omega
    have hanswer : next.attempts[taskId]?.bind (·.answer) =
        b.attempts[taskId]?.bind (·.answer) := by rw [hget]
    have hundecided : next.attempts[taskId]?.any (·.phase.outcome = .undecided) =
        b.attempts[taskId]?.any (·.phase.outcome = .undecided) := by rw [hget]
    refine .of_eq
      (Handshake.ext hlength ?_ rfl rfl rfl hanswer hundecided rfl rfl rfl ?_ rfl rfl)
    · show _ + (if decide (b.attempts.length = taskId) = true then 1 else 0) = _
      rw [decide_eq_false (Ne.symm heq), if_neg Bool.false_ne_true]
      rfl
    · exact Bool.or_false _

/-- The offers that wait are offers of the runner. -/
def OffersOf (b : TaskBroker) (runnerId : String) : Prop :=
  runnerId ∈ b.knownRunners ∧ ∀ o ∈ b.pendingTaskOffers, (b.offer o).runnerId = runnerId

theorem moves_settleRequest (h : b.OffersOf runnerId) (requestRef : Nat) :
    BrokerMoves runnerId b (b.settleRequest requestRef) ∧
      (b.settleRequest requestRef).OffersOf runnerId := by
  unfold settleRequest
  split
  · exact ⟨.refl b, h⟩
  · split
    · exact ⟨.refl b, h⟩
    · rename_i offerRef hfind
      let next : TaskBroker := { b.setAcceptInProgress requestRef true with
        pendingTaskOffers := b.pendingTaskOffers.erase offerRef }
      have hbefore : BrokerMoves runnerId b next := .of_eq rfl rfl fun _ _ _ => rfl
      have hknown : runnerId ∈ next.knownRunners := h.1
      have hoffer : (next.offer offerRef).runnerId = runnerId :=
        h.2 offerRef (List.mem_of_find?_eq_some hfind)
      have haccept := moves_acceptOffer hknown hoffer requestRef
      have hpending : (next.acceptOffer offerRef requestRef).pendingTaskOffers =
          b.pendingTaskOffers.erase offerRef := by
        simp only [acceptOffer, messageRunner]
        split <;> rfl
      refine ⟨hbefore.trans haccept, ?_, fun o ho => ?_⟩
      · show runnerId ∈ (next.acceptOffer offerRef requestRef).knownRunners
        rw [haccept.knownRunners]
        exact h.1
      · have ho' : o ∈ (next.acceptOffer offerRef requestRef).pendingTaskOffers := ho
        rw [hpending] at ho'
        show ((next.acceptOffer offerRef requestRef).offer o).runnerId = runnerId
        rw [offer, haccept.offers]
        exact h.2 o (List.mem_of_mem_erase ho')

theorem moves_foldl_settleRequest (h : b.OffersOf runnerId) (requestRefs : List Nat) :
    BrokerMoves runnerId b (requestRefs.foldl settleRequest b) := by
  induction requestRefs generalizing b with
  | nil => exact .refl b
  | cons requestRef requestRefs ih =>
    obtain ⟨hmoves, hoffers⟩ := moves_settleRequest h requestRef
    exact hmoves.trans (ih hoffers)

theorem moves_settleTasks (h : b.OffersOf runnerId) : BrokerMoves runnerId b b.settleTasks := by
  have hexpire : BrokerMoves runnerId b b.expireTasks := .of_eq rfl rfl fun _ _ _ => rfl
  have hoffers : b.expireTasks.OffersOf runnerId :=
    ⟨h.1, fun o ho => h.2 o (List.mem_of_mem_filter ho)⟩
  exact hexpire.trans (moves_foldl_settleRequest hoffers b.expireTasks.pendingTaskRequests)

theorem ServedBy.offersOf (h : b.ServedBy runnerId) : b.OffersOf runnerId :=
  ⟨h.known, fun o ho => h.runnerId_of_offer (h.origin.wf.offer_lt o ho)⟩

theorem moves_taskRequested (h : b.ServedBy runnerId) (request : TaskRequest) :
    BrokerMoves runnerId b (b.taskRequested request) := by
  let next : TaskBroker := { b with
    requests := b.requests ++ [request]
    pendingTaskRequests := b.pendingTaskRequests ++ [b.requests.length] }
  have hbefore : BrokerMoves runnerId b next := .of_eq rfl rfl fun _ _ _ => rfl
  have hoffers : next.OffersOf runnerId := h.offersOf
  exact hbefore.trans (moves_settleTasks hoffers)

end Settling

section Events

variable {mode : TaskRunnerMode}

theorem moves_resumeAttempt (h : b.ServedBy runnerId) {t : Nat} {ok : Bool}
    (hlocal : b.isLocal (.resumeAttempt t ok) = true) (hstep : b.resumeAttempt t ok = some b') :
    BrokerMoves runnerId b b' := by
  obtain ⟨a, ha, hstep⟩ := Option.bind_eq_some_iff.mp hstep
  cases hphase : a.phase with
  | messagingRunner =>
    rw [hphase] at hstep
    -- a message to the runner does not fail in a session
    have hok : ok = true := by
      rw [isLocal, ha, Option.any_some, hphase] at hlocal
      simpa using hlocal
    subst hok
    cases hstep
    exact moves_setPhase ha (by rw [hphase]; rfl)
  | waitingForRunner =>
    rw [hphase] at hstep
    obtain ⟨answer, hanswer, hstep⟩ := Option.bind_eq_some_iff.mp hstep
    cases answer with
    | accepted =>
      cases hstep
      exact moves_taskAccepted ha (by rw [hphase]; rfl) hanswer
    | rejected reason =>
      cases hstep
      exact moves_failAttempt ha ⟨_, hanswer, RunnerAnswer.noConfusion⟩ false
    | deferred =>
      cases hstep
      exact moves_failAttempt ha ⟨_, hanswer, RunnerAnswer.noConfusion⟩ true
    | timedOut =>
      cases hstep
      exact moves_failAttempt ha ⟨_, hanswer, RunnerAnswer.noConfusion⟩ false
  | failed =>
    rw [hphase] at hstep
    cases hstep
  | messagingRequester =>
    rw [hphase] at hstep
    have hcreated : a.phase.outcome = .created := by rw [hphase]; rfl
    cases ok with
    | false =>
      cases hstep
      exact moves_abandonTask h ha hcreated _
    | true =>
      cases hstep
      exact moves_setPhase ha hcreated.symm
  | waitingForSettings =>
    rw [hphase] at hstep
    have hcreated : a.phase.outcome = .created := by rw [hphase]; rfl
    obtain ⟨settings, -, hstep⟩ := Option.bind_eq_some_iff.mp hstep
    cases settings with
    | received =>
      cases hstep
      exact moves_sendTaskSettings h ha hcreated
    | timedOut =>
      cases hstep
      exact moves_abandonTask h ha hcreated _
  | gettingRunner =>
    rw [hphase] at hstep
    cases hstep
    exact moves_startTask h ha (by rw [hphase]; rfl)
  | sendingSettings =>
    rw [hphase] at hstep
    have hcreated : a.phase.outcome = .created := by rw [hphase]; rfl
    cases ok with
    | false =>
      cases hstep
      exact moves_abandonTask h ha hcreated _
    | true =>
      cases hstep
      exact moves_setPhase ha hcreated.symm
  | ended =>
    rw [hphase] at hstep
    cases hstep

theorem moves_onRequesterMessage (h : b.ServedBy runnerId) (requesterId : String)
    (message : RequesterMessage) :
    BrokerMoves runnerId b (b.onRequesterMessage requesterId message) := by
  cases message with
  | taskSettings t => exact moves_answerSettings b t .received
  | taskCancel t reason =>
    exact moves_cancelTask h.known (fun _ htask => h.runnerId_of_task htask) reason
  | taskRequest requestId taskType => exact moves_taskRequested h _
  | response t =>
    show BrokerMoves runnerId b (b.getRunnerOrFailTask t).1
    rw [h.getRunnerOrFailTask]
    exact .refl b

theorem moves_of_isLocal (h : b.ServedBy runnerId) {e : BrokerEvent} (hlocal : b.isLocal e = true)
    (hstep : b.step mode e = some b') : BrokerMoves runnerId b b' := by
  cases e with
  | elapse duration =>
    cases hstep
    exact .of_eq rfl rfl fun _ _ _ => rfl
  | registerRunner runnerId' => cases hlocal
  | deregisterRunner runnerId' => cases hlocal
  | registerRequester requesterId =>
    cases hstep
    exact .of_eq rfl rfl fun _ _ _ => rfl
  | deregisterRequester requesterId =>
    cases hstep
    exact .of_eq rfl rfl fun _ _ _ => rfl
  | runnerMessage runnerId' message => cases hlocal
  | requesterMessage requesterId message =>
    cases hstep
    exact moves_onRequesterMessage h requesterId message
  | acceptTimeout t =>
    cases hstep
    exact moves_acceptTimeout b t
  | settingsTimeout t =>
    cases hstep
    exact moves_answerSettings b t .timedOut
  | taskTimeout t =>
    simp only [step] at hstep
    split at hstep
    · cases hstep
      exact moves_handleTaskTimeout h mode t
    · cases hstep
  | resumeAttempt t ok => exact moves_resumeAttempt h hlocal hstep
  | resumeHandler index ok => exact moves_resumeHandler hstep

end Events

end TaskBroker

end N8n.TaskRunners
