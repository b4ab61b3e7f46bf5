import N8n.TaskRunners.BrokerMoves

/-!
# The moves of a session

Every event of a session is, for each task, a run of moves of its handshake, provided that no
acceptance comes late: `steps_of_step`.
-/

namespace N8n.TaskRunners

open Collections

namespace TaskRunner

variable {opts : TaskRunnerOpts} {r : TaskRunner} {runnerId : String} {b : TaskBroker}
  {toRunner : List ToRunner}

section Frame

theorem handshake_send (message : RunnerMessage) (taskId : Nat) :
    handshake runnerId b (r.send message) toRunner taskId =
      { handshake runnerId b r toRunner taskId with
        acceptances := (handshake runnerId b r toRunner taskId).acceptances +
          if message = .taskAccepted taskId then 1 else 0
        refusals := (handshake runnerId b r toRunner taskId).refusals +
          if message.refuses taskId then 1 else 0
        ends := (handshake runnerId b r toRunner taskId).ends +
          if message.ends taskId then 1 else 0 } := by
  have hcount (p : RunnerMessage → Bool) : (r.toBroker ++ [message]).countP p =
      r.toBroker.countP p + if p message then 1 else 0 := by
    rw [List.countP_append, List.countP_singleton]
  have hacceptances : (r.toBroker ++ [message]).countP (· = .taskAccepted taskId) =
      r.toBroker.countP (· = .taskAccepted taskId) +
        if message = .taskAccepted taskId then 1 else 0 := by
    rw [hcount]
    simp only [decide_eq_true_eq]
  exact Handshake.ext rfl rfl hacceptances (hcount _) (hcount _) rfl rfl rfl rfl rfl rfl rfl rfl

theorem handshake_sendOffer (taskId : Nat) :
    handshake runnerId b (r.sendOffer opts) toRunner taskId =
      handshake runnerId b r toRunner taskId := by
  unfold sendOffer
  dsimp only
  rw [handshake_send]
  rfl

theorem handshake_sendOffers (r : TaskRunner) (taskId : Nat) :
    handshake runnerId b (r.sendOffers opts) toRunner taskId =
      handshake runnerId b r toRunner taskId := by
  have hiterate (n : Nat) (r : TaskRunner) :
      handshake runnerId b ((sendOffer opts)^[n] r) toRunner taskId =
        handshake runnerId b r toRunner taskId := by
    induction n generalizing r with
    | zero => rfl
    | succ n ih =>
      rw [Function.iterate_succ_apply, ih, handshake_sendOffer]
  unfold sendOffers
  dsimp only
  split
  · rw [hiterate]
    rfl
  · rfl

theorem handshake_setStatus (t : Nat) (status : TaskStatus) (taskId : Nat) :
    handshake runnerId b (r.setStatus t status) toRunner taskId =
      { handshake runnerId b r toRunner taskId with
        status := if taskId = t then some status else r.runningTasks.get? taskId } :=
  Handshake.ext rfl rfl rfl rfl rfl rfl rfl rfl rfl rfl rfl rfl (InsertionMap.get_set _ _ _ _)

theorem get_finishTask (r : TaskRunner) (t taskId : Nat) :
    (r.finishTask opts t).runningTasks.get? taskId =
      if taskId = t then none else r.runningTasks.get? taskId := by
  have hoffers (r : TaskRunner) : (r.sendOffers opts).runningTasks.get? taskId =
      r.runningTasks.get? taskId :=
    congrArg Handshake.status (handshake_sendOffers r taskId : handshake "" {} _ [] taskId = _)
  rw [finishTask, hoffers, InsertionMap.get_delete]

theorem handshake_finishTask (r : TaskRunner) (t taskId : Nat) :
    handshake runnerId b (r.finishTask opts t) toRunner taskId =
      { handshake runnerId b r toRunner taskId with
        status := if taskId = t then none else r.runningTasks.get? taskId } := by
  rw [finishTask, handshake_sendOffers]
  exact Handshake.ext rfl rfl rfl rfl rfl rfl rfl rfl rfl rfl rfl rfl
    (InsertionMap.get_delete _ _ _)

end Frame

section Leaving

theorem steps_of_leave {t taskId : Nat} {h' : Handshake} (status : Option TaskStatus) (sent : Nat)
    (hheld : (r.runningTasks.get? t).isSome)
    (hstatus : status.any TaskStatus.isAccepted = false)
    (heq : h' = { handshake runnerId b r toRunner taskId with
      status := if taskId = t then status else r.runningTasks.get? taskId
      ends := (handshake runnerId b r toRunner taskId).ends + if taskId = t then sent else 0 }) :
    (handshake runnerId b r toRunner taskId).Steps h' := by
  rw [heq]
  by_cases ht : taskId = t
  · subst ht
    rw [if_pos rfl, if_pos rfl]
    exact .single (.leave _ status sent hheld hstatus)
  · rw [if_neg ht, if_neg ht]
    exact .refl

theorem steps_finishTask {t : Nat} (hheld : (r.runningTasks.get? t).isSome) (taskId : Nat) :
    (handshake runnerId b r toRunner taskId).Steps
      (handshake runnerId b (r.finishTask opts t) toRunner taskId) := by
  refine steps_of_leave none 0 hheld Option.any_none ?_
  rw [handshake_finishTask, ite_self]
  rfl

theorem steps_sendEnd {t : Nat} (hheld : (r.runningTasks.get? t).isSome) {message : RunnerMessage}
    (haccepted : ∀ taskId, message ≠ .taskAccepted taskId)
    (hrefuses : ∀ taskId, message.refuses taskId = false)
    (hends : ∀ taskId, message.ends taskId = decide (t = taskId)) (taskId : Nat) :
    (handshake runnerId b r toRunner taskId).Steps
      (handshake runnerId b ((r.send message).finishTask opts t) toRunner taskId) := by
  have hsent : (if message.ends taskId then 1 else 0) = if taskId = t then 1 else 0 := by
    by_cases heq : taskId = t
    · rw [hends, if_pos heq, heq, decide_eq_true rfl, if_pos rfl]
    · rw [hends, if_neg heq, decide_eq_false (Ne.symm heq), if_neg Bool.false_ne_true]
  refine steps_of_leave none 1 hheld Option.any_none ?_
  rw [handshake_finishTask, handshake_send, if_neg (haccepted taskId), hrefuses,
    if_neg Bool.false_ne_true, hsent]
  rfl

theorem steps_abort {t : Nat} (hheld : (r.runningTasks.get? t).isSome) {status : TaskStatus}
    (hstatus : status.isAccepted = false) (taskId : Nat) :
    (handshake runnerId b r toRunner taskId).Steps
      (handshake runnerId b (r.setStatus t status) toRunner taskId) := by
  refine steps_of_leave (some status) 0 hheld hstatus ?_
  rw [handshake_setStatus, ite_self]
  rfl

theorem steps_taskTimedOut (t taskId : Nat) :
    (handshake runnerId b r toRunner taskId).Steps
      (handshake runnerId b (r.taskTimedOut opts t) toRunner taskId) := by
  unfold taskTimedOut
  cases hstatus : r.runningTasks.get? t with
  | none => exact .refl
  | some status =>
    have hheld : (r.runningTasks.get? t).isSome := by
      rw [hstatus]
      rfl
    cases status with
    | waitingForSettings =>
      exact steps_sendEnd hheld (fun _ => RunnerMessage.noConfusion) (fun _ => rfl)
        (fun _ => rfl) taskId
    | running => exact steps_abort hheld rfl taskId
    | abortingCancelled => exact .refl
    | abortingTimeout => exact .refl

theorem steps_taskExecutionEnded {t : Nat} (hheld : (r.runningTasks.get? t).isSome)
    {message : Nat → RunnerMessage} (haccepted : ∀ taskId, message t ≠ .taskAccepted taskId)
    (hrefuses : ∀ taskId, (message t).refuses taskId = false)
    (hends : ∀ taskId, (message t).ends taskId = decide (t = taskId)) (taskId : Nat) :
    (handshake runnerId b r toRunner taskId).Steps
      (handshake runnerId b (r.taskExecutionEnded opts message t) toRunner taskId) := by
  unfold taskExecutionEnded
  split
  · exact steps_sendEnd hheld haccepted hrefuses hends taskId
  · exact steps_sendEnd hheld haccepted hrefuses hends taskId
  · exact steps_finishTask hheld taskId

end Leaving

section Reading

theorem handshake_cons (message : ToRunner) (messages : List ToRunner) (taskId : Nat) :
    handshake runnerId b r (message :: messages) taskId =
      { handshake runnerId b r messages taskId with
        offers := (handshake runnerId b r messages taskId).offers +
          if message.acceptsFor taskId then 1 else 0
        cancelled := message.cancels taskId ||
          (handshake runnerId b r messages taskId).cancelled } :=
  Handshake.ext rfl List.countP_cons rfl rfl rfl rfl rfl rfl rfl rfl List.any_cons rfl rfl

theorem steps_reject (h : Handshake) (t taskId : Nat) (reason : String)
    (hsame : handshake runnerId b r toRunner taskId = h) :
    Handshake.Steps { h with offers := h.offers + if t = taskId then 1 else 0 }
      (handshake runnerId b (r.send (.taskRejected t reason)) toRunner taskId) := by
  have hrefuses : (RunnerMessage.taskRejected t reason).refuses taskId = decide (t = taskId) := rfl
  have hends : (RunnerMessage.taskRejected t reason).ends taskId = false := rfl
  have haccepted : RunnerMessage.taskRejected t reason ≠ .taskAccepted taskId :=
    RunnerMessage.noConfusion
  rw [handshake_send, hsame, if_neg haccepted, hrefuses, hends]
  by_cases heq : t = taskId
  · rw [if_pos heq, decide_eq_true heq]
    exact .single (.refuse _ rfl)
  · rw [if_neg heq, decide_eq_false heq]
    exact .refl

theorem steps_accept (h : Handshake) (t taskId : Nat)
    (hsame : handshake runnerId b r toRunner taskId = h) :
    Handshake.Steps { h with offers := h.offers + if t = taskId then 1 else 0 }
      (handshake runnerId b ((r.setStatus t .waitingForSettings).send (.taskAccepted t)) toRunner
        taskId) := by
  have hrefuses : (RunnerMessage.taskAccepted t).refuses taskId = false := rfl
  have hends : (RunnerMessage.taskAccepted t).ends taskId = false := rfl
  rw [handshake_send, handshake_setStatus, hsame, hrefuses, hends]
  by_cases heq : t = taskId
  · rw [if_pos heq, if_pos (congrArg RunnerMessage.taskAccepted heq), if_pos heq.symm]
    exact .single (.accept _ rfl)
  · rw [if_neg heq, if_neg fun h => heq (RunnerMessage.taskAccepted.inj h),
      if_neg (Ne.symm heq)]
    subst hsame
    exact .refl

theorem steps_offerAccepted (offerId : String) (t taskId : Nat) :
    (handshake runnerId b r (.taskOfferAccept offerId t :: toRunner) taskId).Steps
      (handshake runnerId b (r.offerAccepted opts offerId t) toRunner taskId) := by
  have hcons : handshake runnerId b r (.taskOfferAccept offerId t :: toRunner) taskId =
      { handshake runnerId b r toRunner taskId with
        offers := (handshake runnerId b r toRunner taskId).offers +
          if t = taskId then 1 else 0 } := by
    rw [handshake_cons]
    simp only [ToRunner.acceptsFor, ToRunner.cancels, decide_eq_true_eq, Bool.false_or]
  rw [hcons]
  unfold offerAccepted
  by_cases hslots : (!r.hasOpenTaskSlots opts) = true
  · rw [if_pos hslots]
    exact steps_reject _ t taskId _ rfl
  · rw [if_neg hslots]
    by_cases hoffer : (!r.openOffers.has offerId) = true
    · rw [if_pos hoffer]
      exact steps_reject _ t taskId _ rfl
    · rw [if_neg hoffer]
      let next : TaskRunner := { r with openOffers := r.openOffers.delete offerId }
      have haccept : Handshake.Steps _ (handshake runnerId b
          ((next.setStatus t .waitingForSettings).send (.taskAccepted t)) toRunner taskId) :=
        steps_accept _ t taskId rfl
      exact haccept

theorem steps_readCancellation {t : Nat} (reason : String)
    (hleft : (r.runningTasks.get? t).any TaskStatus.isAccepted = false) (taskId : Nat) :
    (handshake runnerId b r (.taskCancel t reason :: toRunner) taskId).Steps
      (handshake runnerId b r toRunner taskId) := by
  have haccepts : (ToRunner.taskCancel t reason).acceptsFor taskId = false := rfl
  have hcancels : (ToRunner.taskCancel t reason).cancels taskId = decide (t = taskId) := rfl
  rw [handshake_cons, haccepts, hcancels]
  by_cases heq : t = taskId
  · subst heq
    exact .single (.cancellationRead _ (handshake runnerId b r toRunner t).cancelled hleft)
  · rw [decide_eq_false heq, Bool.false_or]
    exact .refl

theorem steps_taskCancelled (t : Nat) (reason : String) (taskId : Nat) :
    (handshake runnerId b r (.taskCancel t reason :: toRunner) taskId).Steps
      (handshake runnerId b (r.taskCancelled opts t) toRunner taskId) := by
  unfold taskCancelled
  cases hstatus : r.runningTasks.get? t with
  | none =>
    refine steps_readCancellation reason ?_ taskId
    rw [hstatus]
    rfl
  | some status =>
    have hheld : (r.runningTasks.get? t).isSome := by
      rw [hstatus]
      rfl
    cases status with
    | waitingForSettings =>
      refine (steps_finishTask hheld taskId).trans (steps_readCancellation reason ?_ taskId)
      rw [get_finishTask, if_pos rfl]
      rfl
    | running =>
      have habort : TaskStatus.abortingCancelled.isAccepted = false := rfl
      refine (steps_abort hheld habort taskId).trans (steps_readCancellation reason ?_ taskId)
      rw [setStatus, InsertionMap.get_set_same]
      rfl
    | abortingCancelled =>
      refine steps_readCancellation reason ?_ taskId
      rw [hstatus]
      rfl
    | abortingTimeout =>
      refine steps_readCancellation reason ?_ taskId
      rw [hstatus]
      rfl

theorem steps_receivedSettings (t taskId : Nat) :
    (handshake runnerId b r (.taskSettings t :: toRunner) taskId).Steps
      (handshake runnerId b (r.receivedSettings t) toRunner taskId) := by
  have hcons : handshake runnerId b r (.taskSettings t :: toRunner) taskId =
      handshake runnerId b r toRunner taskId := by
    rw [handshake_cons]
    rfl
  rw [hcons]
  unfold receivedSettings
  split
  · rename_i hstatus
    rw [handshake_setStatus]
    by_cases heq : taskId = t
    · subst heq
      rw [if_pos rfl]
      exact .single (.start _ hstatus)
    · rw [if_neg heq]
      exact .refl
  · exact .refl

theorem steps_onMessage (message : ToRunner) (taskId : Nat) :
    (handshake runnerId b r (message :: toRunner) taskId).Steps
      (handshake runnerId b (r.onMessage opts message) toRunner taskId) := by
  cases message with
  | runnerRegistered =>
    refine .of_eq ?_
    rw [handshake_cons]
    rfl
  | taskOfferAccept offerId t => exact steps_offerAccepted offerId t taskId
  | taskCancel t reason => exact steps_taskCancelled t reason taskId
  | taskSettings t => exact steps_receivedSettings t taskId

end Reading

end TaskRunner

namespace TaskBroker

variable {b b' : TaskBroker} {runnerId : String} {mode : TaskRunnerMode}

theorem ServedBy.step (h : b.ServedBy runnerId) {e : BrokerEvent} (hstep : b.step mode e = some b')
    (hknown : b'.knownRunners = b.knownRunners)
    (hoffers : ∀ offer ∈ b'.offers, offer.runnerId = runnerId) : b'.ServedBy runnerId where
  known := by
    rw [hknown]
    exact h.known
  offers := hoffers
  origin := h.origin.step hstep

theorem moves_taskOffered (h : b.ServedBy runnerId) {offer : TaskOffer}
    (hoffer : offer.runnerId = runnerId) :
    (b.taskOffered offer).knownRunners = b.knownRunners ∧
      (∀ offer' ∈ (b.taskOffered offer).offers, offer'.runnerId = runnerId) ∧
      ∀ r toRunner taskId, (handshake runnerId b r toRunner taskId).Steps
        (handshake runnerId (b.taskOffered offer) r toRunner taskId) := by
  let next : TaskBroker := { b with
    offers := b.offers ++ [offer]
    pendingTaskOffers := b.pendingTaskOffers ++ [b.offers.length] }
  have hall : ∀ offer' ∈ next.offers, offer'.runnerId = runnerId := by
    intro offer' hmem
    cases List.mem_append.mp hmem with
    | inl hmem => exact h.offers offer' hmem
    | inr hmem =>
      rw [List.mem_singleton.mp hmem]
      exact hoffer
  have hpending : next.OffersOf runnerId := by
    refine ⟨h.known, fun o ho => ?_⟩
    have hlt : o < next.offers.length := by
      show o < (b.offers ++ [offer]).length
      rw [List.length_append, List.length_singleton]
      cases List.mem_append.mp ho with
      | inl ho => exact Nat.lt_succ_of_lt (h.origin.wf.offer_lt o ho)
      | inr ho =>
        rw [List.mem_singleton.mp ho]
        exact Nat.lt_succ_self _
    show (next.offers.getD o default).runnerId = runnerId
    rw [List.getD_eq_getElem?_getD, List.getElem?_eq_getElem hlt]
    exact hall _ (List.getElem_mem hlt)
  have hmoves : BrokerMoves runnerId next (b.taskOffered offer) := moves_settleTasks hpending
  refine ⟨hmoves.knownRunners, ?_, hmoves.steps⟩
  rw [hmoves.offers]
  exact hall

theorem handshake_toBroker (b : TaskBroker) (runnerId : String) {r : TaskRunner}
    {message : RunnerMessage} {messages : List RunnerMessage}
    (hmessages : r.toBroker = message :: messages) (toRunner : List ToRunner) (taskId : Nat) :
    handshake runnerId b r toRunner taskId =
      { handshake runnerId b { r with toBroker := messages } toRunner taskId with
        acceptances := messages.countP (· = .taskAccepted taskId) +
          if message = .taskAccepted taskId then 1 else 0
        refusals := messages.countP (·.refuses taskId) + if message.refuses taskId then 1 else 0
        ends := messages.countP (·.ends taskId) + if message.ends taskId then 1 else 0 } := by
  have hcount (p : RunnerMessage → Bool) :
      r.toBroker.countP p = messages.countP p + if p message then 1 else 0 := by
    rw [hmessages, List.countP_cons]
  have hacceptances : r.toBroker.countP (· = .taskAccepted taskId) =
      messages.countP (· = .taskAccepted taskId) +
        if message = .taskAccepted taskId then 1 else 0 := by
    rw [hcount]
    simp only [decide_eq_true_eq]
  exact Handshake.ext rfl rfl hacceptances (hcount _) (hcount _) rfl rfl rfl rfl rfl rfl rfl rfl

section Reading

variable {r : TaskRunner} {messages : List RunnerMessage} {toRunner : List ToRunner} {t : Nat}

theorem steps_readAcceptance (hmessages : r.toBroker = .taskAccepted t :: messages)
    (hattempt : t < b.attempts.length)
    (htime : (handshake runnerId b r toRunner t).answer = some .timedOut →
      (handshake runnerId b r toRunner t).accepted = false) (taskId : Nat) :
    (handshake runnerId b r toRunner taskId).Steps
      (handshake runnerId (b.answerOffer t .accepted) { r with toBroker := messages } toRunner
        taskId) := by
  have hrefuses : (RunnerMessage.taskAccepted t).refuses taskId = false := rfl
  have hends : (RunnerMessage.taskAccepted t).ends taskId = false := rfl
  have hread := handshake_toBroker b runnerId hmessages toRunner taskId
  rw [hrefuses, hends] at hread
  by_cases heq : t = taskId
  · subst heq
    rw [if_pos rfl] at hread
    obtain ⟨a, ha⟩ : ∃ a, b.attempts[t]? = some a := ⟨_, List.getElem?_eq_getElem hattempt⟩
    rw [handshake_answerOffer ha]
    refine (Handshake.Step.acceptanceRead _ (congrArg Handshake.acceptances hread) htime).to ?_
    rw [hread]
    rfl
  · have hother : RunnerMessage.taskAccepted t ≠ .taskAccepted taskId :=
      fun h => heq (RunnerMessage.taskAccepted.inj h)
    rw [if_neg hother] at hread
    rw [answerOffer, handshake_setAttempt_of_ne (Ne.symm heq), hread]
    exact .refl

variable {message : RunnerMessage}

theorem steps_readRefusal (hmessages : r.toBroker = message :: messages)
    (haccepted : ∀ taskId, message ≠ .taskAccepted taskId)
    (hrefuses : ∀ taskId, message.refuses taskId = decide (t = taskId))
    (hends : ∀ taskId, message.ends taskId = false) (hattempt : t < b.attempts.length)
    (answer : RunnerAnswer) (taskId : Nat) :
    (handshake runnerId b r toRunner taskId).Steps
      (handshake runnerId (b.answerOffer t answer) { r with toBroker := messages } toRunner
        taskId) := by
  have hread := handshake_toBroker b runnerId hmessages toRunner taskId
  rw [if_neg (haccepted taskId), hrefuses, hends] at hread
  by_cases heq : t = taskId
  · subst heq
    rw [decide_eq_true rfl] at hread
    obtain ⟨a, ha⟩ : ∃ a, b.attempts[t]? = some a := ⟨_, List.getElem?_eq_getElem hattempt⟩
    rw [handshake_answerOffer ha]
    refine (Handshake.Step.refusalRead _ answer (congrArg Handshake.refusals hread)).to ?_
    rw [hread]
    rfl
  · rw [decide_eq_false heq] at hread
    rw [answerOffer, handshake_setAttempt_of_ne (Ne.symm heq), hread]
    exact .refl

theorem steps_readEnd (hmessages : r.toBroker = message :: messages)
    (haccepted : ∀ taskId, message ≠ .taskAccepted taskId)
    (hrefuses : ∀ taskId, message.refuses taskId = false)
    (hends : ∀ taskId, message.ends taskId = decide (t = taskId)) (report : Nat → ToRequester)
    (taskId : Nat) :
    (handshake runnerId b r toRunner taskId).Steps
      (handshake runnerId (b.finishTask report t) { r with toBroker := messages } toRunner
        taskId) := by
  have hread := handshake_toBroker b runnerId hmessages toRunner taskId
  rw [if_neg (haccepted taskId), hrefuses, hends] at hread
  rw [handshake_finishTask]
  by_cases heq : t = taskId
  · subst heq
    rw [decide_eq_true rfl] at hread
    refine (Handshake.Step.endRead _ (congrArg Handshake.ends hread)).to ?_
    rw [hread, decide_eq_true rfl, Bool.true_and]
    rfl
  · rw [decide_eq_false heq] at hread
    rw [decide_eq_false (Ne.symm heq), Bool.false_and, Bool.or_false, hread]
    exact .refl

theorem handshake_readOther (hmessages : r.toBroker = message :: messages)
    (haccepted : ∀ taskId, message ≠ .taskAccepted taskId)
    (hrefuses : ∀ taskId, message.refuses taskId = false)
    (hends : ∀ taskId, message.ends taskId = false) (taskId : Nat) :
    handshake runnerId b r toRunner taskId =
      handshake runnerId b { r with toBroker := messages } toRunner taskId := by
  rw [handshake_toBroker b runnerId hmessages, if_neg (haccepted taskId), hrefuses, hends]
  rfl

end Reading

end TaskBroker

end N8n.TaskRunners
