import N8n.TaskRunners.SessionMoves

/-!
# The broker and the runner agree

A task that the runner holds is known to the broker, or something about it is under way, in every
run in which no acceptance comes too late. After its accept timeout the broker gives the task up
without telling the runner, and ignores the acceptance when it comes.
-/

namespace N8n.TaskRunners

open Transition

/-- The runner holds the task as accepted, waiting for its settings or running. -/
def TaskRunner.holds (r : TaskRunner) (taskId : Nat) : Bool :=
  (r.runningTasks.get? taskId).any TaskStatus.isAccepted

/-- The runner did not answer the accept attempt in time. -/
def TaskBroker.acceptTimedOut (b : TaskBroker) (taskId : Nat) : Bool :=
  b.attempts[taskId]?.any (·.answer = some .timedOut)

/-- The accept attempt has got the acceptance of the runner and has not gone on yet. -/
def TaskBroker.takesAcceptance (b : TaskBroker) (taskId : Nat) : Bool :=
  b.attempts[taskId]?.any fun a => a.phase.outcome = .undecided ∧ a.answer = some .accepted

namespace Session

/-- An acceptance, the end, a cancellation or the expiry of the task is under way. -/
def UnderWay (s : Session) (taskId : Nat) : Prop :=
  .taskAccepted taskId ∈ s.runner.toBroker ∨ s.broker.takesAcceptance taskId = true ∨
    .taskDone taskId ∈ s.runner.toBroker ∨ .taskError taskId ∈ s.runner.toBroker ∨
      (∃ reason, .taskCancel taskId reason ∈ s.toRunner) ∨ taskId ∈ s.broker.timedOutDuringTask

/-- Every task that the runner holds is known to the broker as a task of the runner, or something
about it is under way. -/
def Agree (opts : TaskRunnerOpts) (s : Session) : Prop :=
  ∀ taskId, s.runner.holds taskId = true →
    (∃ task, s.broker.tasks.get? taskId = some task ∧ task.runnerId = opts.id) ∨ s.UnderWay taskId

/-- The next message to the broker is not the acceptance of a task whose accept timeout has fired
and that the runner still holds. -/
def answersInTime (s : Session) : Bool :=
  match s.runner.toBroker with
  | .taskAccepted taskId :: _ => !(s.broker.acceptTimedOut taskId && s.runner.holds taskId)
  | _ => true

/-- No acceptance comes too late. -/
def AnswersInTime (s : Session) : SessionEvent → Prop
  | .toBroker => s.answersInTime = true
  | _ => True

instance (s : Session) : (e : SessionEvent) → Decidable (s.AnswersInTime e)
  | .toBroker => inferInstanceAs (Decidable (_ = true))
  | .broker _ | .toRunner | .elapse _ | .sendOffers | .stopTaskOffers | .taskTimedOut _
  | .taskExecutionSucceeded _ | .taskExecutionFailed _ => inferInstanceAs (Decidable True)

variable {opts : TaskRunnerOpts} {mode : TaskRunnerMode} {s s' : Session} {e : SessionEvent}

/-- The handshake of the session about a task. -/
def handshake (opts : TaskRunnerOpts) (s : Session) (taskId : Nat) : Handshake :=
  TaskRunners.handshake opts.id s.broker s.runner s.toRunner taskId

/-- The broker is served by the runner, and all handshakes are sound. -/
structure Sound (opts : TaskRunnerOpts) (s : Session) : Prop where
  served : s.broker.ServedBy opts.id
  sent : s.broker.toRunners = []
  handshake : ∀ taskId, (s.handshake opts taskId).Sound

theorem Sound.runner (h : s.Sound opts) {r : TaskRunner} {toRunner : List ToRunner}
    (hsteps : ∀ taskId, (s.handshake opts taskId).Steps
      (TaskRunners.handshake opts.id s.broker r toRunner taskId)) :
    Sound opts { s with runner := r, toRunner := toRunner } where
  served := h.served
  sent := h.sent
  handshake taskId := (h.handshake taskId).steps (hsteps taskId)

theorem handshake_react (b : TaskBroker) (taskId : Nat) :
    (s.react opts b).handshake opts taskId =
      TaskRunners.handshake opts.id b s.runner s.toRunner taskId := by
  have hunread : ({ b with toRunners := [] } : TaskBroker).unread opts.id
      (s.toRunner ++ (b.toRunners.filter (·.1 = opts.id)).map (·.2)) =
        b.unread opts.id s.toRunner := List.append_nil _
  have hoffers := congrArg (List.countP (·.acceptsFor taskId)) hunread
  have hcancelled := congrArg (List.any · (·.cancels taskId)) hunread
  exact Handshake.ext rfl hoffers rfl rfl rfl rfl rfl rfl rfl rfl hcancelled rfl rfl

theorem Sound.react (h : s.Sound opts) {r : TaskRunner} {b : TaskBroker}
    (hserved : b.ServedBy opts.id)
    (hsteps : ∀ taskId, (s.handshake opts taskId).Steps
      (TaskRunners.handshake opts.id b r s.toRunner taskId)) :
    Sound opts (Session.react opts { s with runner := r } b) where
  served :=
    { known := hserved.known
      offers := hserved.offers
      origin := ⟨hserved.origin.wf, hserved.origin.known, hserved.origin.reported⟩ }
  sent := rfl
  handshake taskId := by
    rw [handshake_react]
    exact (h.handshake taskId).steps (hsteps taskId)

theorem Sound.attempt_lt (h : s.Sound opts) {taskId : Nat}
    (hanswers : 0 < (s.handshake opts taskId).acceptances + (s.handshake opts taskId).refusals) :
    taskId < s.broker.attempts.length := by
  by_contra hge
  have hnew := (h.handshake taskId).new (decide_eq_false hge)
  omega

theorem acceptTimedOut_of_answer (opts : TaskRunnerOpts) {taskId : Nat}
    (h : (s.handshake opts taskId).answer = some .timedOut) :
    s.broker.acceptTimedOut taskId = true := by
  obtain ⟨a, ha, hanswer⟩ := Option.bind_eq_some_iff.mp h
  rw [TaskBroker.acceptTimedOut, ha]
  exact decide_eq_true hanswer

theorem Sound.readMessage (h : s.Sound opts) {message : RunnerMessage}
    {messages : List RunnerMessage} (hmessages : s.runner.toBroker = message :: messages)
    (htime : s.answersInTime = true) {b : TaskBroker}
    (hstep : s.broker.step mode (.runnerMessage opts.id message) = some b) :
    Sound opts (Session.react opts
      { s with runner := { s.runner with toBroker := messages } } b) := by
  have hmem : message ∈ s.runner.toBroker := by
    rw [hmessages]
    exact List.mem_cons_self
  have hserved {b : TaskBroker}
      (hstep : s.broker.step mode (.runnerMessage opts.id message) = some b)
      (hknown : b.knownRunners = s.broker.knownRunners) (hoffers : b.offers = s.broker.offers) :
      b.ServedBy opts.id :=
    h.served.step hstep hknown (by rw [hoffers]; exact h.served.offers)
  have hb : s.broker.onRunnerMessage opts.id message = b := Option.some.inj hstep
  subst hb
  have hrunner : ¬ opts.id ∉ s.broker.knownRunners := not_not.mpr h.served.known
  cases message with
  | taskAccepted t =>
    rw [TaskBroker.onRunnerMessage, if_neg hrunner] at hstep ⊢
    have hlt : t < s.broker.attempts.length := by
      apply h.attempt_lt
      have hpos : 0 < (s.handshake opts t).acceptances :=
        List.countP_pos_iff.mpr ⟨_, hmem, decide_eq_true rfl⟩
      omega
    refine h.react (hserved hstep rfl rfl) (TaskBroker.steps_readAcceptance hmessages hlt ?_)
    intro hanswer
    rw [answersInTime, hmessages] at htime
    dsimp only at htime
    rw [acceptTimedOut_of_answer opts hanswer, Bool.true_and, Bool.not_eq_true'] at htime
    exact htime
  | taskRejected t reason =>
    rw [TaskBroker.onRunnerMessage, if_neg hrunner] at hstep ⊢
    have hlt : t < s.broker.attempts.length := by
      apply h.attempt_lt
      have hpos : 0 < (s.handshake opts t).refusals :=
        List.countP_pos_iff.mpr ⟨_, hmem, decide_eq_true rfl⟩
      omega
    exact h.react (hserved hstep rfl rfl)
      (TaskBroker.steps_readRefusal hmessages (fun _ => RunnerMessage.noConfusion) (fun _ => rfl)
        (fun _ => rfl) hlt _)
  | taskDeferred t =>
    rw [TaskBroker.onRunnerMessage, if_neg hrunner] at hstep ⊢
    have hlt : t < s.broker.attempts.length := by
      apply h.attempt_lt
      have hpos : 0 < (s.handshake opts t).refusals :=
        List.countP_pos_iff.mpr ⟨_, hmem, decide_eq_true rfl⟩
      omega
    exact h.react (hserved hstep rfl rfl)
      (TaskBroker.steps_readRefusal hmessages (fun _ => RunnerMessage.noConfusion) (fun _ => rfl)
        (fun _ => rfl) hlt _)
  | taskOffer offerId taskType validFor =>
    rw [TaskBroker.onRunnerMessage, if_neg hrunner] at hstep ⊢
    obtain ⟨hknown, hoffers, hsteps⟩ := TaskBroker.moves_taskOffered h.served
      (rfl : TaskOffer.runnerId ⟨offerId, opts.id, taskType, validFor, _⟩ = opts.id)
    refine h.react (h.served.step hstep hknown hoffers) fun taskId => ?_
    refine Relation.ReflTransGen.trans (Handshake.Steps.of_eq ?_) (hsteps _ _ taskId)
    exact (TaskBroker.handshake_readOther hmessages (fun _ => RunnerMessage.noConfusion)
      (fun _ => rfl) (fun _ => rfl) taskId).symm
  | taskDone t =>
    rw [TaskBroker.onRunnerMessage, if_neg hrunner] at hstep ⊢
    have hframe := TaskBroker.finishTask_frame s.broker .taskDone t
    exact h.react (hserved hstep hframe.1 hframe.2)
      (TaskBroker.steps_readEnd hmessages (fun _ => RunnerMessage.noConfusion) (fun _ => rfl)
        (fun _ => rfl) .taskDone)
  | taskError t =>
    rw [TaskBroker.onRunnerMessage, if_neg hrunner] at hstep ⊢
    have hframe := TaskBroker.finishTask_frame s.broker .taskError t
    exact h.react (hserved hstep hframe.1 hframe.2)
      (TaskBroker.steps_readEnd hmessages (fun _ => RunnerMessage.noConfusion) (fun _ => rfl)
        (fun _ => rfl) .taskError)
  | forwarded t =>
    rw [TaskBroker.onRunnerMessage, if_neg hrunner] at hstep ⊢
    refine h.react h.served fun taskId => .of_eq ?_
    exact (TaskBroker.handshake_readOther hmessages (fun _ => RunnerMessage.noConfusion)
      (fun _ => rfl) (fun _ => rfl) taskId).symm

theorem Sound.step (h : s.Sound opts) (htime : s.AnswersInTime e)
    (hstep : s.step mode opts e = some s') : s'.Sound opts := by
  cases e with
  | broker event =>
    simp only [Session.step] at hstep
    split at hstep
    · rename_i hlocal
      obtain ⟨b, hb, rfl⟩ := Option.map_eq_some_iff.mp hstep
      have hmoves := TaskBroker.moves_of_isLocal h.served hlocal hb
      have hserved := h.served.step hb hmoves.knownRunners
        (by rw [hmoves.offers]; exact h.served.offers)
      exact h.react hserved fun taskId => hmoves.steps s.runner s.toRunner taskId
    · cases hstep
  | toBroker =>
    simp only [Session.step] at hstep
    split at hstep
    · cases hstep
    · rename_i message messages hmessages
      obtain ⟨b, hb, rfl⟩ := Option.map_eq_some_iff.mp hstep
      exact h.readMessage hmessages htime hb
  | toRunner =>
    simp only [Session.step] at hstep
    split at hstep
    · cases hstep
    · rename_i message messages hmessages
      cases hstep
      refine h.runner fun taskId => ?_
      rw [Session.handshake, hmessages]
      exact TaskRunner.steps_onMessage message taskId
  | elapse duration =>
    cases hstep
    exact h.runner fun taskId => .refl
  | sendOffers =>
    cases hstep
    exact h.runner fun taskId => .of_eq (TaskRunner.handshake_sendOffers s.runner taskId)
  | stopTaskOffers =>
    cases hstep
    exact h.runner fun taskId => .refl
  | taskTimedOut t =>
    cases hstep
    exact h.runner (TaskRunner.steps_taskTimedOut t)
  | taskExecutionSucceeded t =>
    simp only [Session.step] at hstep
    split at hstep
    · cases hstep
    · cases hstep
    · rename_i hstatus
      cases hstep
      have hheld : (s.runner.runningTasks.get? t).isSome := by rw [hstatus]; rfl
      exact h.runner (TaskRunner.steps_taskExecutionEnded hheld
        (fun _ => RunnerMessage.noConfusion) (fun _ => rfl) fun _ => rfl)
  | taskExecutionFailed t =>
    simp only [Session.step] at hstep
    split at hstep
    · cases hstep
    · cases hstep
    · rename_i hstatus
      cases hstep
      have hheld : (s.runner.runningTasks.get? t).isSome := by rw [hstatus]; rfl
      exact h.runner (TaskRunner.steps_taskExecutionEnded hheld
        (fun _ => RunnerMessage.noConfusion) (fun _ => rfl) fun _ => rfl)

theorem sound_start (opts : TaskRunnerOpts) : (start opts).Sound opts := by
  have hmem : opts.id ∈ ([] : List String).insert opts.id := List.mem_insert_self
  have hregister : TaskBroker.registerRunner {} opts.id = ({
      knownRunners := ([] : List String).insert opts.id
      toRunners := [(opts.id, .runnerRegistered)] } : TaskBroker) := if_pos hmem
  have hreachable : Reachable (TaskBroker.step .internal) (fun _ _ => True) {} {} := .start
  have horigin := TaskBroker.origin_of_reachable hreachable
  have hstart : start opts = ({
      broker := { knownRunners := ([] : List String).insert opts.id }
      toRunner := [.runnerRegistered] } : Session) := by
    rw [start, hregister, Session.react]
    simp only [List.filter_cons, decide_true, if_true, List.filter_nil, List.map_cons, List.map_nil,
      List.nil_append]
  rw [hstart]
  exact
    { served :=
        { known := hmem
          offers := fun offer hoffer => absurd hoffer List.not_mem_nil
          origin := ⟨horigin.wf, horigin.known, horigin.reported⟩ }
      sent := rfl
      handshake := fun taskId => .of_new rfl rfl rfl rfl rfl rfl rfl rfl rfl rfl }

theorem Sound.sides_agree (h : s.Sound opts) : s.Agree opts := by
  intro taskId hholds
  have hunread : s.broker.unread opts.id s.toRunner = s.toRunner := by
    rw [TaskBroker.unread, TaskBroker.sentTo, h.sent]
    exact List.append_nil _
  cases (h.handshake taskId).handshake_agrees hholds with
  | inl hknown =>
    obtain ⟨task, htask⟩ := Option.isSome_iff_exists.mp hknown
    exact .inl ⟨task, htask, h.served.runnerId_of_task htask⟩
  | inr hrest =>
    right
    cases hrest with
    | inl hacceptance =>
      obtain ⟨message, hmem, heq⟩ := List.countP_pos_iff.mp hacceptance
      exact .inl (of_decide_eq_true heq ▸ hmem)
    | inr hrest =>
      cases hrest with
      | inl hanswered =>
        obtain ⟨hundecided, hanswer⟩ := hanswered
        obtain ⟨a, ha, hanswer⟩ := Option.bind_eq_some_iff.mp hanswer
        obtain ⟨-, -, hphase⟩ :=
          TaskBroker.handshake_of_attempt opts.id ha s.runner s.toRunner
        have houtcome := of_decide_eq_true (hphase.symm.trans hundecided)
        refine .inr (.inl ?_)
        rw [TaskBroker.takesAcceptance, ha]
        exact decide_eq_true ⟨houtcome, hanswer⟩
      | inr hrest =>
        cases hrest with
        | inl hends =>
          obtain ⟨message, hmem, heq⟩ := List.countP_pos_iff.mp hends
          cases message with
          | taskDone t =>
            have ht : t = taskId := of_decide_eq_true heq
            exact .inr (.inr (.inl (ht ▸ hmem)))
          | taskError t =>
            have ht : t = taskId := of_decide_eq_true heq
            exact .inr (.inr (.inr (.inl (ht ▸ hmem))))
          | _ => cases heq
        | inr hrest =>
          cases hrest with
          | inl hcancelled =>
            have hany : (s.broker.unread opts.id s.toRunner).any (·.cancels taskId) =
              true := hcancelled
            rw [hunread] at hany
            obtain ⟨message, hmem, heq⟩ := List.any_eq_true.mp hany
            cases message with
            | taskCancel t reason =>
              have ht : t = taskId := of_decide_eq_true heq
              exact .inr (.inr (.inr (.inr (.inl ⟨reason, ht ▸ hmem⟩))))
            | _ => cases heq
          | inr hexpired =>
            exact .inr (.inr (.inr (.inr (.inr (of_decide_eq_true hexpired)))))

/-- In a session in which no acceptance comes too late, the broker and the runner agree. -/
theorem agree (mode : TaskRunnerMode) (opts : TaskRunnerOpts) (s : Session)
    (h : Reachable (step mode opts) AnswersInTime (start opts) s) : s.Agree opts := by
  have hsound : s.Sound opts :=
    h.keeps (Sound opts) (sound_start opts) fun s e s' hs htime hstep => hs.step htime hstep
  exact hsound.sides_agree

/-- A runner with one slot. -/
def oneSlot : TaskRunnerOpts where
  id := "runner"
  taskType := "javascript"
  maxConcurrency := 1
  nanoid n := String.ofList (List.replicate (n + 1) 'o')
  randomInt _ := 0

/-- The runner has accepted the only request. -/
def requestAccepted : List SessionEvent :=
  [.toRunner, .sendOffers,
    .broker (.requesterMessage "requester" (.taskRequest "request" "javascript")),
    .toBroker, .broker (.resumeAttempt 0 true), .toRunner]

/-- The broker makes the task. -/
theorem agree_requestAccepted :
    ∃ s, runAllowed (step .internal oneSlot) AnswersInTime (start oneSlot)
      (requestAccepted ++ [.toBroker, .broker (.resumeAttempt 0 true)]) = some s ∧
        s.runner.holds 0 = true ∧ s.Agree oneSlot := by
  have hrun : (runAllowed (step .internal oneSlot) AnswersInTime (start oneSlot)
      (requestAccepted ++ [.toBroker, .broker (.resumeAttempt 0 true)])).any fun s =>
        s.runner.holds 0 := by decide +kernel
  obtain ⟨s, hs, hholds⟩ := (Option.any_eq_true _ _).mp hrun
  exact ⟨s, hs, hholds, agree .internal oneSlot s (reachable_of_runAllowed .start hs)⟩

/-- The acceptance reaches the broker after the accept timeout. -/
def acceptedLate : List SessionEvent :=
  requestAccepted ++ [.broker (.acceptTimeout 0), .broker (.resumeAttempt 0 true), .toBroker]

/-- The runner holds a task that the broker has given up. -/
theorem disagree_acceptedLate : ¬ ∀ (mode : TaskRunnerMode) (opts : TaskRunnerOpts) (s : Session),
    Reachable (step mode opts) (fun _ _ => True) (start opts) s → s.Agree opts := by
  intro hclaim
  have hrun : (run (step .internal oneSlot) (start oneSlot) acceptedLate).any fun s =>
      s.runner.holds 0 = true ∧ s.broker.tasks.get? 0 = none ∧ s.runner.toBroker = [] ∧
        s.broker.takesAcceptance 0 = false ∧ s.toRunner = [] ∧
          s.broker.timedOutDuringTask = [] := by decide +kernel
  obtain ⟨s, hs, h⟩ := (Option.any_eq_true _ _).mp hrun
  obtain ⟨hholds, hunknown, htoBroker, hanswer, htoRunner, hexpired⟩ := of_decide_eq_true h
  cases hclaim .internal oneSlot s (reachable_of_run hs) 0 hholds with
  | inl hknown =>
    obtain ⟨task, htask, -⟩ := hknown
    rw [hunknown] at htask
    cases htask
  | inr hunderWay =>
    simp only [UnderWay, htoBroker, hanswer, htoRunner, hexpired, List.not_mem_nil,
      Bool.false_eq_true, exists_false, or_self] at hunderWay

end Session

end N8n.TaskRunners
