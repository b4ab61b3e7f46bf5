import N8n.Activation.ActiveWorkflows
import N8n.Transition.Runs

/-!
# What a failed activation leaves behind

Starting triggers and jobs only adds to the state: `Grown` names what is added, and the lemmas on
`runTrigger` and `activatePolling` say how much that is for a node. From them, `add_atomic_iff`
says for which workflows a failed `add` leaves nothing behind that `remove` cannot close.
-/

namespace N8n.Activation

open Collections

/-- The first element that does not start, and those before it. -/
def firstFailure {α : Type} (starts : α → Bool) : List α → Option (List α × α)
  | [] => none
  | x :: rest =>
    if starts x then (firstFailure starts rest).map fun found => (x :: found.1, found.2)
    else some ([], x)

section Nodes

variable (cronError : List Char → Option (List Char))

/-- Is the job taken by the `cron` package? -/
def taken (cron : Cron) : Bool := (cronError cron.expression).isNone

/-- Does a trigger function with this result start the trigger? -/
def TriggerResult.starts (manual : Bool) : TriggerResult → Bool
  | .throws _ => false
  | .noResponse => !manual
  | .response _ => true

/-- Does the trigger function of the node start? -/
def ActivationNode.triggerStarts (manual : Bool) (node : ActivationNode) : Bool :=
  match node.trigger with
  | none => false
  | some trigger => trigger.crons.all (taken cronError) && trigger.result.starts manual

/-- The jobs that the trigger function of the node registers. -/
def ActivationNode.triggerCrons (node : ActivationNode) : List Cron :=
  match node.trigger with
  | none => []
  | some trigger => trigger.crons.takeWhile (taken cronError)

/-- Does the trigger function of the node open a trigger when it starts? -/
def ActivationNode.opensTrigger (node : ActivationNode) : Bool :=
  node.trigger.any fun trigger => decide (trigger.result = .response true)

/-- Does the trigger function of the node give a response when it starts? -/
def ActivationNode.responds (node : ActivationNode) : Bool :=
  node.trigger.any fun trigger => decide (trigger.result ≠ .noResponse)

/-- Is the job taken as a poll time? -/
def pollable (cron : Cron) : Bool := !tooShort cron.expression && taken cronError cron

/-- Does the poll function run without an error? -/
def PollFunction.runs (poll : PollFunction) : Bool :=
  poll.crons.all (taken cronError) && poll.throws.isNone

/-- Does the polling of the node start? -/
def ActivationNode.pollStarts (node : ActivationNode) : Bool :=
  match node.poll with
  | none => false
  | some poll =>
    match poll.pollTimes with
    | .error _ => false
    | .ok pollTimes =>
      poll.runs cronError && (pollTimes.map PollTime.cron).all (pollable cronError)

/-- The jobs that starting the polling of the node registers. -/
def ActivationNode.pollCrons (node : ActivationNode) : List Cron :=
  match node.poll with
  | none => []
  | some poll =>
    match poll.pollTimes with
    | .error _ => []
    | .ok pollTimes =>
      poll.crons.takeWhile (taken cronError) ++
        if poll.runs cronError then (pollTimes.map PollTime.cron).takeWhile (pollable cronError)
        else []

end Nodes

namespace TaskState

/-- Between the two states the triggers `opened` and the jobs `jobs` were started for the workflow,
with new identities. -/
structure Grown (workflowId : WorkflowId) (s s' : TaskState) (opened : List Nat)
    (jobs : List CronEntry) : Prop where
  triggers : s'.openTriggers = s.openTriggers ++ opened
  crons : ∀ id, s'.crons id = s.crons id ++ if id = workflowId then jobs else []
  newTriggers : ∀ t ∈ opened, s.nextId ≤ t ∧ t < s'.nextId
  newJobs : ∀ entry ∈ jobs, s.nextId ≤ entry.job ∧ entry.job < s'.nextId
  le : s.nextId ≤ s'.nextId

variable {workflowId : WorkflowId} {s s' s'' : TaskState} {opened opened' : List Nat}
  {jobs jobs' : List CronEntry} (cronError : List Char → Option (List Char))

theorem Grown.refl (workflowId : WorkflowId) (s : TaskState) : Grown workflowId s s [] [] where
  triggers := (List.append_nil _).symm
  crons := by simp
  newTriggers := by simp
  newJobs := by simp
  le := Nat.le_refl _

theorem Grown.trans (h : Grown workflowId s s' opened jobs)
    (h' : Grown workflowId s' s'' opened' jobs') :
    Grown workflowId s s'' (opened ++ opened') (jobs ++ jobs') where
  triggers := by rw [h'.triggers, h.triggers, List.append_assoc]
  crons id := by
    rw [h'.crons, h.crons, List.append_assoc]
    split <;> simp
  newTriggers t ht := by
    have hle := h.le
    have hle' := h'.le
    cases List.mem_append.mp ht with
    | inl ht =>
      have := h.newTriggers t ht
      omega
    | inr ht =>
      have := h'.newTriggers t ht
      omega
  newJobs entry hentry := by
    have hle := h.le
    have hle' := h'.le
    cases List.mem_append.mp hentry with
    | inl hentry =>
      have := h.newJobs entry hentry
      omega
    | inr hentry =>
      have := h'.newJobs entry hentry
      omega
  le := Nat.le_trans h.le h'.le

theorem Grown.listed (h : Grown workflowId s s' opened jobs)
    (active active' : InsertionMap WorkflowId (List TriggerResponse)) :
    Grown workflowId { s with activeWorkflows := active } { s' with activeWorkflows := active' }
      opened jobs :=
  ⟨h.triggers, h.crons, h.newTriggers, h.newJobs, h.le⟩

theorem register_cron_grown (workflowId : WorkflowId) (cron : Cron) (s : TaskState) :
    (s.registerCron cronError workflowId cron).2.activeWorkflows = s.activeWorkflows ∧
    ∃ jobs, Grown workflowId s (s.registerCron cronError workflowId cron).2 [] jobs ∧
      ((s.registerCron cronError workflowId cron).1 = .ok () ∧ taken cronError cron = true ∧
          jobs.length = 1 ∨
        (∃ message, (s.registerCron cronError workflowId cron).1 = .error message) ∧
          taken cronError cron = false ∧ jobs = []) := by
  unfold registerCron taken
  cases hcron : cronError cron.expression with
  | some message => exact ⟨rfl, [], .refl workflowId s, .inr ⟨⟨message, rfl⟩, rfl, rfl⟩⟩
  | none =>
    refine ⟨rfl, [⟨s.nextId, cron.displayable⟩], ?_, .inl ⟨rfl, rfl, rfl⟩⟩
    refine ⟨(List.append_nil _).symm, fun id => ?_, by simp, by simp, Nat.le_succ _⟩
    show ((s.cronMap.set workflowId _).get? id).getD [] = (s.cronMap.get? id).getD [] ++ _
    rw [InsertionMap.get_set]
    split
    · rename_i hid
      rw [hid]
      rfl
    · simp

theorem for_each_grown {start : Cron → TaskState → Except (List Char) Unit × TaskState}
    {starts : Cron → Bool}
    (hstart : ∀ cron s, (start cron s).2.activeWorkflows = s.activeWorkflows ∧
      ∃ jobs, Grown workflowId s (start cron s).2 [] jobs ∧
        ((start cron s).1 = .ok () ∧ starts cron = true ∧ jobs.length = 1 ∨
          (∃ message, (start cron s).1 = .error message) ∧ starts cron = false ∧ jobs = []))
    (crons : List Cron) (s : TaskState) :
    (forEach start crons s).2.activeWorkflows = s.activeWorkflows ∧
    ∃ jobs, Grown workflowId s (forEach start crons s).2 [] jobs ∧
      jobs.length = (crons.takeWhile starts).length ∧
      ((forEach start crons s).1 = .ok () ∧ crons.all starts = true ∨
        (∃ message, (forEach start crons s).1 = .error message) ∧ crons.all starts = false) := by
  induction crons generalizing s with
  | nil => exact ⟨rfl, [], .refl workflowId s, rfl, .inl ⟨rfl, rfl⟩⟩
  | cons cron rest ih =>
    obtain ⟨hactive, jobs, hgrown, hcase⟩ := hstart cron s
    rw [forEach]
    generalize start cron s = r at hactive hgrown hcase
    obtain ⟨result, next⟩ := r
    cases hcase with
    | inl hok =>
      obtain ⟨rfl, hstarts, hlength⟩ := hok
      obtain ⟨hactive', jobs', hgrown', hlength', hcase'⟩ := ih next
      refine ⟨hactive'.trans hactive, jobs ++ jobs', hgrown.trans hgrown', ?_, ?_⟩
      · rw [List.takeWhile_cons, hstarts, List.length_append, hlength, hlength']
        simp only [if_true, List.length_cons]
        omega
      · rw [List.all_cons, hstarts, Bool.true_and]
        exact hcase'
    | inr herror =>
      obtain ⟨⟨message, rfl⟩, hstarts, rfl⟩ := herror
      refine ⟨hactive, [], hgrown, ?_, .inr ⟨⟨message, rfl⟩, ?_⟩⟩
      · rw [List.takeWhile_cons, hstarts]
        rfl
      · rw [List.all_cons, hstarts, Bool.false_and]

/-- Starting a job of a poll time: it is registered unless it would run too often or the `cron`
package fails. -/
theorem register_poll_time_grown (workflowId : WorkflowId) (cron : Cron) (s : TaskState) :
    (s.registerPollTime cronError workflowId cron).2.activeWorkflows = s.activeWorkflows ∧
    ∃ jobs, Grown workflowId s (s.registerPollTime cronError workflowId cron).2 [] jobs ∧
      ((s.registerPollTime cronError workflowId cron).1 = .ok () ∧
          pollable cronError cron = true ∧ jobs.length = 1 ∨
        (∃ message, (s.registerPollTime cronError workflowId cron).1 = .error message) ∧
          pollable cronError cron = false ∧ jobs = []) := by
  unfold registerPollTime pollable
  cases tooShort cron.expression with
  | true => exact ⟨rfl, [], .refl workflowId s, .inr ⟨⟨_, rfl⟩, rfl, rfl⟩⟩
  | false => exact register_cron_grown cronError workflowId cron s

/-- What calling the trigger function of a node starts, and how it ends. -/
inductive TriggerRun (cronError : List Char → Option (List Char)) (manual : Bool)
    (node : ActivationNode) : Except (List Char) (Option TriggerResponse) → List Nat → Prop where
  | failed (message : List Char) (h : node.triggerStarts cronError manual = false) :
      TriggerRun cronError manual node (.error message) []
  | silent (h : node.triggerStarts cronError manual = true) (hresponds : node.responds = false)
      (hopens : node.opensTrigger = false) : TriggerRun cronError manual node (.ok none) []
  | responded (h : node.triggerStarts cronError manual = true) (hresponds : node.responds = true)
      (response : TriggerResponse) (hopens : node.opensTrigger = response.closeFunction.isSome) :
      TriggerRun cronError manual node (.ok (some response)) response.closeFunction.toList

theorem run_trigger_grown (workflowId : WorkflowId) (manual : Bool) (node : ActivationNode)
    (s : TaskState) :
    (s.runTrigger cronError workflowId manual node).2.activeWorkflows = s.activeWorkflows ∧
    ∃ opened jobs,
      Grown workflowId s (s.runTrigger cronError workflowId manual node).2 opened jobs ∧
      jobs.length = (node.triggerCrons cronError).length ∧
      TriggerRun cronError manual node
        (s.runTrigger cronError workflowId manual node).1 opened := by
  unfold runTrigger
  cases hnode : node.trigger with
  | none =>
    refine ⟨rfl, [], [], .refl workflowId s, ?_, .failed _ ?_⟩
    · rw [ActivationNode.triggerCrons, hnode]
      rfl
    · rw [ActivationNode.triggerStarts, hnode]
  | some trigger =>
    obtain ⟨crons, result⟩ := trigger
    obtain ⟨hactive, jobs, hgrown, hlength, hcase⟩ :=
      for_each_grown (register_cron_grown cronError workflowId) crons s
    have hcrons : jobs.length = (node.triggerCrons cronError).length := by
      rw [ActivationNode.triggerCrons, hnode]
      exact hlength
    dsimp only
    unfold registerCrons
    generalize forEach (registerCron cronError workflowId) crons s = r at hactive hgrown hcase
    obtain ⟨outcome, next⟩ := r
    have hstarts : node.triggerStarts cronError manual =
        (crons.all (taken cronError) && result.starts manual) := by
      rw [ActivationNode.triggerStarts, hnode]
    cases hcase with
    | inr herror =>
      obtain ⟨⟨message, rfl⟩, hall⟩ := herror
      refine ⟨hactive, [], jobs, hgrown, hcrons, .failed _ ?_⟩
      rw [hstarts, hall, Bool.false_and]
    | inl hok =>
      obtain ⟨rfl, hall⟩ := hok
      rw [hall, Bool.true_and] at hstarts
      cases result with
      | throws message => exact ⟨hactive, [], jobs, hgrown, hcrons, .failed _ hstarts⟩
      | noResponse =>
        cases manual with
        | true => exact ⟨hactive, [], jobs, hgrown, hcrons, .failed _ hstarts⟩
        | false =>
          refine ⟨hactive, [], jobs, hgrown, hcrons, .silent hstarts ?_ ?_⟩
          · simp [ActivationNode.responds, hnode]
          · simp [ActivationNode.opensTrigger, hnode]
      | response closes =>
        have hresponds : node.responds = true := by simp [ActivationNode.responds, hnode]
        cases closes with
        | false =>
          refine ⟨hactive, [], jobs, hgrown, hcrons, .responded hstarts hresponds ⟨none⟩ ?_⟩
          simp [ActivationNode.opensTrigger, hnode]
        | true =>
          have hopened : Grown workflowId next
              { next with
                openTriggers := next.openTriggers ++ [next.nextId]
                nextId := next.nextId + 1 } [next.nextId] [] :=
            ⟨rfl, by simp [TaskState.crons], by simp, by simp, Nat.le_succ _⟩
          have hgrown' := hgrown.trans hopened
          rw [List.nil_append, List.append_nil] at hgrown'
          refine ⟨hactive, [next.nextId], jobs, hgrown', hcrons,
            .responded hstarts hresponds ⟨some next.nextId⟩ ?_⟩
          simp [ActivationNode.opensTrigger, hnode]

/-- Starting trigger nodes one after the other. On a failure the nodes before the failing one have
opened their triggers, and nobody has their responses; otherwise the responses name all triggers
that were opened. -/
theorem start_triggers_grown (workflowId : WorkflowId) (manual : Bool)
    (nodes : List ActivationNode) (responses : List TriggerResponse) (s : TaskState) :
    (s.startTriggers cronError workflowId manual nodes responses).2.activeWorkflows =
      s.activeWorkflows ∧
    ∃ opened jobs, Grown workflowId s
        (s.startTriggers cronError workflowId manual nodes responses).2 opened jobs ∧
      ((∃ error before failing,
          (s.startTriggers cronError workflowId manual nodes responses).1 = .error error ∧
          firstFailure (·.triggerStarts cronError manual) nodes = some (before, failing) ∧
          (opened = [] ↔ ∀ node ∈ before, node.opensTrigger = false) ∧
          jobs.length = ((before ++ [failing]).flatMap (·.triggerCrons cronError)).length) ∨
        ∃ more,
          (s.startTriggers cronError workflowId manual nodes responses).1 =
            .ok (responses ++ more) ∧
          firstFailure (·.triggerStarts cronError manual) nodes = none ∧
          opened = more.filterMap (·.closeFunction) ∧
          (more = [] ↔ ∀ node ∈ nodes, node.responds = false) ∧
          jobs.length = (nodes.flatMap (·.triggerCrons cronError)).length) := by
  induction nodes generalizing responses s with
  | nil =>
    refine ⟨rfl, [], [], .refl workflowId s, .inr ⟨[], ?_, rfl, rfl, by simp, rfl⟩⟩
    rw [startTriggers, List.append_nil]
  | cons node rest ih =>
    obtain ⟨hactive, opened, jobs, hgrown, hlength, hrun⟩ :=
      run_trigger_grown cronError workflowId manual node s
    rw [startTriggers]
    generalize s.runTrigger cronError workflowId manual node = r at hactive hgrown hrun
    obtain ⟨result, next⟩ := r
    dsimp only at hactive hgrown hrun
    cases hrun with
    | failed message hstarts =>
      refine ⟨hactive, [], jobs, hgrown, .inl ⟨_, [], node, rfl, ?_, by simp, ?_⟩⟩
      · simp [firstFailure, hstarts]
      · simpa using hlength
    | silent hstarts hresponds hopens =>
      obtain ⟨hactive', opened', jobs', hgrown', hcase⟩ := ih responses next
      refine ⟨hactive'.trans hactive, opened', jobs ++ jobs', hgrown.trans hgrown', ?_⟩
      cases hcase with
      | inl hfail =>
        obtain ⟨error, before, failing, herror, hfirst, hopened, hjobs⟩ := hfail
        refine .inl ⟨error, node :: before, failing, herror, ?_, ?_, ?_⟩
        · simp [firstFailure, hstarts, hfirst]
        · simpa [hopens] using hopened
        · rw [List.length_append, hlength, hjobs]
          simp
      | inr hok =>
        obtain ⟨more, hmore, hfirst, hopened, hresponded, hjobs⟩ := hok
        refine .inr ⟨more, hmore, ?_, hopened, ?_, ?_⟩
        · simp [firstFailure, hstarts, hfirst]
        · simpa [hresponds] using hresponded
        · rw [List.length_append, hlength, hjobs]
          simp
    | responded hstarts hresponds response hopens =>
      obtain ⟨hactive', opened', jobs', hgrown', hcase⟩ := ih (responses ++ [response]) next
      refine ⟨hactive'.trans hactive, _, jobs ++ jobs', hgrown.trans hgrown', ?_⟩
      cases hcase with
      | inl hfail =>
        obtain ⟨error, before, failing, herror, hfirst, hopened, hjobs⟩ := hfail
        refine .inl ⟨error, node :: before, failing, herror, ?_, ?_, ?_⟩
        · simp [firstFailure, hstarts, hfirst]
        · rw [List.append_eq_nil_iff, hopened]
          simp [hopens]
        · rw [List.length_append, hlength, hjobs]
          simp
      | inr hok =>
        obtain ⟨more, hmore, hfirst, hopened, hresponded, hjobs⟩ := hok
        refine .inr ⟨response :: more, ?_, ?_, ?_, ?_, ?_⟩
        · rw [hmore, List.append_assoc]
          rfl
        · simp [firstFailure, hstarts, hfirst]
        · rw [hopened, List.filterMap_cons]
          cases response.closeFunction <;> rfl
        · simp [hresponds]
        · rw [List.length_append, hlength, hjobs]
          simp

theorem activate_polling_grown (workflowId : WorkflowId) (node : ActivationNode) (s : TaskState) :
    (s.activatePolling cronError workflowId node).2.activeWorkflows = s.activeWorkflows ∧
    ∃ jobs, Grown workflowId s (s.activatePolling cronError workflowId node).2 [] jobs ∧
      jobs.length = (node.pollCrons cronError).length ∧
      ((s.activatePolling cronError workflowId node).1 = .ok () ∧
          node.pollStarts cronError = true ∨
        (∃ message, (s.activatePolling cronError workflowId node).1 = .error message) ∧
          node.pollStarts cronError = false) := by
  unfold activatePolling ActivationNode.pollCrons ActivationNode.pollStarts
  cases node.poll with
  | none => exact ⟨rfl, [], .refl workflowId s, rfl, .inr ⟨⟨_, rfl⟩, rfl⟩⟩
  | some poll =>
    obtain ⟨pollTimes, crons, throws⟩ := poll
    cases pollTimes with
    | error message => exact ⟨rfl, [], .refl workflowId s, rfl, .inr ⟨⟨_, rfl⟩, rfl⟩⟩
    | ok pollTimes =>
      obtain ⟨hactive, jobs, hgrown, hlength, hcase⟩ :=
        for_each_grown (register_cron_grown cronError workflowId) crons s
      dsimp only [runPoll, registerCrons]
      generalize forEach (registerCron cronError workflowId) crons s = r at hactive hgrown hcase
      obtain ⟨outcome, next⟩ := r
      cases hcase with
      | inr herror =>
        obtain ⟨⟨message, rfl⟩, hall⟩ := herror
        have hruns : PollFunction.runs cronError ⟨.ok pollTimes, crons, throws⟩ = false := by
          rw [PollFunction.runs, hall, Bool.false_and]
        rw [hruns]
        exact ⟨hactive, jobs, hgrown, by simpa using hlength, .inr ⟨⟨message, rfl⟩, rfl⟩⟩
      | inl hok =>
        obtain ⟨rfl, hall⟩ := hok
        cases throws with
        | some message =>
          have hruns : PollFunction.runs cronError ⟨.ok pollTimes, crons, some message⟩ =
              false := by
            rw [PollFunction.runs, hall]
            rfl
          rw [hruns]
          exact ⟨hactive, jobs, hgrown, by simpa using hlength, .inr ⟨⟨message, rfl⟩, rfl⟩⟩
        | none =>
          have hruns : PollFunction.runs cronError ⟨.ok pollTimes, crons, none⟩ = true := by
            rw [PollFunction.runs, hall]
            rfl
          rw [hruns]
          obtain ⟨hactive', jobs', hgrown', hlength', hcase'⟩ :=
            for_each_grown (register_poll_time_grown cronError workflowId)
              (pollTimes.map PollTime.cron) next
          refine ⟨hactive'.trans hactive, jobs ++ jobs', hgrown.trans hgrown', ?_, hcase'⟩
          rw [List.length_append, hlength, hlength']
          simp

/-- Starting poll nodes one after the other: only jobs are started, and a failure takes the
workflow off the list when it has no trigger responses. -/
theorem start_polling_grown (workflowId : WorkflowId) (responses : List TriggerResponse)
    (nodes : List ActivationNode) (s : TaskState) :
    ∃ jobs, Grown workflowId s (s.startPolling cronError workflowId responses nodes).2 [] jobs ∧
      ((∃ error before failing,
          (s.startPolling cronError workflowId responses nodes).1 = .error error ∧
          firstFailure (·.pollStarts cronError) nodes = some (before, failing) ∧
          jobs.length = ((before ++ [failing]).flatMap (·.pollCrons cronError)).length ∧
          (s.startPolling cronError workflowId responses nodes).2.activeWorkflows =
            if responses = [] then s.activeWorkflows.delete workflowId else s.activeWorkflows) ∨
        (s.startPolling cronError workflowId responses nodes).1 = .ok () ∧
          firstFailure (·.pollStarts cronError) nodes = none ∧
          (s.startPolling cronError workflowId responses nodes).2.activeWorkflows =
            s.activeWorkflows) := by
  induction nodes generalizing s with
  | nil => exact ⟨[], .refl workflowId s, .inr ⟨rfl, rfl, rfl⟩⟩
  | cons node rest ih =>
    obtain ⟨hactive, jobs, hgrown, hlength, hcase⟩ :=
      activate_polling_grown cronError workflowId node s
    rw [startPolling]
    generalize s.activatePolling cronError workflowId node = r at hactive hgrown hcase
    obtain ⟨outcome, next⟩ := r
    cases hcase with
    | inr herror =>
      obtain ⟨⟨message, rfl⟩, hstarts⟩ := herror
      refine ⟨jobs, ?_, .inl ⟨.of message node, [], node, rfl, ?_, ?_, ?_⟩⟩
      · by_cases hresponses : responses = []
        · simp only [hresponses, if_true]
          exact hgrown.listed _ _
        · simp only [hresponses, if_false]
          exact hgrown
      · simp [firstFailure, hstarts]
      · simpa using hlength
      · by_cases hresponses : responses = []
        · simp only [hresponses, if_true]
          rw [← hactive]
        · simp only [hresponses, if_false]
          exact hactive
    | inl hok =>
      obtain ⟨rfl, hstarts⟩ := hok
      obtain ⟨jobs', hgrown', hcase'⟩ := ih next
      refine ⟨jobs ++ jobs', hgrown.trans hgrown', ?_⟩
      cases hcase' with
      | inl hfail =>
        obtain ⟨error, before, failing, herror, hfirst, hjobs, hactive'⟩ := hfail
        refine .inl ⟨error, node :: before, failing, herror, ?_, ?_, ?_⟩
        · simp [firstFailure, hstarts, hfirst]
        · rw [List.length_append, hlength, hjobs]
          simp
        · rw [hactive', hactive]
      | inr hdone =>
        obtain ⟨hdone, hfirst, hactive'⟩ := hdone
        refine .inr ⟨hdone, ?_, hactive'.trans hactive⟩
        simp [firstFailure, hstarts, hfirst]

theorem close_triggers_closed (workflowId : WorkflowId) (responses : List TriggerResponse)
    (s : TaskState) :
    s.closeTriggers (fun _ => .closed) workflowId responses =
      (.ok (), { s with
        openTriggers := s.openTriggers.filter
          fun t => decide (t ∉ responses.filterMap (·.closeFunction)) }) := by
  induction responses generalizing s with
  | nil => simp [closeTriggers, forEach]
  | cons response rest ih =>
    obtain ⟨closeFunction⟩ := response
    cases closeFunction with
    | none =>
      show closeTriggers (fun _ => .closed) workflowId rest s = _
      rw [ih]
      simp
    | some trigger =>
      show closeTriggers (fun _ => .closed) workflowId rest
        { s with openTriggers := s.openTriggers.filter (· ≠ trigger) } = _
      rw [ih, List.filter_filter]
      simp [Bool.and_comm]

theorem crons_deregister_crons (workflowId id : WorkflowId) (s : TaskState) :
    (s.deregisterCrons workflowId).crons id = if id = workflowId then [] else s.crons id := by
  unfold deregisterCrons
  by_cases hnone : s.crons workflowId = []
  · rw [if_pos hnone]
    split
    · rename_i hid
      rw [hid, hnone]
    · rfl
  · rw [if_neg hnone]
    show ((s.cronMap.delete workflowId).get? id).getD [] = _
    rw [InsertionMap.get_delete]
    split <;> rfl

theorem remove_closed {responses : List TriggerResponse}
    (h : s.activeWorkflows.get? workflowId = some responses) :
    (s.remove (fun _ => .closed) workflowId).2.openTriggers =
        s.openTriggers.filter (fun t => decide (t ∉ responses.filterMap (·.closeFunction))) ∧
      ∀ id, (s.remove (fun _ => .closed) workflowId).2.crons id =
        if id = workflowId then [] else s.crons id := by
  have hopen : (s.deregisterCrons workflowId).openTriggers = s.openTriggers := by
    unfold deregisterCrons
    split <;> rfl
  unfold remove
  rw [h]
  dsimp only
  rw [close_triggers_closed]
  refine ⟨?_, fun id => crons_deregister_crons workflowId id s⟩
  dsimp only
  rw [hopen]

/-- The identities in the state have been given before. -/
structure Fresh (s : TaskState) : Prop where
  triggers : ∀ t ∈ s.openTriggers, t < s.nextId
  jobs : ∀ id, ∀ entry ∈ s.crons id, entry.job < s.nextId
  responses : ∀ id responses, s.activeWorkflows.get? id = some responses →
    ∀ t ∈ responses.filterMap (·.closeFunction), t < s.nextId

/-- Nothing that was started after the state `s` is left in `s'`: no trigger is open and no job is
registered. -/
structure NothingNew (s s' : TaskState) : Prop where
  triggers : ∀ t ∈ s'.openTriggers, t < s.nextId
  jobs : ∀ id, ∀ entry ∈ s'.crons id, entry.job < s.nextId

/-- What was started is left behind unless there is none. -/
theorem Grown.nothing_new_iff (h : Grown workflowId s s' opened jobs) (hs : s.Fresh) :
    NothingNew s s' ↔ opened = [] ∧ jobs = [] := by
  constructor
  · intro hnothing
    constructor
    · refine List.eq_nil_iff_forall_not_mem.mpr fun t ht => ?_
      have hlt := hnothing.triggers t (by rw [h.triggers]; simp [ht])
      exact absurd hlt (Nat.not_lt.mpr (h.newTriggers t ht).1)
    · refine List.eq_nil_iff_forall_not_mem.mpr fun entry hentry => ?_
      have hlt := hnothing.jobs workflowId entry (by rw [h.crons]; simp [hentry])
      exact absurd hlt (Nat.not_lt.mpr (h.newJobs entry hentry).1)
  · intro hnone
    obtain ⟨rfl, rfl⟩ := hnone
    refine ⟨fun t ht => hs.triggers t ?_, fun id entry hentry => hs.jobs id entry ?_⟩
    · rwa [h.triggers, List.append_nil] at ht
    · rw [h.crons] at hentry
      simpa using hentry

/-- After the workflow is removed, what was started is left behind unless the responses the
workflow is listed with name all triggers. -/
theorem Grown.removed_iff (h : Grown workflowId s s' opened jobs) (hs : s.Fresh)
    {responses : List TriggerResponse}
    (hlisted : s'.activeWorkflows.get? workflowId = some responses) :
    NothingNew s (s'.remove (fun _ => .closed) workflowId).2 ↔
      ∀ t ∈ opened, t ∈ responses.filterMap (·.closeFunction) := by
  obtain ⟨hopen, hcrons⟩ := remove_closed hlisted
  constructor
  · intro hnothing t ht
    by_contra hmissing
    have hlt := hnothing.triggers t (by
      rw [hopen, h.triggers]
      exact List.mem_filter.mpr ⟨List.mem_append_right _ ht, decide_eq_true hmissing⟩)
    exact absurd hlt (Nat.not_lt.mpr (h.newTriggers t ht).1)
  · intro hall
    refine ⟨fun t ht => ?_, fun id entry hentry => ?_⟩
    · rw [hopen, h.triggers] at ht
      obtain ⟨hmem, hmissing⟩ := List.mem_filter.mp ht
      cases List.mem_append.mp hmem with
      | inl hold => exact hs.triggers t hold
      | inr hnew => exact absurd (hall t hnew) (of_decide_eq_true hmissing)
    · rw [hcrons] at hentry
      split at hentry
      · cases hentry
      · rename_i hid
        rw [h.crons, if_neg hid, List.append_nil] at hentry
        exact hs.jobs id entry hentry

end TaskState

end N8n.Activation
