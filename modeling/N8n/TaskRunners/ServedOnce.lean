import N8n.TaskRunners.TaskOrigin

/-!
# Requests are served once

In every run an offer is accepted at most once, a task comes from an offer and a request of one task
type, and no request object makes two tasks. Request ids are another matter: a deferred request is
pushed to the pending ones, where it already is.
-/

namespace N8n.TaskRunners

namespace Matching

/-- Requests have different ids, and none waits twice. -/
structure Unique (m : Matching) : Prop where
  ids : (m.requests.map TaskRequest.requestId).Nodup
  waiting : m.waitingRequests.Nodup

/-- A new request has a new id, and no pairing is deferred. -/
def ServesOnce (m : Matching) : MatchingEvent → Prop
  | .request request => ∀ r ∈ m.requests, r.requestId ≠ request.requestId
  | .fail _ deferred => deferred = false
  | .idle | .elapse _ | .offer _ | .withdraw _ | .create _ => True

instance (m : Matching) (e : MatchingEvent) : Decidable (m.ServesOnce e) :=
  match e with
  | .request _ => inferInstanceAs (Decidable (∀ r ∈ m.requests, _))
  | .fail _ deferred => inferInstanceAs (Decidable (deferred = false))
  | .idle | .elapse _ | .offer _ | .withdraw _ | .create _ => inferInstanceAs (Decidable True)

variable {m : Matching}

theorem ids_setInProgress (r : Nat) (inProgress : Bool) :
    (m.setInProgress r inProgress).requests.map TaskRequest.requestId =
      m.requests.map TaskRequest.requestId := by
  apply List.ext_getElem?
  intro i
  simp only [setInProgress, List.getElem?_map, List.getElem?_modify]
  cases m.requests[i]? with
  | none => rfl
  | some q =>
    show some (if r = i then _ else q).requestId = some q.requestId
    split <;> rfl

theorem Unique.setInProgress (h : m.Unique) (r : Nat) (inProgress : Bool) :
    (m.setInProgress r inProgress).Unique where
  ids := by
    rw [ids_setInProgress]
    exact h.ids
  waiting := h.waiting

theorem Unique.pair (h : m.Unique) (r : Nat) : (m.pair r).Unique := by
  unfold Matching.pair
  split
  · exact h
  · split
    · exact h
    · exact ⟨(h.setInProgress r true).ids, h.waiting⟩

theorem Unique.settle (h : m.Unique) : m.settle.Unique := by
  have hfold : ∀ (rs : List Nat) (m : Matching), m.Unique → (rs.foldl Matching.pair m).Unique := by
    intro rs
    induction rs with
    | nil => exact fun _ h => h
    | cons r rs ih => exact fun m h => ih (m.pair r) (h.pair r)
  exact hfold _ m.expire ⟨h.ids, h.waiting⟩

theorem Unique.step (h : m.Unique) (hwf : m.Wf) {e : MatchingEvent} (hserves : m.ServesOnce e) :
    (m.step e).Unique := by
  cases e with
  | idle => exact h
  | elapse duration => exact ⟨h.ids, h.waiting⟩
  | request request =>
    apply Unique.settle
    constructor
    · rw [List.map_append, List.map_singleton]
      refine (List.perm_append_singleton _ _).nodup_iff.mpr (List.nodup_cons.mpr ⟨?_, h.ids⟩)
      intro hmem
      obtain ⟨r, hr, hid⟩ := List.mem_map.mp hmem
      exact hserves r hr hid
    · refine (List.perm_append_singleton _ _).nodup_iff.mpr (List.nodup_cons.mpr ⟨?_, h.waiting⟩)
      exact fun hmem => Nat.lt_irrefl _ (hwf.request_lt _ hmem)
  | offer offer => exact Unique.settle ⟨h.ids, h.waiting⟩
  | withdraw runnerId => exact ⟨h.ids, h.waiting⟩
  | fail p deferred =>
    cases hserves
    show (m.fail p false).Unique
    unfold Matching.fail
    cases m.undecided p with
    | none => exact h
    | some pairing => exact ⟨(h.setInProgress pairing.request false).ids, h.waiting⟩
  | create p =>
    show (m.create p).Unique
    unfold Matching.create
    cases m.undecided p with
    | none => exact h
    | some pairing => exact ⟨h.ids, h.waiting.sublist List.eraseP_sublist⟩

theorem Unique.eq_of_id (h : m.Unique) {r r' : Nat} (hr : r < m.requests.length)
    (hr' : r' < m.requests.length) (hid : (m.request r).requestId = (m.request r').requestId) :
    r = r' := by
  have hget : ∀ r < m.requests.length,
      (m.requests.map TaskRequest.requestId)[r]? = some (m.request r).requestId := by
    intro r hr
    rw [List.getElem?_map, request, List.getD_eq_getElem?_getD, List.getElem?_eq_getElem hr]
    rfl
  have hlt : r < (m.requests.map TaskRequest.requestId).length := by rwa [List.length_map]
  exact (List.getElem?_inj hlt h.ids).mp ((hget r hr).trans (hid ▸ (hget r' hr').symm))

end Matching

namespace TaskBroker

/-- A new request has a new id, and no accept attempt ends with a deferral. -/
def ServesOnce (b : TaskBroker) (e : BrokerEvent) : Prop :=
  b.matching.ServesOnce (b.matchingEvent e)

instance (b : TaskBroker) (e : BrokerEvent) : Decidable (b.ServesOnce e) :=
  inferInstanceAs (Decidable (b.matching.ServesOnce (b.matchingEvent e)))

/-- No request id waits twice or makes two tasks, no offer is accepted twice, and tasks are made
from an offer and a request of one task type. -/
structure ServedOnce (b : TaskBroker) : Prop where
  waiting : (b.pendingTaskRequests.map fun r => (b.request r).requestId).Nodup
  one_task : ∀ (t t' : Nat) (a a' : Attempt), b.CreatedBy t a → b.CreatedBy t' a' →
    (b.request a.request).requestId = (b.request a'.request).requestId → t = t'
  one_attempt : (b.attempts.map Attempt.offer).Nodup
  same_type : ∀ (t : Nat) (a : Attempt), b.CreatedBy t a →
    (b.offer a.offer).taskType = (b.request a.request).taskType
  made : ∀ (t : Nat) (task : Task), b.tasks.get? t = some task →
    ∃ a, b.CreatedBy t a ∧ task = b.taskOf a

variable {b : TaskBroker} {t t' : Nat} {a a' : Attempt}

theorem CreatedBy.pairing (h : b.CreatedBy t a) :
    b.matching.pairings[t]? = some a.pairing ∧ a.pairing.outcome ≠ .failed := by
  refine ⟨?_, ?_⟩
  · rw [getElem?_pairings, h.1]
    rfl
  · rw [show a.pairing.outcome = .created from h.2]
    exact Outcome.noConfusion

theorem Origin.one_attempt (h : b.Origin) : (b.attempts.map Attempt.offer).Nodup := by
  have hoffers : b.matching.pairings.map Pairing.offer = b.attempts.map Attempt.offer :=
    List.map_map
  rw [← hoffers]
  exact h.wf.offers_once.sublist (List.sublist_append_right _ _)

theorem Origin.one_task (h : b.Origin) (hc : b.CreatedBy t a) (hc' : b.CreatedBy t' a')
    (heq : a.request = a'.request) : t = t' :=
  h.wf.requests_once t t' a.pairing a'.pairing hc.pairing.1 hc'.pairing.1 hc.pairing.2 hc'.pairing.2
    heq

theorem Origin.same_type (h : b.Origin) (hc : b.CreatedBy t a) :
    (b.offer a.offer).taskType = (b.request a.request).taskType :=
  h.wf.same_type a.pairing (List.mem_of_getElem? hc.pairing.1)

/-- Requests are served once in a run with new request ids and without deferrals. -/
theorem served_once (mode : TaskRunnerMode) (b : TaskBroker)
    (h : Transition.Reachable (step mode) ServesOnce {} b) : b.ServedOnce := by
  have hunique : b.Origin ∧ b.matching.Unique := by
    refine h.keeps (fun b => b.Origin ∧ b.matching.Unique) ?_ ?_
    · exact ⟨origin_of_reachable (.start : Transition.Reachable (step mode) ServesOnce _ _),
        List.nodup_nil, List.nodup_nil⟩
    · intro b e b' hinv hserves hstep
      refine ⟨hinv.1.step hstep, ?_⟩
      rw [step_matching hstep]
      exact hinv.2.step hinv.1.wf hserves
  obtain ⟨horigin, hunique⟩ := hunique
  have hlt : ∀ t a, b.CreatedBy t a → a.request < b.requests.length :=
    fun t a hc => (horigin.wf.paired_lt a.pairing (List.mem_of_getElem? hc.pairing.1)).1
  exact
    { waiting := by
        refine hunique.waiting.map_on ?_
        intro r hr r' hr' hid
        exact hunique.eq_of_id (horigin.wf.request_lt r hr) (horigin.wf.request_lt r' hr') hid
      one_task := fun t t' a a' hc hc' hid =>
        horigin.one_task hc hc' (hunique.eq_of_id (hlt t a hc) (hlt t' a' hc') hid)
      one_attempt := horigin.one_attempt
      same_type := fun t a hc => horigin.same_type hc
      made := horigin.known }

/-- A request that is accepted after it was rejected once. -/
def rejectedThenAccepted : List BrokerEvent :=
  [.registerRunner "runner", .registerRequester "requester",
    .requesterMessage "requester" (.taskRequest "request" "javascript"),
    .runnerMessage "runner" (.taskOffer "first" "javascript" (-1)), .resumeAttempt 0 true,
    .runnerMessage "runner" (.taskRejected 0 "Offer expired"), .resumeAttempt 0 true,
    .runnerMessage "runner" (.taskOffer "second" "javascript" (-1)), .resumeAttempt 1 true,
    .runnerMessage "runner" (.taskAccepted 1), .resumeAttempt 1 true]

/-- It makes one task. -/
theorem served_once_rejected :
    ∃ b, Transition.runAllowed (step .external) ServesOnce {} rejectedThenAccepted = some b ∧
      b.ServedOnce := by
  have hrun :
      (Transition.runAllowed (step .external) ServesOnce {} rejectedThenAccepted).isSome := by
    decide +kernel
  obtain ⟨b, hb⟩ := Option.isSome_iff_exists.mp hrun
  exact ⟨b, hb, served_once .external b (Transition.reachable_of_runAllowed .start hb)⟩

/-- A request that is deferred by the launcher of a runner. -/
def deferredRequest : List BrokerEvent :=
  [.registerRunner "launcher", .registerRequester "requester",
    .requesterMessage "requester" (.taskRequest "request" "javascript"),
    .runnerMessage "launcher" (.taskOffer "offer" "javascript" (-1)), .resumeAttempt 0 true,
    .runnerMessage "launcher" (.taskDeferred 0), .resumeAttempt 0 true]

/-- It waits twice. -/
theorem waits_twice_deferred : ¬ ∀ (mode : TaskRunnerMode) (b : TaskBroker),
    Transition.Reachable (step mode) (fun _ _ => True) {} b → b.ServedOnce := by
  intro hclaim
  have hrun : (Transition.run (step .external) {} deferredRequest).any fun b =>
      ¬ (b.pendingTaskRequests.map fun r => (b.request r).requestId).Nodup := by decide +kernel
  obtain ⟨b, hb, htwice⟩ := (Option.any_eq_true _ _).mp hrun
  exact of_decide_eq_true htwice (hclaim .external b (Transition.reachable_of_run hb)).waiting

/-- In every run, also with deferrals and repeated request ids, no offer is accepted twice, a pending
request makes one task at most, and tasks pair offers and requests of one task type. -/
theorem tasks_pair_once (mode : TaskRunnerMode) (b : TaskBroker)
    (h : Transition.Reachable (step mode) (fun _ _ => True) {} b) :
    (b.attempts.map Attempt.offer).Nodup ∧
      (∀ t t' a a', b.CreatedBy t a → b.CreatedBy t' a' → a.request = a'.request → t = t') ∧
      ∀ t task, b.tasks.get? t = some task → ∃ a, b.CreatedBy t a ∧ task = b.taskOf a ∧
        (b.offer a.offer).taskType = (b.request a.request).taskType := by
  have horigin := origin_of_reachable h
  refine ⟨horigin.one_attempt, fun t t' a a' => horigin.one_task, fun t task htask => ?_⟩
  obtain ⟨a, hcreated, heq⟩ := horigin.known t task htask
  exact ⟨a, hcreated, heq, horigin.same_type hcreated⟩

/-- The request that was deferred. -/
theorem tasks_pair_once_deferred :
    (Transition.run (step .external) {} deferredRequest).all fun b =>
      (b.attempts.map Attempt.offer).Nodup := by
  cases hrun : Transition.run (step .external) {} deferredRequest with
  | none => rfl
  | some b => exact decide_eq_true (tasks_pair_once _ b (Transition.reachable_of_run hrun)).1

end TaskBroker

end N8n.TaskRunners
