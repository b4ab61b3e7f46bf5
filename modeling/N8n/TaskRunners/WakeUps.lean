import N8n.TaskRunners.Pairings

/-!
# Wake-ups of the task broker

A request that waits next to an offer of its task type has lost its wake-up. Settling leaves no
such request, and no other event makes one except a failing accept attempt: it makes its request
wait again, and the offers that came during the attempt were passed over.
-/

namespace N8n.TaskRunners

namespace Matching

variable {m : Matching}

section Settling

/-- The request is being accepted, or no waiting offer has its task type. -/
def Served (m : Matching) (r : Nat) : Prop :=
  (m.request r).acceptInProgress = true ∨
    ∀ o ∈ m.waitingOffers, (m.offer o).taskType ≠ (m.request r).taskType

theorem served_pair_self {r : Nat} (hr : r < m.requests.length) : (m.pair r).Served r := by
  unfold pair
  split
  · rename_i hprogress
    exact .inl hprogress
  · split
    · rename_i hnone
      refine .inr fun o ho heq => ?_
      exact List.find?_eq_none.mp hnone o ho (decide_eq_true heq)
    · exact .inl (request_setInProgress_self true hr)

theorem inProgress_setInProgress {r : Nat} (r' : Nat)
    (hr : (m.request r).acceptInProgress = true) :
    ((m.setInProgress r' true).request r).acceptInProgress = true := by
  by_cases heq : r' = r
  · subst heq
    by_cases hlt : r' < m.requests.length
    · exact request_setInProgress_self true hlt
    · -- there is no such request, so that it is not being accepted
      have hdefault : m.request r' = default := by
        rw [request, List.getD_eq_getElem?_getD, List.getElem?_eq_none (Nat.le_of_not_lt hlt)]
        rfl
      rw [hdefault] at hr
      cases hr
  · rw [request_setInProgress_ne true heq]
    exact hr

theorem Served.pair {r : Nat} (h : m.Served r) (r' : Nat) : (m.pair r').Served r := by
  unfold Matching.pair
  split
  · exact h
  · split
    · exact h
    · cases h with
      | inl hprogress => exact .inl (inProgress_setInProgress r' hprogress)
      | inr hnone =>
        refine .inr fun o ho heq => ?_
        exact hnone o (List.mem_of_mem_erase ho)
          (heq.trans (request_setInProgress r' r true).2.2)

theorem Served.foldl_pair {r : Nat} (h : m.Served r) (rs : List Nat) :
    (rs.foldl Matching.pair m).Served r := by
  induction rs generalizing m with
  | nil => exact h
  | cons r' rs ih => exact ih (h.pair r')

theorem served_foldl_pair (m : Matching) {rs : List Nat} (hrs : ∀ r ∈ rs, r < m.requests.length)
    {r : Nat}
    (hr : r ∈ rs) : (rs.foldl Matching.pair m).Served r := by
  induction rs generalizing m with
  | nil => cases hr
  | cons r' rs ih =>
    cases List.mem_cons.mp hr with
    | inl heq =>
      subst heq
      exact (served_pair_self (hrs r List.mem_cons_self)).foldl_pair rs
    | inr hr =>
      apply ih (m.pair r') _ hr
      intro r'' hr''
      rw [(pair_requests r').1]
      exact hrs r'' (List.mem_cons_of_mem r' hr'')

theorem waitingRequests_foldl_pair (rs : List Nat) :
    (rs.foldl Matching.pair m).waitingRequests = m.waitingRequests := by
  induction rs generalizing m with
  | nil => rfl
  | cons r rs ih => exact ih.trans (pair_requests r).2

/-- No request waits next to an offer for it that is not expired. -/
def Settled (m : Matching) : Prop :=
  ∀ r ∈ m.waitingRequests, (m.request r).acceptInProgress = false →
    ∀ o ∈ m.waitingOffers, (m.offer o).taskType = (m.request r).taskType → m.expired o = true

theorem settled_settle (h : m.Wf) : m.settle.Settled := by
  intro r hr hfree o ho htype
  have hwaiting : r ∈ m.waitingRequests := by
    rwa [show m.settle.waitingRequests = _ from waitingRequests_foldl_pair _] at hr
  have hserved : (m.expire.waitingRequests.foldl Matching.pair m.expire).Served r :=
    served_foldl_pair m.expire h.request_lt hwaiting
  cases hserved with
  | inl hprogress =>
    rw [show (m.settle.request r).acceptInProgress = true from hprogress] at hfree
    cases hfree
  | inr hnone => exact absurd htype (hnone o ho)

end Settling

section Steps

/-- When a pairing fails, no offer for its request waits that is not expired. -/
def FailsUnmatched (m : Matching) : MatchingEvent → Prop
  | .fail p _ => ∀ pairing, m.undecided p = some pairing → ∀ o ∈ m.waitingOffers,
      (m.offer o).taskType = (m.request pairing.request).taskType → m.expired o = true
  | _ => True

theorem expired_elapse {o : Nat} (duration : Nat) (h : m.expired o = true) :
    ({ m with now := m.now + duration } : Matching).expired o = true := by
  obtain ⟨hfor, huntil⟩ := Bool.and_eq_true_iff.mp h
  have huntil : (m.offer o).validUntil < m.now := of_decide_eq_true huntil
  refine Bool.and_eq_true_iff.mpr ⟨hfor, decide_eq_true ?_⟩
  show (m.offer o).validUntil < ((m.now + duration : Nat) : Int)
  omega

theorem Settled.fail (h : m.Settled) {p : Nat} {deferred : Bool}
    (hunmatched : m.FailsUnmatched (.fail p deferred)) : (m.fail p deferred).Settled := by
  unfold Matching.fail
  cases hp : m.undecided p with
  | none => exact h
  | some pairing =>
    have hfailed : ∀ r, r ∈ m.waitingRequests ∨ r = pairing.request →
        ((m.setInProgress pairing.request false).request r).acceptInProgress = false →
        ∀ o ∈ m.waitingOffers, (m.offer o).taskType =
          ((m.setInProgress pairing.request false).request r).taskType →
        m.expired o = true := by
      intro r hr hfree o ho htype
      rw [(request_setInProgress pairing.request r false).2.2] at htype
      by_cases heq : pairing.request = r
      · subst heq
        exact hunmatched pairing hp o ho htype
      · rw [request_setInProgress_ne false heq] at hfree
        cases hr with
        | inl hr => exact h r hr hfree o ho htype
        | inr hr => exact absurd hr.symm heq
    cases deferred with
    | false => exact fun r hr => hfailed r (.inl hr)
    | true =>
      intro r hr
      cases List.mem_append.mp hr with
      | inl hr => exact hfailed r (.inl hr)
      | inr hr => exact hfailed r (.inr (List.mem_singleton.mp hr))

theorem Settled.step (h : m.Settled) (hwf : m.Wf) {e : MatchingEvent}
    (hunmatched : m.FailsUnmatched e) : (m.step e).Settled := by
  cases e with
  | idle => exact h
  | elapse duration =>
    intro r hr hfree o ho htype
    exact expired_elapse duration (h r hr hfree o ho htype)
  | request request => exact settled_settle (hwf.addRequest request)
  | offer offer => exact settled_settle (hwf.addOffer offer)
  | withdraw runnerId =>
    intro r hr hfree o ho htype
    exact h r hr hfree o (List.mem_of_mem_filter ho) htype
  | fail p deferred => exact h.fail hunmatched
  | create p =>
    show (m.create p).Settled
    unfold create
    cases m.undecided p with
    | none => exact h
    | some pairing =>
      intro r hr
      exact h r (List.mem_of_mem_eraseP hr)

end Steps

end Matching

namespace TaskBroker

/-- Nothing is suspended: every accept attempt and every handler has ended. -/
def Quiescent (b : TaskBroker) : Prop :=
  b.handlers = [] ∧ ∀ a ∈ b.attempts, a.phase = .failed ∨ a.phase = .ended

instance (b : TaskBroker) : Decidable b.Quiescent := inferInstanceAs (Decidable (_ ∧ _))

/-- No pending request that is not being accepted has a pending offer of its task type that is not
expired. -/
def NoLostWakeUp (b : TaskBroker) : Prop :=
  ∀ r ∈ b.pendingTaskRequests, (b.request r).acceptInProgress = false →
    ∀ o ∈ b.pendingTaskOffers, (b.offer o).taskType = (b.request r).taskType → b.expired o = true

instance (b : TaskBroker) : Decidable b.NoLostWakeUp :=
  inferInstanceAs (Decidable (∀ r ∈ b.pendingTaskRequests, _ → ∀ o ∈ b.pendingTaskOffers, _ → _))

/-- The accept attempt that an event makes fail. -/
def failing (b : TaskBroker) (e : BrokerEvent) : Option Attempt :=
  match b.matchingEvent e with
  | .fail taskId _ => b.attempts[taskId]?
  | _ => none

/-- If the event makes an accept attempt fail, no offer that is not expired is pending for its
request. -/
def FailsUnmatched (b : TaskBroker) (e : BrokerEvent) : Prop :=
  ∀ a ∈ (b.failing e).toList, ∀ o ∈ b.pendingTaskOffers,
    (b.offer o).taskType = (b.request a.request).taskType → b.expired o = true

instance (b : TaskBroker) (e : BrokerEvent) : Decidable (b.FailsUnmatched e) :=
  inferInstanceAs (Decidable (∀ a ∈ (b.failing e).toList, ∀ o ∈ b.pendingTaskOffers, _ → _))

theorem failsUnmatched_matching {b : TaskBroker} {e : BrokerEvent} (h : b.FailsUnmatched e) :
    b.matching.FailsUnmatched (b.matchingEvent e) := by
  cases he : b.matchingEvent e with
  | fail taskId deferred =>
    intro pairing hp o ho htype
    have hpairing := (Matching.of_undecided hp).1
    rw [show b.matching.pairings[taskId]? = _ from List.getElem?_map ..] at hpairing
    obtain ⟨a, ha, rfl⟩ := Option.map_eq_some_iff.mp hpairing
    have hfailing : a ∈ (b.failing e).toList := by
      rw [failing, he, Option.mem_toList]
      exact ha
    exact h a hfailing o ho htype
  | _ => trivial

/-- No wake-up is lost in a run in which accept attempts fail only while no offer is pending for
their requests. -/
theorem no_lost_wake_up (mode : TaskRunnerMode) (b : TaskBroker)
    (h : Transition.Reachable (step mode) FailsUnmatched {} b) : b.NoLostWakeUp := by
  have hinv : b.matching.Wf ∧ b.matching.Settled := by
    refine h.keeps (fun b => b.matching.Wf ∧ b.matching.Settled) ?_ ?_
    · exact ⟨Matching.wf_empty, fun r hr => absurd hr List.not_mem_nil⟩
    · intro b e b' hinv hallowed hstep
      rw [step_matching hstep]
      exact ⟨hinv.1.step _, hinv.2.step hinv.1 (failsUnmatched_matching hallowed)⟩
  exact hinv.2

/-- A request whose first runner rejects it before the offer of the second one arrives. -/
def rejectedAlone : List BrokerEvent :=
  [.registerRunner "runner", .registerRequester "requester",
    .requesterMessage "requester" (.taskRequest "request" "javascript"),
    .runnerMessage "runner" (.taskOffer "first" "javascript" (-1)), .resumeAttempt 0 true,
    .runnerMessage "runner" (.taskRejected 0 "No open task slots"), .resumeAttempt 0 true,
    .runnerMessage "runner" (.taskOffer "second" "javascript" (-1))]

/-- The request is offered to the second runner. -/
theorem no_lost_wake_up_rejected :
    ∃ b, Transition.runAllowed (step .internal) FailsUnmatched {} rejectedAlone = some b ∧
      b.NoLostWakeUp := by
  have hrun : (Transition.runAllowed (step .internal) FailsUnmatched {} rejectedAlone).isSome :=
    by decide +kernel
  obtain ⟨b, hb⟩ := Option.isSome_iff_exists.mp hrun
  exact ⟨b, hb, no_lost_wake_up .internal b (Transition.reachable_of_runAllowed .start hb)⟩

/-- A request whose first runner rejects it after the second offer has arrived. -/
def rejectedLate : List BrokerEvent :=
  [.registerRunner "runner", .registerRequester "requester",
    .requesterMessage "requester" (.taskRequest "request" "javascript"),
    .runnerMessage "runner" (.taskOffer "first" "javascript" (-1)), .resumeAttempt 0 true,
    .runnerMessage "runner" (.taskOffer "second" "javascript" (-1)),
    .runnerMessage "runner" (.taskRejected 0 "No open task slots"), .resumeAttempt 0 true]

/-- The request is left waiting next to the second offer. -/
theorem lost_wake_up_rejected : ¬ ∀ (mode : TaskRunnerMode) (b : TaskBroker),
    Transition.Reachable (step mode) (fun _ _ => True) {} b → b.Quiescent → b.NoLostWakeUp := by
  intro hclaim
  have hrun : (Transition.run (step .internal) {} rejectedLate).any fun b =>
      b.Quiescent ∧ ¬ b.NoLostWakeUp := by decide +kernel
  obtain ⟨b, hb, hlost⟩ := (Option.any_eq_true _ _).mp hrun
  obtain ⟨hquiescent, hlost⟩ := of_decide_eq_true hlost
  exact hlost (hclaim .internal b (Transition.reachable_of_run hb) hquiescent)

end TaskBroker

end N8n.TaskRunners
