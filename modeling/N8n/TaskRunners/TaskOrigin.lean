import N8n.TaskRunners.Pairings
import N8n.TaskRunners.TaskLife

/-!
# Where tasks come from

A task that the broker knows, or whose end it has reported, was made by the accept attempt whose
number is its id, from the offer and the request of that attempt.
-/

namespace N8n.TaskRunners

namespace TaskBroker

/-- The attempt has made its task. -/
def CreatedBy (b : TaskBroker) (t : Nat) (a : Attempt) : Prop :=
  b.attempts[t]? = some a ∧ a.phase.outcome = .created

/-- The matching is well formed, and tasks come from attempts. -/
structure Origin (b : TaskBroker) : Prop where
  wf : b.matching.Wf
  known : ∀ t task, (b.life t).task = some task → ∃ a, b.CreatedBy t a ∧ task = b.taskOf a
  reported : ∀ t, 0 < (b.life t).reports → ∃ a, b.CreatedBy t a

variable {mode : TaskRunnerMode} {b b' : TaskBroker} {e : BrokerEvent} {t : Nat} {a : Attempt}

theorem getElem?_pairings (b : TaskBroker) (t : Nat) :
    b.matching.pairings[t]? = b.attempts[t]?.map Attempt.pairing :=
  List.getElem?_map ..

theorem step_attempt (h : b.step mode e = some b') (hwf : b.matching.Wf)
    (ha : b.attempts[t]? = some a) :
    ∃ a', b'.attempts[t]? = some a' ∧ b'.taskOf a' = b.taskOf a ∧
      (a.phase.outcome ≠ .undecided → a'.phase.outcome = a.phase.outcome) := by
  have hextends : b.matching.Extends b'.matching := step_matching h ▸ Matching.extends_step _
  have hp : b.matching.pairings[t]? = some a.pairing := by
    rw [getElem?_pairings, ha]
    rfl
  obtain ⟨p', hp', hoffer, hrequest, houtcome⟩ := hextends.pairing t a.pairing hp
  rw [getElem?_pairings] at hp'
  obtain ⟨a', ha', rfl⟩ := Option.map_eq_some_iff.mp hp'
  have hvalid := hwf.paired_lt a.pairing (List.mem_of_getElem? hp)
  have hoffer' : b'.offer a'.offer = b.offer a.offer := by
    rw [show a'.offer = a.offer from hoffer]
    exact hextends.offer_eq a.offer hvalid.2
  have hrequester : (b'.request a'.request).requesterId = (b.request a.request).requesterId := by
    rw [show a'.request = a.request from hrequest]
    exact (hextends.request_eq a.request hvalid.1).2.1
  refine ⟨a', ha', ?_, houtcome⟩
  rw [taskOf, hoffer', hrequester, taskOf]

theorem CreatedBy.step (hcreated : b.CreatedBy t a) (h : b.step mode e = some b')
    (hwf : b.matching.Wf) : ∃ a', b'.CreatedBy t a' ∧ b'.taskOf a' = b.taskOf a := by
  obtain ⟨ha, houtcome⟩ := hcreated
  obtain ⟨a', ha', htask, hdecided⟩ := step_attempt h hwf ha
  refine ⟨a', ⟨ha', ?_⟩, htask⟩
  rw [hdecided (by rw [houtcome]; exact Outcome.noConfusion), houtcome]

theorem undecided_of_create (he : b.matchingEvent e = .create t) (ha : b.attempts[t]? = some a) :
    a.phase.outcome = .undecided := by
  cases e with
  | resumeAttempt taskId ok =>
    simp only [matchingEvent] at he
    split at he
    · cases he
    · rename_i a₀ ha₀
      split at he
      · split at he <;> cases he
      · rename_i hphase _
        cases he
        rw [ha₀] at ha
        cases ha
        rw [hphase]
        rfl
      · cases he
      · cases he
      · cases he
      · cases he
  | runnerMessage runnerId message =>
    cases message with
    | taskOffer offerId taskType validFor =>
      simp only [matchingEvent] at he
      split at he <;> cases he
    | _ => cases he
  | requesterMessage requesterId message =>
    cases message with
    | _ => cases he
  | _ => cases he

theorem createdBy_of_create (h : b.step mode e = some b') (hwf : b.matching.Wf)
    (he : b.matchingEvent e = .create t) (ha : b.attempts[t]? = some a) :
    ∃ a', b'.CreatedBy t a' ∧ b'.taskOf a' = b.taskOf a := by
  obtain ⟨a', ha', htask, -⟩ := step_attempt h hwf ha
  refine ⟨a', ⟨ha', ?_⟩, htask⟩
  have hp := undecided_matching b ha (undecided_of_create he ha)
  have hcreated : b'.matching.pairings[t]? = some { a.pairing with outcome := .created } := by
    rw [step_matching h, he]
    simp only [Matching.step, Matching.create, hp, Matching.setOutcome, List.getElem?_modify,
      if_true, (Matching.of_undecided hp).1]
    rfl
  rw [getElem?_pairings, ha'] at hcreated
  exact congrArg Pairing.outcome (Option.some.inj hcreated)

theorem Origin.step (horigin : b.Origin) (h : b.step mode e = some b') : b'.Origin := by
  have hwf : b'.matching.Wf := step_matching h ▸ horigin.wf.step _
  have hknown : ∀ t task, (b.life t).task = some task →
      ∃ a, b'.CreatedBy t a ∧ task = b'.taskOf a := by
    intro t task htask
    obtain ⟨a, hcreated, htask⟩ := horigin.known t task htask
    obtain ⟨a', hcreated', htask'⟩ := hcreated.step h horigin.wf
    exact ⟨a', hcreated', htask.trans htask'.symm⟩
  have hreported : ∀ t, 0 < (b.life t).reports → ∃ a, b'.CreatedBy t a := by
    intro t hreports
    obtain ⟨a, hcreated⟩ := horigin.reported t hreports
    obtain ⟨a', hcreated', -⟩ := hcreated.step h horigin.wf
    exact ⟨a', hcreated'⟩
  refine ⟨hwf, ?_, ?_⟩
  · intro t task htask
    cases (step_life h t).of_task htask with
    | inl hbefore => exact hknown t task hbefore
    | inr hcreate =>
      obtain ⟨he, a, ha, rfl⟩ := hcreate
      obtain ⟨a', hcreated, htask'⟩ := createdBy_of_create h horigin.wf he ha
      exact ⟨a', hcreated, htask'.symm⟩
  · intro t hreports
    cases (step_life h t).of_reports with
    | inl heq => exact hreported t (heq ▸ hreports)
    | inr hcompletes =>
      obtain ⟨task, htask⟩ := known_of_completes hcompletes
      obtain ⟨a, hcreated, -⟩ := hknown t task htask
      exact ⟨a, hcreated⟩

theorem origin_of_reachable {allowed : TaskBroker → BrokerEvent → Prop}
    (h : Transition.Reachable (TaskBroker.step mode) allowed {} b) : b.Origin := by
  refine h.keeps Origin ?_ fun b e b' horigin _ hstep => horigin.step hstep
  refine ⟨Matching.wf_empty, ?_, ?_⟩
  · intro t task htask
    cases htask
  · intro t hreports
    cases hreports

end TaskBroker

end N8n.TaskRunners
