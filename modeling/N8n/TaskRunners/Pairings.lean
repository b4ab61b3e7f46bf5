import N8n.TaskRunners.Matching

/-!
# The pairings of a matching

Every reachable matching is well formed: offers are paired at most once and only with requests of
their task type, and a request has at most one pairing that has not failed. The broker inherits
this.
-/

namespace N8n.TaskRunners

namespace Matching

/-- What holds of every reachable matching. -/
structure Wf (m : Matching) : Prop where
  request_lt : ∀ r ∈ m.waitingRequests, r < m.requests.length
  offer_lt : ∀ o ∈ m.waitingOffers, o < m.offers.length
  paired_lt : ∀ p ∈ m.pairings, p.request < m.requests.length ∧ p.offer < m.offers.length
  /-- An offer waits, or is paired once. -/
  offers_once : (m.waitingOffers ++ m.pairings.map Pairing.offer).Nodup
  same_type : ∀ p ∈ m.pairings, (m.offer p.offer).taskType = (m.request p.request).taskType
  in_progress : ∀ p ∈ m.pairings, p.outcome ≠ .failed →
    (m.request p.request).acceptInProgress = true
  /-- A request has at most one pairing that has not failed. -/
  requests_once : ∀ (i j : Nat) (p q : Pairing), m.pairings[i]? = some p → m.pairings[j]? = some q →
    p.outcome ≠ .failed → q.outcome ≠ .failed → p.request = q.request → i = j

variable {m : Matching}

theorem getElem?_concat_cases {l : List Pairing} {x p : Pairing} {i : Nat}
    (h : (l ++ [x])[i]? = some p) : l[i]? = some p ∨ i = l.length ∧ p = x := by
  rw [List.getElem?_append] at h
  split at h
  · exact .inl h
  · obtain ⟨hi, hx⟩ := List.getElem?_eq_some_iff.mp h
    rw [List.length_singleton] at hi
    rw [List.getElem_singleton] at hx
    exact .inr ⟨by omega, hx.symm⟩

section Requests

/-- Both are the same request, accepted or not. -/
def SameRequest (q q' : TaskRequest) : Prop :=
  q'.requestId = q.requestId ∧ q'.requesterId = q.requesterId ∧ q'.taskType = q.taskType

theorem request_setInProgress (r r' : Nat) (inProgress : Bool) :
    SameRequest (m.request r') ((m.setInProgress r inProgress).request r') := by
  simp only [request, setInProgress, List.getD_eq_getElem?_getD, List.getElem?_modify]
  cases m.requests[r']? with
  | none => exact ⟨rfl, rfl, rfl⟩
  | some q =>
    show SameRequest q (if r = r' then _ else q)
    split <;> exact ⟨rfl, rfl, rfl⟩

theorem request_setInProgress_ne {r r' : Nat} (inProgress : Bool) (hne : r ≠ r') :
    (m.setInProgress r inProgress).request r' = m.request r' := by
  simp only [request, setInProgress, List.getD_eq_getElem?_getD, List.getElem?_modify]
  cases m.requests[r']? with
  | none => rfl
  | some q =>
    show (if r = r' then _ else q) = q
    rw [if_neg hne]

theorem request_setInProgress_self {r : Nat} (inProgress : Bool) (hr : r < m.requests.length) :
    ((m.setInProgress r inProgress).request r).acceptInProgress = inProgress := by
  simp only [request, setInProgress, List.getD_eq_getElem?_getD, List.getElem?_modify,
    List.getElem?_eq_getElem hr, if_true]
  rfl

theorem length_setInProgress (r : Nat) (inProgress : Bool) :
    (m.setInProgress r inProgress).requests.length = m.requests.length :=
  List.length_modify ..

end Requests

section Keeping

theorem Wf.filterOffers (h : m.Wf) (keep : Nat → Bool) :
    Wf { m with waitingOffers := m.waitingOffers.filter keep } where
  request_lt := h.request_lt
  offer_lt o ho := h.offer_lt o (List.mem_of_mem_filter ho)
  paired_lt := h.paired_lt
  offers_once := h.offers_once.sublist (List.filter_sublist.append_right _)
  same_type := h.same_type
  in_progress := h.in_progress
  requests_once := h.requests_once

theorem Wf.pair (h : m.Wf) {r : Nat} (hr : r < m.requests.length) : (m.pair r).Wf := by
  unfold Matching.pair
  split
  · exact h
  · rename_i hfree
    split
    · exact h
    · rename_i o hfind
      have ho : o ∈ m.waitingOffers := List.mem_of_find?_eq_some hfind
      have htype : (m.offer o).taskType = (m.request r).taskType := by
        simpa using List.find?_some hfind
      have hpairing : ∀ p ∈ m.pairings, p.outcome ≠ .failed → p.request ≠ r := by
        intro p hp hlive heq
        exact hfree (heq ▸ h.in_progress p hp hlive)
      exact
        { request_lt := by
            intro r' hr'
            exact Nat.lt_of_lt_of_eq (h.request_lt r' hr') (length_setInProgress r true).symm
          offer_lt := fun o' ho' => h.offer_lt o' (List.mem_of_mem_erase ho')
          paired_lt := by
            intro p hp
            have hlength : m.requests.length = (m.setInProgress r true).requests.length :=
              (length_setInProgress r true).symm
            cases List.mem_append.mp hp with
            | inl hp =>
              exact ⟨Nat.lt_of_lt_of_eq (h.paired_lt p hp).1 hlength, (h.paired_lt p hp).2⟩
            | inr hp =>
              cases List.mem_singleton.mp hp
              exact ⟨Nat.lt_of_lt_of_eq hr hlength, h.offer_lt o ho⟩
          offers_once := by
            rw [List.map_append, ← List.append_assoc, List.map_singleton]
            have hperm : (m.waitingOffers.erase o ++ m.pairings.map Pairing.offer ++ [o]).Perm
                (m.waitingOffers ++ m.pairings.map Pairing.offer) :=
              (List.perm_append_singleton _ _).trans
                ((List.perm_cons_erase ho).symm.append_right _)
            exact hperm.nodup_iff.mpr h.offers_once
          same_type := by
            intro p hp
            refine Eq.trans ?_ (request_setInProgress r p.request true).2.2.symm
            cases List.mem_append.mp hp with
            | inl hp => exact h.same_type p hp
            | inr hp =>
              cases List.mem_singleton.mp hp
              exact htype
          in_progress := by
            intro p hp hlive
            cases List.mem_append.mp hp with
            | inl hp =>
              have hne := (hpairing p hp hlive).symm
              exact (congrArg _ (request_setInProgress_ne true hne)).trans
                (h.in_progress p hp hlive)
            | inr hp =>
              cases List.mem_singleton.mp hp
              exact request_setInProgress_self true hr
          requests_once := by
            intro i j p q hi hj hplive hqlive heq
            cases getElem?_concat_cases hi with
            | inl hi =>
              cases getElem?_concat_cases hj with
              | inl hj => exact h.requests_once i j p q hi hj hplive hqlive heq
              | inr hj =>
                obtain ⟨-, rfl⟩ := hj
                exact absurd heq (hpairing p (List.mem_of_getElem? hi) hplive)
            | inr hi =>
              obtain ⟨rfl, rfl⟩ := hi
              cases getElem?_concat_cases hj with
              | inl hj => exact absurd heq.symm (hpairing q (List.mem_of_getElem? hj) hqlive)
              | inr hj => exact hj.1.symm }

theorem pair_requests (r : Nat) : (m.pair r).requests.length = m.requests.length ∧
    (m.pair r).waitingRequests = m.waitingRequests := by
  unfold Matching.pair
  split
  · exact ⟨rfl, rfl⟩
  · split
    · exact ⟨rfl, rfl⟩
    · exact ⟨length_setInProgress r true, rfl⟩

theorem Wf.foldl_pair {rs : List Nat} (h : m.Wf) (hrs : ∀ r ∈ rs, r < m.requests.length) :
    (rs.foldl Matching.pair m).Wf := by
  induction rs generalizing m with
  | nil => exact h
  | cons r rs ih =>
    apply ih (h.pair (hrs r List.mem_cons_self))
    intro r' hr'
    rw [(pair_requests r).1]
    exact hrs r' (List.mem_cons_of_mem r hr')

theorem Wf.settle (h : m.Wf) : m.settle.Wf :=
  (h.filterOffers _).foldl_pair h.request_lt

theorem getD_concat {α : Type} [Inhabited α] {l : List α} (x : α) {i : Nat} (hi : i < l.length) :
    (l ++ [x]).getD i default = l.getD i default := by
  rw [List.getD_eq_getElem?_getD, List.getD_eq_getElem?_getD, List.getElem?_append_left hi]

theorem Wf.addRequest (h : m.Wf) (request : TaskRequest) :
    Wf { m with
      requests := m.requests ++ [request]
      waitingRequests := m.waitingRequests ++ [m.requests.length] } where
  request_lt := by
    intro r hr
    rw [List.length_append, List.length_singleton]
    cases List.mem_append.mp hr with
    | inl hr => exact Nat.lt_succ_of_lt (h.request_lt r hr)
    | inr hr =>
      cases List.mem_singleton.mp hr
      exact Nat.lt_succ_self _
  offer_lt := h.offer_lt
  paired_lt := by
    intro p hp
    rw [List.length_append, List.length_singleton]
    exact ⟨Nat.lt_succ_of_lt (h.paired_lt p hp).1, (h.paired_lt p hp).2⟩
  offers_once := h.offers_once
  same_type := by
    intro p hp
    exact (h.same_type p hp).trans
      (congrArg TaskRequest.taskType (getD_concat request (h.paired_lt p hp).1).symm)
  in_progress := by
    intro p hp hlive
    exact (congrArg TaskRequest.acceptInProgress (getD_concat request (h.paired_lt p hp).1)).trans
      (h.in_progress p hp hlive)
  requests_once := h.requests_once

theorem Wf.addOffer (h : m.Wf) (offer : TaskOffer) :
    Wf { m with
      offers := m.offers ++ [offer], waitingOffers := m.waitingOffers ++ [m.offers.length] } where
  request_lt := h.request_lt
  offer_lt := by
    intro o ho
    rw [List.length_append, List.length_singleton]
    cases List.mem_append.mp ho with
    | inl ho => exact Nat.lt_succ_of_lt (h.offer_lt o ho)
    | inr ho =>
      cases List.mem_singleton.mp ho
      exact Nat.lt_succ_self _
  paired_lt := by
    intro p hp
    rw [List.length_append, List.length_singleton]
    exact ⟨(h.paired_lt p hp).1, Nat.lt_succ_of_lt (h.paired_lt p hp).2⟩
  offers_once := by
    have hfresh : m.offers.length ∉ m.waitingOffers ++ m.pairings.map Pairing.offer := by
      intro hmem
      cases List.mem_append.mp hmem with
      | inl hmem => exact Nat.lt_irrefl _ (h.offer_lt _ hmem)
      | inr hmem =>
        obtain ⟨p, hp, heq⟩ := List.mem_map.mp hmem
        exact Nat.lt_irrefl _ (heq ▸ (h.paired_lt p hp).2)
    have hperm : (m.waitingOffers ++ [m.offers.length] ++ m.pairings.map Pairing.offer).Perm
        (m.offers.length :: (m.waitingOffers ++ m.pairings.map Pairing.offer)) :=
      (List.perm_append_singleton _ _).append_right _
    exact hperm.nodup_iff.mpr (List.nodup_cons.mpr ⟨hfresh, h.offers_once⟩)
  same_type := by
    intro p hp
    exact (congrArg TaskOffer.taskType (getD_concat offer (h.paired_lt p hp).2)).trans
      (h.same_type p hp)
  in_progress := h.in_progress
  requests_once := h.requests_once

theorem getElem?_setOutcome {i p : Nat} {outcome : Outcome} {x : Pairing}
    (h : (m.setOutcome p outcome).pairings[i]? = some x) :
    ∃ y, m.pairings[i]? = some y ∧ x.offer = y.offer ∧ x.request = y.request ∧
      (i = p ∧ x.outcome = outcome ∨ i ≠ p ∧ x = y) := by
  rw [show (m.setOutcome p outcome).pairings[i]? = _ from List.getElem?_modify ..] at h
  obtain ⟨y, hy, rfl⟩ := Option.map_eq_some_iff.mp h
  refine ⟨y, hy, ?_⟩
  split
  · rename_i hi
    exact ⟨rfl, rfl, .inl ⟨hi.symm, rfl⟩⟩
  · rename_i hi
    exact ⟨rfl, rfl, .inr ⟨fun heq => hi heq.symm, rfl⟩⟩

theorem offers_setOutcome (p : Nat) (outcome : Outcome) :
    (m.setOutcome p outcome).pairings.map Pairing.offer = m.pairings.map Pairing.offer := by
  apply List.ext_getElem?
  intro i
  simp only [setOutcome, List.getElem?_map, List.getElem?_modify]
  cases m.pairings[i]? with
  | none => rfl
  | some x =>
    show some (if p = i then _ else x).offer = some x.offer
    split <;> rfl

theorem Wf.setOutcome (h : m.Wf) {p : Nat} {pairing : Pairing} (hp : m.pairings[p]? = some pairing)
    (hlive : pairing.outcome ≠ .failed) (outcome : Outcome) : (m.setOutcome p outcome).Wf := by
  -- whoever has not failed afterwards had not failed before
  have hold : ∀ (i : Nat) (x : Pairing),
      (m.setOutcome p outcome).pairings[i]? = some x → x.outcome ≠ .failed →
      ∃ y, m.pairings[i]? = some y ∧ x.request = y.request ∧ y.outcome ≠ .failed := by
    intro i x hx hxlive
    obtain ⟨y, hy, -, hrequest, hcase⟩ := getElem?_setOutcome hx
    refine ⟨y, hy, hrequest, ?_⟩
    cases hcase with
    | inl hi =>
      rw [hi.1, hp] at hy
      cases hy
      exact hlive
    | inr hi => exact hi.2 ▸ hxlive
  exact
    { request_lt := h.request_lt
      offer_lt := h.offer_lt
      paired_lt := by
        intro x hx
        obtain ⟨i, hi⟩ := List.mem_iff_getElem?.mp hx
        obtain ⟨y, hy, hoffer, hrequest, -⟩ := getElem?_setOutcome hi
        rw [hoffer, hrequest]
        exact h.paired_lt y (List.mem_of_getElem? hy)
      offers_once := by
        rw [offers_setOutcome]
        exact h.offers_once
      same_type := by
        intro x hx
        obtain ⟨i, hi⟩ := List.mem_iff_getElem?.mp hx
        obtain ⟨y, hy, hoffer, hrequest, -⟩ := getElem?_setOutcome hi
        rw [hoffer, hrequest]
        exact h.same_type y (List.mem_of_getElem? hy)
      in_progress := by
        intro x hx hxlive
        obtain ⟨i, hi⟩ := List.mem_iff_getElem?.mp hx
        obtain ⟨y, hy, hrequest, hylive⟩ := hold i x hi hxlive
        rw [hrequest]
        exact h.in_progress y (List.mem_of_getElem? hy) hylive
      requests_once := by
        intro i j x x' hx hx' hxlive hxlive' heq
        obtain ⟨y, hy, hrequest, hylive⟩ := hold i x hx hxlive
        obtain ⟨y', hy', hrequest', hylive'⟩ := hold j x' hx' hxlive'
        exact h.requests_once i j y y' hy hy' hylive hylive'
          (by rw [← hrequest, ← hrequest', heq]) }

theorem Wf.release (h : m.Wf) {r : Nat}
    (hr : ∀ p ∈ m.pairings, p.outcome ≠ .failed → p.request ≠ r) :
    (m.setInProgress r false).Wf where
  request_lt r' hr' := Nat.lt_of_lt_of_eq (h.request_lt r' hr') (length_setInProgress r false).symm
  offer_lt := h.offer_lt
  paired_lt p hp := ⟨Nat.lt_of_lt_of_eq (h.paired_lt p hp).1 (length_setInProgress r false).symm,
    (h.paired_lt p hp).2⟩
  offers_once := h.offers_once
  same_type p hp := (h.same_type p hp).trans (request_setInProgress r p.request false).2.2.symm
  in_progress p hp hlive :=
    (congrArg TaskRequest.acceptInProgress
      (request_setInProgress_ne false (hr p hp hlive).symm)).trans (h.in_progress p hp hlive)
  requests_once := h.requests_once

theorem Wf.wait (h : m.Wf) {rs : List Nat} (hrs : ∀ r ∈ rs, r < m.requests.length) :
    Wf { m with waitingRequests := rs } where
  request_lt := hrs
  offer_lt := h.offer_lt
  paired_lt := h.paired_lt
  offers_once := h.offers_once
  same_type := h.same_type
  in_progress := h.in_progress
  requests_once := h.requests_once

theorem of_undecided {p : Nat} {pairing : Pairing} (h : m.undecided p = some pairing) :
    m.pairings[p]? = some pairing ∧ pairing.outcome ≠ .failed := by
  obtain ⟨hp, houtcome⟩ := Option.filter_eq_some_iff.mp h
  refine ⟨hp, ?_⟩
  rw [of_decide_eq_true houtcome]
  exact Outcome.noConfusion

theorem Wf.fail (h : m.Wf) (p : Nat) (deferred : Bool) : (m.fail p deferred).Wf := by
  unfold Matching.fail
  cases hp : m.undecided p with
  | none => exact h
  | some pairing =>
    obtain ⟨hpairing, hlive⟩ := of_undecided hp
    have hfree : ∀ x ∈ (m.setOutcome p .failed).pairings, x.outcome ≠ .failed →
        x.request ≠ pairing.request := by
      intro x hx hxlive heq
      obtain ⟨i, hi⟩ := List.mem_iff_getElem?.mp hx
      obtain ⟨y, hy, -, -, hcase⟩ := getElem?_setOutcome hi
      cases hcase with
      | inl hcase => exact hxlive hcase.2
      | inr hcase =>
        rw [hcase.2] at hxlive heq
        exact hcase.1 (h.requests_once i p y pairing hy hpairing hxlive hlive heq)
    have hfailed : ((m.setInProgress pairing.request false).setOutcome p .failed).Wf :=
      (h.setOutcome hpairing hlive .failed).release hfree
    cases deferred with
    | false => exact hfailed
    | true =>
      apply hfailed.wait
      intro r hr
      have hlength :
          m.requests.length = (m.setInProgress pairing.request false).requests.length :=
        (length_setInProgress pairing.request false).symm
      cases List.mem_append.mp hr with
      | inl hr => exact Nat.lt_of_lt_of_eq (h.request_lt r hr) hlength
      | inr hr =>
        cases List.mem_singleton.mp hr
        exact Nat.lt_of_lt_of_eq
          (h.paired_lt pairing (List.mem_of_getElem? hpairing)).1 hlength

theorem Wf.create (h : m.Wf) (p : Nat) : (m.create p).Wf := by
  unfold Matching.create
  cases hp : m.undecided p with
  | none => exact h
  | some pairing =>
    obtain ⟨hpairing, hlive⟩ := of_undecided hp
    exact (h.setOutcome hpairing hlive .created).wait
      fun r hr => h.request_lt r (List.mem_of_mem_eraseP hr)

theorem wf_empty : Wf (TaskBroker.matching {}) where
  request_lt r hr := absurd hr List.not_mem_nil
  offer_lt o ho := absurd ho List.not_mem_nil
  paired_lt p hp := absurd hp List.not_mem_nil
  offers_once := List.nodup_nil
  same_type p hp := absurd hp List.not_mem_nil
  in_progress p hp := absurd hp List.not_mem_nil
  requests_once i j p q hp := by
    rw [show (TaskBroker.matching {}).pairings[i]? = none from List.getElem?_nil] at hp
    cases hp

theorem Wf.step (h : m.Wf) (e : MatchingEvent) : (m.step e).Wf := by
  cases e with
  | idle => exact h
  | elapse duration =>
    exact { h with }
  | request request => exact (h.addRequest request).settle
  | offer offer => exact (h.addOffer offer).settle
  | withdraw runnerId => exact h.filterOffers _
  | fail p deferred => exact h.fail p deferred
  | create p => exact h.create p

end Keeping

section History

/-- What a matching says about the past stays true in a later one. -/
structure Extends (m m' : Matching) : Prop where
  requests_le : m.requests.length ≤ m'.requests.length
  offers_le : m.offers.length ≤ m'.offers.length
  request_eq : ∀ r < m.requests.length, SameRequest (m.request r) (m'.request r)
  offer_eq : ∀ o < m.offers.length, m'.offer o = m.offer o
  pairing : ∀ (p : Nat) (x : Pairing), m.pairings[p]? = some x →
    ∃ x', m'.pairings[p]? = some x' ∧ x'.offer = x.offer ∧ x'.request = x.request ∧
      (x.outcome ≠ .undecided → x'.outcome = x.outcome)

variable {m' m'' : Matching}

theorem Extends.of_eq (hrequests : m'.requests = m.requests) (hoffers : m'.offers = m.offers)
    (hpairings : m'.pairings = m.pairings) : Extends m m' where
  requests_le := Nat.le_of_eq (congrArg List.length hrequests.symm)
  offers_le := Nat.le_of_eq (congrArg List.length hoffers.symm)
  request_eq r _ := by
    have hsame : m'.request r = m.request r := by rw [request, hrequests, request]
    rw [hsame]
    exact ⟨rfl, rfl, rfl⟩
  offer_eq o _ := by rw [offer, hoffers, offer]
  pairing p x hx := ⟨x, by rw [hpairings, hx], rfl, rfl, fun _ => rfl⟩

theorem Extends.trans (h : Extends m m') (h' : Extends m' m'') : Extends m m'' where
  requests_le := Nat.le_trans h.requests_le h'.requests_le
  offers_le := Nat.le_trans h.offers_le h'.offers_le
  request_eq r hr := by
    obtain ⟨hid, hrequester, htype⟩ := h.request_eq r hr
    obtain ⟨hid', hrequester', htype'⟩ := h'.request_eq r (Nat.lt_of_lt_of_le hr h.requests_le)
    exact ⟨hid'.trans hid, hrequester'.trans hrequester, htype'.trans htype⟩
  offer_eq o ho :=
    (h'.offer_eq o (Nat.lt_of_lt_of_le ho h.offers_le)).trans (h.offer_eq o ho)
  pairing p x hx := by
    obtain ⟨x', hx', hoffer, hrequest, houtcome⟩ := h.pairing p x hx
    obtain ⟨x'', hx'', hoffer', hrequest', houtcome'⟩ := h'.pairing p x' hx'
    refine ⟨x'', hx'', hoffer'.trans hoffer, hrequest'.trans hrequest, fun hdecided => ?_⟩
    have heq := houtcome hdecided
    exact (houtcome' (heq ▸ hdecided)).trans heq

theorem extends_setInProgress (r : Nat) (inProgress : Bool) :
    Extends m (m.setInProgress r inProgress) where
  requests_le := Nat.le_of_eq (length_setInProgress r inProgress).symm
  offers_le := Nat.le_refl _
  request_eq r' _ := request_setInProgress r r' inProgress
  offer_eq _ _ := rfl
  pairing _ x hx := ⟨x, hx, rfl, rfl, fun _ => rfl⟩

theorem extends_setOutcome {p : Nat} {pairing : Pairing} (hp : m.undecided p = some pairing)
    (outcome : Outcome) : Extends m (m.setOutcome p outcome) where
  requests_le := Nat.le_refl _
  offers_le := Nat.le_refl _
  request_eq r _ := ⟨rfl, rfl, rfl⟩
  offer_eq o _ := rfl
  pairing i x hx := by
    obtain ⟨hpairing, houtcome⟩ := Option.filter_eq_some_iff.mp hp
    refine ⟨if p = i then { x with outcome := outcome } else x, ?_, ?_⟩
    · rw [show (m.setOutcome p outcome).pairings[i]? = _ from List.getElem?_modify .., hx]
      rfl
    · split
      · rename_i heq
        subst heq
        rw [hx] at hpairing
        cases hpairing
        exact ⟨rfl, rfl, fun hdecided => absurd (of_decide_eq_true houtcome) hdecided⟩
      · exact ⟨rfl, rfl, fun _ => rfl⟩

theorem extends_pair (r : Nat) : Extends m (m.pair r) := by
  unfold Matching.pair
  split
  · exact .of_eq rfl rfl rfl
  · split
    · exact .of_eq rfl rfl rfl
    · refine (extends_setInProgress r true).trans ?_
      exact
        { requests_le := Nat.le_refl _
          offers_le := Nat.le_refl _
          request_eq := fun _ _ => ⟨rfl, rfl, rfl⟩
          offer_eq := fun _ _ => rfl
          pairing := fun p x hx => by
            have hp : p < m.pairings.length := (List.getElem?_eq_some_iff.mp hx).1
            exact ⟨x, (List.getElem?_append_left hp).trans hx, rfl, rfl, fun _ => rfl⟩ }

theorem extends_foldl_pair (m : Matching) (rs : List Nat) :
    Extends m (rs.foldl Matching.pair m) := by
  induction rs generalizing m with
  | nil => exact .of_eq rfl rfl rfl
  | cons r rs ih => exact (extends_pair r).trans (ih (m.pair r))

theorem extends_settle : Extends m m.settle := by
  have hexpire : Extends m m.expire := .of_eq rfl rfl rfl
  exact hexpire.trans (extends_foldl_pair m.expire m.waitingRequests)

theorem extends_step (e : MatchingEvent) : Extends m (m.step e) := by
  cases e with
  | idle => exact .of_eq rfl rfl rfl
  | elapse duration => exact .of_eq rfl rfl rfl
  | request request =>
    refine Extends.trans ?_ extends_settle
    exact
      { requests_le := by
          rw [List.length_append]
          exact Nat.le_add_right _ _
        offers_le := Nat.le_refl _
        request_eq := fun r hr => by
          have hsame : (m.requests ++ [request]).getD r default = m.requests.getD r default :=
            getD_concat request hr
          show SameRequest (m.request r) ((m.requests ++ [request]).getD r default)
          rw [hsame]
          exact ⟨rfl, rfl, rfl⟩
        offer_eq := fun _ _ => rfl
        pairing := fun p x hx => ⟨x, hx, rfl, rfl, fun _ => rfl⟩ }
  | offer offer =>
    refine Extends.trans ?_ extends_settle
    exact
      { requests_le := Nat.le_refl _
        offers_le := by
          rw [List.length_append]
          exact Nat.le_add_right _ _
        request_eq := fun _ _ => ⟨rfl, rfl, rfl⟩
        offer_eq := fun o ho => getD_concat offer ho
        pairing := fun p x hx => ⟨x, hx, rfl, rfl, fun _ => rfl⟩ }
  | withdraw runnerId => exact .of_eq rfl rfl rfl
  | fail p deferred =>
    show Extends m (m.fail p deferred)
    unfold Matching.fail
    cases hp : m.undecided p with
    | none => exact .of_eq rfl rfl rfl
    | some pairing =>
      have hp' : (m.setInProgress pairing.request false).undecided p = some pairing := hp
      have hfailed := (extends_setInProgress pairing.request false).trans
        (extends_setOutcome hp' .failed)
      cases deferred with
      | false => exact hfailed
      | true => exact hfailed.trans (.of_eq rfl rfl rfl)
  | create p =>
    show Extends m (m.create p)
    unfold Matching.create
    cases hp : m.undecided p with
    | none => exact .of_eq rfl rfl rfl
    | some pairing => exact (extends_setOutcome hp .created).trans (.of_eq rfl rfl rfl)

end History

end Matching

end N8n.TaskRunners
