import N8n.Waiting.WaitTracker

/-!
# Live timers of the wait tracker

`waitingExecutions` is exact when its entries are the live timers, one for each execution. Polls,
timers that fire and `stopExecution` keep it exact. `stopTracking` does not: it clears the timers
and keeps the entries, which hide their executions from the polls after the next `startTracking`.
-/

namespace N8n.Waiting

open Collections Transition

namespace WaitTracker

variable {t : WaitTracker}

/-- The entries of `waitingExecutions` are the live timers. -/
structure Exact (t : WaitTracker) : Prop where
  entry : ∀ timer ∈ t.timers, t.waitingExecutions.get? timer.executionId = some timer.id
  live : ∀ executionId id, t.waitingExecutions.get? executionId = some id →
    ∃ timer ∈ t.timers, timer.id = id ∧ timer.executionId = executionId
  distinct : (t.timers.map (·.id)).Nodup
  set_before : ∀ timer ∈ t.timers, timer.id < t.nextTimer

theorem Exact.eq_of_id (h : t.Exact) {timer timer' : Timer} (ht : timer ∈ t.timers)
    (ht' : timer' ∈ t.timers) (heq : timer.id = timer'.id) : timer = timer' :=
  List.inj_on_of_nodup_map h.distinct ht ht' heq

theorem Exact.one_timer (h : t.Exact) {executionId : Nat}
    (hentry : t.waitingExecutions.has executionId = true) :
    t.timers.countP (·.executionId = executionId) = 1 := by
  have hnodup : (t.timers.map (·.executionId)).Nodup := by
    refine h.distinct.of_map.map_on ?_
    intro timer ht timer' ht' heq
    have hid := h.entry timer ht
    rw [heq, h.entry timer' ht'] at hid
    exact h.eq_of_id ht ht' (Option.some.inj hid).symm
  obtain ⟨id, hid⟩ := Option.isSome_iff_exists.mp hentry
  obtain ⟨timer, ht, -, hexecution⟩ := h.live executionId id hid
  have hmem : executionId ∈ t.timers.map (·.executionId) :=
    List.mem_map.mpr ⟨timer, ht, hexecution⟩
  have hcount := List.count_eq_one_of_mem hnodup hmem
  rw [List.count_eq_countP, List.countP_map] at hcount
  rw [← hcount]
  apply List.countP_congr
  intro timer _
  simp only [Function.comp_apply, decide_eq_true_eq, beq_iff_eq]

theorem exact_of_empty (hentries : t.waitingExecutions.entries = []) (htimers : t.timers = []) :
    t.Exact where
  entry timer ht := by
    rw [htimers] at ht
    cases ht
  live executionId id hid := by
    rw [InsertionMap.get_eq_some_iff, hentries] at hid
    cases hid
  distinct := by
    rw [htimers]
    exact List.nodup_nil
  set_before timer ht := by
    rw [htimers] at ht
    cases ht

theorem Exact.setTimer (h : t.Exact) (now : Nat) (execution : PolledExecution) :
    (t.setTimer now execution).Exact := by
  unfold WaitTracker.setTimer
  split
  · exact h
  · rename_i hnone
    exact
      { entry := by
          intro timer ht
          rw [InsertionMap.get_set]
          cases List.mem_append.mp ht with
          | inl ht =>
            have hentry := h.entry timer ht
            split
            · rename_i heq
              rw [heq, hnone] at hentry
              cases hentry
            · exact hentry
          | inr ht =>
            cases List.mem_singleton.mp ht
            rw [if_pos rfl]
        live := by
          intro executionId id hid
          rw [InsertionMap.get_set] at hid
          split at hid
          · rename_i heq
            cases hid
            exact ⟨_, List.mem_append_right _ (List.mem_singleton_self _), rfl, heq.symm⟩
          · obtain ⟨timer, ht, htimer⟩ := h.live executionId id hid
            exact ⟨timer, List.mem_append_left _ ht, htimer⟩
        distinct := by
          rw [List.map_append, List.map_singleton]
          refine (List.perm_append_singleton _ _).nodup_iff.mpr
            (List.nodup_cons.mpr ⟨fun hmem => ?_, h.distinct⟩)
          obtain ⟨timer, ht, heq⟩ := List.mem_map.mp hmem
          exact Nat.lt_irrefl _ (heq ▸ h.set_before timer ht)
        set_before := by
          intro timer ht
          cases List.mem_append.mp ht with
          | inl ht => exact Nat.lt_succ_of_lt (h.set_before timer ht)
          | inr ht =>
            cases List.mem_singleton.mp ht
            exact Nat.lt_succ_self _ }

theorem has_setTimer (now : Nat) (execution : PolledExecution) {executionId : Nat}
    (h : t.waitingExecutions.has executionId = true ∨ executionId = execution.executionId) :
    (t.setTimer now execution).waitingExecutions.has executionId = true := by
  unfold WaitTracker.setTimer
  split
  · rename_i id hsome
    cases h with
    | inl h => exact h
    | inr h =>
      rw [h, InsertionMap.has, hsome]
      rfl
  · rw [InsertionMap.has, InsertionMap.get_set]
    split
    · rfl
    · rename_i hne
      exact h.resolve_right hne

theorem Exact.setTimers (h : t.Exact) (now : Nat) (executions : List PolledExecution) :
    (t.setTimers now executions).Exact := by
  unfold WaitTracker.setTimers
  induction executions generalizing t with
  | nil => exact h
  | cons execution executions ih => exact ih (h.setTimer now execution)

theorem has_setTimers (now : Nat) (executions : List PolledExecution) {executionId : Nat}
    (h : t.waitingExecutions.has executionId = true ∨
      executionId ∈ executions.map (·.executionId)) :
    (t.setTimers now executions).waitingExecutions.has executionId = true := by
  unfold WaitTracker.setTimers
  induction executions generalizing t with
  | nil => exact h.resolve_right List.not_mem_nil
  | cons execution executions ih =>
    apply ih
    rw [List.map_cons, List.mem_cons, ← or_assoc] at h
    cases h with
    | inl h => exact .inl (has_setTimer now execution h)
    | inr h => exact .inr h

theorem Exact.stopExecution (h : t.Exact) (executionId : Nat) :
    (t.stopExecution executionId).Exact := by
  unfold WaitTracker.stopExecution
  split
  · exact h
  · rename_i id hid
    have hsublist : (t.timers.filter (·.id ≠ id)).Sublist t.timers := List.filter_sublist
    exact
      { entry := by
          intro timer ht
          obtain ⟨ht, hne⟩ := List.mem_filter.mp ht
          have hentry := h.entry timer ht
          rw [InsertionMap.get_delete]
          split
          · rename_i heq
            rw [heq, hid] at hentry
            exact absurd (Option.some.inj hentry).symm (of_decide_eq_true hne)
          · exact hentry
        live := by
          intro executionId' id' hid'
          rw [InsertionMap.get_delete] at hid'
          split at hid'
          · cases hid'
          · rename_i hne
            obtain ⟨timer, ht, hidEq, hexecution⟩ := h.live executionId' id' hid'
            refine ⟨timer, List.mem_filter.mpr ⟨ht, decide_eq_true fun heq => ?_⟩, hidEq,
              hexecution⟩
            obtain ⟨timer', ht', hid₁, hexecution'⟩ := h.live executionId id hid
            have hsame := h.eq_of_id ht ht' (heq.trans hid₁.symm)
            rw [← hexecution, hsame, hexecution'] at hne
            exact hne rfl
        distinct := h.distinct.sublist (hsublist.map _)
        set_before := fun timer ht => h.set_before timer (List.mem_of_mem_filter ht) }

theorem Exact.fired (h : t.Exact) {timer : Timer} (ht : timer ∈ t.timers) :
    { t with
      timers := t.timers.filter (·.id ≠ timer.id)
      waitingExecutions := t.waitingExecutions.delete timer.executionId : WaitTracker } =
    t.stopExecution timer.executionId := by
  unfold WaitTracker.stopExecution
  rw [h.entry timer ht]

theorem Exact.stopTracking_timers (h : t.Exact) {mainTimer : Nat}
    (hmain : t.mainTimer = some mainTimer) : t.stopTracking.timers = [] := by
  unfold WaitTracker.stopTracking
  rw [hmain]
  apply List.filter_eq_nil_iff.mpr
  intro timer ht
  have hvalue : timer.id ∈ t.waitingExecutions.values :=
    InsertionMap.mem_values_iff.mpr ⟨_, h.entry timer ht⟩
  simp only [hvalue, not_true_eq_false, decide_false, Bool.false_eq_true, not_false_eq_true]

theorem intervals_setTimers (t : WaitTracker) (now : Nat) (executions : List PolledExecution) :
    (t.setTimers now executions).mainTimer = t.mainTimer ∧
      (t.setTimers now executions).intervals = t.intervals := by
  unfold WaitTracker.setTimers
  induction executions generalizing t with
  | nil => exact ⟨rfl, rfl⟩
  | cons execution executions ih =>
    rw [List.foldl_cons, (ih _).1, (ih _).2]
    unfold WaitTracker.setTimer
    split <;> exact ⟨rfl, rfl⟩

theorem intervals_stopExecution (t : WaitTracker) (executionId : Nat) :
    (t.stopExecution executionId).mainTimer = t.mainTimer ∧
      (t.stopExecution executionId).intervals = t.intervals := by
  unfold WaitTracker.stopExecution
  split <;> exact ⟨rfl, rfl⟩

theorem stopExecution_timers (executionId : Nat) (h : t.timers = []) :
    (t.stopExecution executionId).timers = [] := by
  unfold WaitTracker.stopExecution
  split
  · exact h
  · show t.timers.filter _ = []
    rw [h]
    rfl

theorem stopTracking_timers (h : t.timers = []) : t.stopTracking.timers = [] := by
  unfold WaitTracker.stopTracking
  split
  · exact h
  · show t.timers.filter _ = []
    rw [h]
    rfl

theorem setTimers_of_has (now : Nat) {executions : List PolledExecution}
    (h : ∀ execution ∈ executions,
      t.waitingExecutions.has execution.executionId = true) :
    t.setTimers now executions = t := by
  unfold WaitTracker.setTimers
  induction executions with
  | nil => rfl
  | cons execution executions ih =>
    have hsame : t.setTimer now execution = t := by
      obtain ⟨id, hid⟩ := Option.isSome_iff_exists.mp (h execution List.mem_cons_self)
      unfold WaitTracker.setTimer
      rw [hid]
    rw [List.foldl_cons, hsame]
    exact ih fun execution hmem => h execution (List.mem_cons_of_mem _ hmem)

theorem Exact.delete (h : t.Exact) {executionId : Nat}
    (hnone : ∀ timer ∈ t.timers, timer.executionId ≠ executionId) :
    { t with waitingExecutions := t.waitingExecutions.delete executionId : WaitTracker }.Exact where
  entry timer ht := by
    rw [InsertionMap.get_delete, if_neg (hnone timer ht)]
    exact h.entry timer ht
  live executionId' id hid := by
    rw [InsertionMap.get_delete] at hid
    split at hid
    · cases hid
    · exact h.live executionId' id hid
  distinct := h.distinct
  set_before := h.set_before

end WaitTracker

namespace WaitState

variable {s s' : WaitState} {e : WaitEvent}

/-- What a poll goes on with. -/
def answer (s : WaitState) (poll : Nat) : List PolledExecution :=
  match s.polls[poll]? with
  | some (.returned executions) => executions
  | _ => []

/-- Tracking starts once at a time and without entries of an earlier leadership. A poll that returns
after `stopTracking` sets no timer, and no execution is started from elsewhere while its timer is
live. -/
def KeepsEntries (s : WaitState) : WaitEvent → Prop
  | .startTracking => s.tracking = false ∧ s.tracker.waitingExecutions.entries = []
  | .returnPoll poll =>
    s.tracking = true ∨
      ∀ execution ∈ s.answer poll,
        s.tracker.waitingExecutions.has execution.executionId = true
  | .startExecution executionId => ∀ timer ∈ s.tracker.timers, timer.executionId ≠ executionId
  | _ => True

instance (s : WaitState) : (e : WaitEvent) → Decidable (s.KeepsEntries e)
  | .startTracking => inferInstanceAs (Decidable (_ ∧ _))
  | .returnPoll _ => inferInstanceAs (Decidable (_ ∨ _))
  | .startExecution _ => inferInstanceAs (Decidable (∀ timer ∈ s.tracker.timers, _))
  | .elapse _ | .createExecution _ | .putIntoWaiting _ _ | .finish _ _ _ | .stopTracking
  | .stopExecution _ | .intervalFires _ | .timerFires _ | .query _ | .failPoll _ | .goOn _
  | .failStart _ => inferInstanceAs (Decidable True)

/-- The tracker is exact while it tracks, and has no timer while it does not. -/
structure Tracks (s : WaitState) : Prop where
  exact : s.tracking = true → s.tracker.Exact
  main : s.tracking = true → ∃ mainTimer,
    s.tracker.mainTimer = some mainTimer ∧ s.tracker.intervals = [mainTimer]
  stopped : s.tracking = false → s.tracker.timers = [] ∧ s.tracker.intervals = []

theorem Tracks.congr (h : s.Tracks) (htracker : s'.tracker = s.tracker)
    (htracking : s'.tracking = s.tracking) : s'.Tracks where
  exact := by
    rw [htracker, htracking]
    exact h.exact
  main := by
    rw [htracker, htracking]
    exact h.main
  stopped := by
    rw [htracker, htracking]
    exact h.stopped

theorem Tracks.setTracker (h : s.Tracks) {tracker : WaitTracker}
    (htracker : s'.tracker = tracker) (htracking : s'.tracking = s.tracking)
    (hmain : tracker.mainTimer = s.tracker.mainTimer)
    (hintervals : tracker.intervals = s.tracker.intervals)
    (hexact : s.tracking = true → tracker.Exact)
    (hstopped : s.tracking = false → tracker.timers = []) : s'.Tracks where
  exact := by
    rw [htracker, htracking]
    exact hexact
  main := by
    rw [htracker, htracking, hmain, hintervals]
    exact h.main
  stopped := by
    rw [htracker, htracking, hintervals]
    exact fun hs => ⟨hstopped hs, (h.stopped hs).2⟩

theorem tracker_of_goOn {start : Nat} (h : s.goOn start = some s') :
    s'.tracker = s.tracker ∧ s'.tracking = s.tracking := by
  unfold goOn at h
  obtain ⟨call, -, h⟩ := Option.bind_eq_some_iff.mp h
  split at h
  · split at h
    · cases h
      exact ⟨rfl, rfl⟩
    · cases h
      exact ⟨rfl, rfl⟩
  · cases h
    exact ⟨rfl, rfl⟩
  · cases h
    exact ⟨rfl, rfl⟩
  · cases h
    exact ⟨rfl, rfl⟩

theorem Tracks.cleared (h : s.Tracks) :
    s.tracker.stopTracking.timers = [] ∧ s.tracker.stopTracking.intervals = [] := by
  cases htracking : s.tracking with
  | true =>
    obtain ⟨mainTimer, hmain, hintervals⟩ := h.main htracking
    refine ⟨(h.exact htracking).stopTracking_timers hmain, ?_⟩
    unfold WaitTracker.stopTracking
    rw [hmain, hintervals]
    simp only [ne_eq, decide_not, List.filter_cons, decide_true, Bool.not_true,
      Bool.false_eq_true, if_false, List.filter_nil]
  | false =>
    obtain ⟨htimers, hintervals⟩ := h.stopped htracking
    refine ⟨WaitTracker.stopTracking_timers htimers, ?_⟩
    unfold WaitTracker.stopTracking
    split
    · exact hintervals
    · show s.tracker.intervals.filter _ = []
      rw [hintervals]
      rfl

theorem Tracks.fired (h : s.Tracks) {timer : Timer} (hmem : timer ∈ s.tracker.timers)
    (htracker : s'.tracker = { s.tracker with
      timers := s.tracker.timers.filter (·.id ≠ timer.id)
      waitingExecutions := s.tracker.waitingExecutions.delete timer.executionId })
    (htracking : s'.tracking = s.tracking) : s'.Tracks := by
  have hstopped (hs : s.tracking = false) : False := by
    rw [(h.stopped hs).1] at hmem
    cases hmem
  refine h.setTracker htracker htracking rfl rfl (fun hs => ?_) fun hs => (hstopped hs).elim
  rw [(h.exact hs).fired hmem]
  exact (h.exact hs).stopExecution _

theorem Tracks.step (h : s.Tracks) (hallowed : s.KeepsEntries e) (hstep : s.step e = some s') :
    s'.Tracks := by
  cases e with
  | elapse duration | createExecution workflowId | failPoll poll | failStart start =>
    cases hstep
    exact h.congr rfl rfl
  | putIntoWaiting executionId waitTill =>
    simp only [WaitState.step] at hstep
    split at hstep
    · cases hstep
      exact h.congr rfl rfl
    · cases hstep
  | finish executionId status finished =>
    simp only [WaitState.step] at hstep
    split at hstep
    · cases hstep
    · cases hstep
      exact h.congr rfl rfl
  | startTracking =>
    obtain ⟨hstopped, hentries⟩ := hallowed
    obtain ⟨htimers, hintervals⟩ := h.stopped hstopped
    cases hstep
    exact
      { exact := fun _ => WaitTracker.exact_of_empty hentries htimers
        main := by
          refine fun _ => ⟨_, rfl, ?_⟩
          show s.tracker.intervals ++ [s.tracker.nextTimer] = [s.tracker.nextTimer]
          rw [hintervals]
          rfl
        stopped := fun hs => by cases hs }
  | stopTracking =>
    cases hstep
    exact
      { exact := fun hs => by cases hs
        main := fun hs => by cases hs
        stopped := fun _ => h.cleared }
  | stopExecution executionId =>
    cases hstep
    obtain ⟨hmain, hintervals⟩ := WaitTracker.intervals_stopExecution s.tracker executionId
    exact h.setTracker rfl rfl hmain hintervals
      (fun hs => (h.exact hs).stopExecution executionId)
      fun hs => WaitTracker.stopExecution_timers executionId (h.stopped hs).1
  | startExecution executionId =>
    cases hstep
    exact h.setTracker rfl rfl rfl rfl (fun hs => (h.exact hs).delete hallowed)
      fun hs => (h.stopped hs).1
  | intervalFires interval =>
    simp only [WaitState.step] at hstep
    split at hstep
    · cases hstep
      exact h.congr rfl rfl
    · cases hstep
  | timerFires timer =>
    simp only [WaitState.step] at hstep
    split at hstep
    · cases hstep
    · rename_i timer' hfind
      cases hstep
      have hmem := List.mem_of_find?_eq_some hfind
      have hid : timer'.id = timer := by
        have hfound := List.find?_some hfind
        simp only [Bool.and_eq_true, decide_eq_true_eq] at hfound
        exact hfound.1
      subst hid
      exact h.fired hmem rfl rfl
  | query poll =>
    simp only [WaitState.step] at hstep
    split at hstep
    · cases hstep
      exact h.congr rfl rfl
    · cases hstep
  | returnPoll poll =>
    simp only [WaitState.step] at hstep
    split at hstep
    · rename_i executions hpoll
      cases hstep
      obtain ⟨hmain, hintervals⟩ :=
        WaitTracker.intervals_setTimers s.tracker s.now executions
      refine h.setTracker rfl rfl hmain hintervals
        (fun hs => (h.exact hs).setTimers s.now executions) fun hs => ?_
      have hentries := hallowed.resolve_left (ne_true_of_eq_false hs)
      rw [answer, hpoll] at hentries
      rw [WaitTracker.setTimers_of_has s.now hentries]
      exact (h.stopped hs).1
    · cases hstep
  | goOn start =>
    obtain ⟨htracker, htracking⟩ := tracker_of_goOn hstep
    exact h.congr htracker htracking

/-- What the tracker promises of a step from `s` to `s'`: a poll while it tracks leaves one live
timer for each execution that it returns, and no timer is live while it does not track. -/
structure TracksWaiting (s : WaitState) (e : WaitEvent) (s' : WaitState) : Prop where
  polled : ∀ poll executions, e = .returnPoll poll → s.tracking = true →
    s.polls[poll]? = some (.returned executions) → ∀ execution ∈ executions,
      s'.tracker.timers.countP (·.executionId = execution.executionId) = 1
  stopped : s'.tracking = false → s'.tracker.timers = [] ∧ s'.tracker.intervals = []

/-- In a run that keeps the entries, the tracker tracks what it was told to track. -/
theorem tracks_waiting (s s' : WaitState) (e : WaitEvent)
    (h : Reachable WaitState.step KeepsEntries {} s) (hallowed : s.KeepsEntries e)
    (hstep : s.step e = some s') : TracksWaiting s e s' := by
  have hinit : Tracks {} :=
    { exact := fun hs => by cases hs
      main := fun hs => by cases hs
      stopped := fun _ => ⟨rfl, rfl⟩ }
  have htracks : s.Tracks :=
    h.keeps Tracks hinit fun s e s' hs hallowed hstep => hs.step hallowed hstep
  constructor
  · intro poll executions he htracking hpoll execution hmem
    subst he
    simp only [WaitState.step, hpoll] at hstep
    cases hstep
    apply ((htracks.exact htracking).setTimers s.now executions).one_timer
    exact WaitTracker.has_setTimers s.now executions (.inr (List.mem_map.mpr ⟨_, hmem, rfl⟩))
  · exact (htracks.step hallowed hstep).stopped

/-- An execution that waits for ten seconds, and a poll that finds it. -/
def waitingPolled : List WaitEvent :=
  [.createExecution (some "workflow"), .putIntoWaiting 0 10000, .startTracking, .query 0]

/-- It has a live timer after the poll. -/
theorem tracks_waiting_polled :
    ∃ s s', runAllowed WaitState.step KeepsEntries {} waitingPolled = some s ∧
      s.step (.returnPoll 0) = some s' ∧ TracksWaiting s (.returnPoll 0) s' := by
  have hrun : (runAllowed WaitState.step KeepsEntries {} waitingPolled).any fun s =>
      s.tracking = true ∧ (s.step (.returnPoll 0)).isSome = true := by decide +kernel
  obtain ⟨s, hs, h⟩ := (Option.any_eq_true _ _).mp hrun
  obtain ⟨htracking, hstep⟩ := of_decide_eq_true h
  obtain ⟨s', hs'⟩ := Option.isSome_iff_exists.mp hstep
  exact ⟨s, s', hs, hs',
    tracks_waiting s s' (.returnPoll 0) (reachable_of_runAllowed .start hs) (.inl htracking) hs'⟩

/-- The leader steps down and takes over again. -/
def leaderAgain : List WaitEvent :=
  waitingPolled ++ [.returnPoll 0, .stopTracking, .startTracking, .query 0]

/-- The execution has no timer after the next poll. -/
theorem untracked_after_takeover : ¬ ∀ (s s' : WaitState) (e : WaitEvent),
    Reachable WaitState.step (fun _ _ => True) {} s → s.step e = some s' →
    TracksWaiting s e s' := by
  intro hclaim
  have hrun : (Transition.run WaitState.step {} leaderAgain).any fun s =>
      s.tracking = true ∧ s.polls[0]? = some (.returned [⟨0, 10000⟩]) ∧
        (s.step (.returnPoll 0)).any fun s' => s'.tracker.timers = [] := by decide +kernel
  obtain ⟨s, hs, h⟩ := (Option.any_eq_true _ _).mp hrun
  obtain ⟨htracking, hpoll, hstep⟩ := of_decide_eq_true h
  obtain ⟨s', hs', htimers⟩ := (Option.any_eq_true _ _).mp hstep
  have hone := (hclaim s s' (.returnPoll 0) (reachable_of_run hs) hs').polled 0 _ rfl htracking
    hpoll ⟨0, 10000⟩ (List.mem_singleton_self _)
  rw [of_decide_eq_true htimers] at hone
  cases hone

end WaitState

end N8n.Waiting
