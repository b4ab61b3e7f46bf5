import N8n.Collections.KeyedList
import N8n.Waiting.LiveTimers

/-!
# Resuming a wait once

A wait is resumed by the timer of its execution. From the moment the timer fires the execution has
no entry in `waitingExecutions`, and it keeps its `waitTill` in the database until
`ActiveExecutions.add` has got capacity. A poll in between sets a second timer. When no poll does,
`WorkflowRunner.run` is called once for each wait.
-/

namespace N8n.Waiting

open Collections Transition

/-- Has the call of `startExecution` called `WorkflowRunner.run`? -/
def StartPhase.hasRun : StartPhase → Bool
  | .findingExecution | .findingProject => false
  | .throttled | .updating => true

namespace WaitState

variable {s s' : WaitState} {e : WaitEvent}

/-- The executions with a call of `startExecution` under way. -/
def underWay (s : WaitState) : List Nat := s.starts.map (·.executionId)

/-- The execution waits, and no call of `startExecution` is under way for it. -/
def OnlyWaits (s : WaitState) (executionId : Nat) : Prop :=
  (s.execution executionId).waitTill ≠ none ∧ executionId ∉ s.underWay

instance (s : WaitState) (executionId : Nat) : Decidable (s.OnlyWaits executionId) :=
  inferInstanceAs (Decidable (_ ∧ _))

/-- A poll sets timers, and `startExecution` is called from elsewhere, only for executions that wait
and are not being started, the latter only without a live timer. No start fails after it has called
`WorkflowRunner.run`. -/
def ResumesWaiting (s : WaitState) : WaitEvent → Prop
  | .returnPoll poll => ∀ execution ∈ s.answer poll,
      s.tracker.waitingExecutions.has execution.executionId = true ∨
        s.OnlyWaits execution.executionId
  | .startExecution executionId =>
    s.OnlyWaits executionId ∧ ∀ timer ∈ s.tracker.timers, timer.executionId ≠ executionId
  | .failStart start => (s.starts[start]?.any fun call => call.phase.hasRun) = false
  | _ => True

instance (s : WaitState) : (e : WaitEvent) → Decidable (s.ResumesWaiting e)
  | .returnPoll poll => inferInstanceAs (Decidable (∀ execution ∈ s.answer poll, _))
  | .startExecution _ => inferInstanceAs (Decidable (_ ∧ _))
  | .failStart _ => inferInstanceAs (Decidable (_ = _))
  | .elapse _ | .createExecution _ | .putIntoWaiting _ _ | .finish _ _ _ | .startTracking
  | .stopTracking | .stopExecution _ | .intervalFires _ | .timerFires _ | .query _ | .failPoll _
  | .goOn _ => inferInstanceAs (Decidable True)

/-- The current wait of an execution. -/
def currentWait (s : WaitState) (executionId : Nat) : Nat × Nat :=
  (executionId, (s.execution executionId).waits)

/-- A wait that will be resumed has not been resumed yet, and there is one timer or call of
`startExecution` that will do it. -/
structure Once (s : WaitState) : Prop where
  entry : ∀ timer ∈ s.tracker.timers,
    s.tracker.waitingExecutions.get? timer.executionId = some timer.id
  one_start : s.underWay.Nodup
  timer_only : ∀ timer ∈ s.tracker.timers, timer.executionId ∉ s.underWay
  timer_new : ∀ timer ∈ s.tracker.timers, s.currentWait timer.executionId ∉ s.runs
  start_new : ∀ start ∈ s.starts, start.phase.hasRun = false →
    s.currentWait start.executionId ∉ s.runs
  resumed : ∀ executionId, s.currentWait executionId ∈ s.runs →
    (s.execution executionId).waitTill = none ∨ executionId ∈ s.underWay
  past : ∀ run ∈ s.runs, run.2 ≤ (s.execution run.1).waits
  once : s.runs.Nodup

variable {executionId start : Nat}

theorem Once.new_of_onlyWaits (h : s.Once) (hwaits : s.OnlyWaits executionId) :
    s.currentWait executionId ∉ s.runs := by
  intro hmem
  cases h.resumed executionId hmem with
  | inl hnone => exact hwaits.1 hnone
  | inr hstart => exact hwaits.2 hstart

theorem execution_update (executionId : Nat) (f : WaitingExecution → WaitingExecution) (id : Nat) :
    (s.update executionId f).execution id =
      if id = executionId ∧ executionId < s.executions.length then f (s.execution executionId)
      else s.execution id := by
  unfold execution update
  simp only [List.getD_eq_getElem?_getD, List.getElem?_modify]
  by_cases hid : id = executionId
  · subst hid
    by_cases hlt : id < s.executions.length
    · simp only [hlt, and_self, if_true, List.getElem?_eq_getElem, Option.map_eq_map,
        Option.map_some, Option.getD_some]
    · simp only [hlt, and_false, if_false, List.getElem?_eq_none (Nat.le_of_not_lt hlt),
        Option.map_eq_map, Option.map_none]
  · have hne : ¬ executionId = id := fun heq => hid heq.symm
    simp only [hid, hne, false_and, if_false, Option.map_eq_map, Option.map_id']

theorem Once.keep (h : s.Once)
    (htimers : ∀ timer ∈ s'.tracker.timers, timer ∈ s.tracker.timers ∧
      s'.tracker.waitingExecutions.get? timer.executionId = some timer.id)
    (hstarts : s'.starts = s.starts) (hruns : s'.runs = s.runs)
    (hexecutions : ∀ id, (s'.execution id).waits = (s.execution id).waits ∧
      ((s'.execution id).waitTill = none ∨
        (s'.execution id).waitTill = (s.execution id).waitTill)) : s'.Once := by
  have hunderWay : s'.underWay = s.underWay := by rw [underWay, underWay, hstarts]
  have hwait (id : Nat) : s'.currentWait id = s.currentWait id := by
    rw [currentWait, currentWait, (hexecutions id).1]
  exact
    { entry := fun timer ht => (htimers timer ht).2
      one_start := by
        rw [hunderWay]
        exact h.one_start
      timer_only := by
        rw [hunderWay]
        exact fun timer ht => h.timer_only timer (htimers timer ht).1
      timer_new := by
        intro timer ht
        rw [hwait, hruns]
        exact h.timer_new timer (htimers timer ht).1
      start_new := by
        intro start hmem
        rw [hwait, hruns]
        exact h.start_new start (hstarts ▸ hmem)
      resumed := by
        intro id hmem
        rw [hwait, hruns] at hmem
        rw [hunderWay]
        cases (hexecutions id).2 with
        | inl hnone => exact .inl hnone
        | inr heq =>
          rw [heq]
          exact h.resumed id hmem
      past := by
        intro run hmem
        rw [(hexecutions run.1).1]
        exact h.past run (hruns ▸ hmem)
      once := by
        rw [hruns]
        exact h.once }

theorem Once.clear (h : s.Once) {tracker : WaitTracker}
    (htimers : ∀ timer ∈ tracker.timers, timer ∈ s.tracker.timers ∧
      tracker.waitingExecutions.get? timer.executionId = some timer.id) :
    { s with tracker := tracker : WaitState }.Once :=
  h.keep htimers rfl rfl fun _ => ⟨rfl, .inr rfl⟩

theorem Once.congr (h : s.Once) (htracker : s'.tracker = s.tracker)
    (hstarts : s'.starts = s.starts) (hruns : s'.runs = s.runs)
    (hexecutions : s'.executions = s.executions) : s'.Once := by
  refine h.keep (fun timer ht => ?_) hstarts hruns fun id => ?_
  · rw [htracker] at ht ⊢
    exact ⟨ht, h.entry timer ht⟩
  · unfold execution
    rw [hexecutions]
    exact ⟨rfl, .inr rfl⟩

theorem Once.update (h : s.Once) (executionId : Nat) (f : WaitingExecution → WaitingExecution)
    (hwaits : ∀ execution, (f execution).waits = execution.waits)
    (hwaitTill : ∀ execution,
      (f execution).waitTill = none ∨ (f execution).waitTill = execution.waitTill) :
    (s.update executionId f).Once := by
  refine h.keep (fun timer ht => ⟨ht, h.entry timer ht⟩) rfl rfl fun id => ?_
  rw [execution_update]
  split
  · rename_i hid
    rw [hid.1]
    exact ⟨hwaits _, hwaitTill _⟩
  · exact ⟨rfl, .inr rfl⟩

theorem Once.wait (h : s.Once) (hlt : executionId < s.executions.length)
    {f : WaitingExecution → WaitingExecution}
    (hwaits : ∀ execution, (f execution).waits = execution.waits + 1) :
    (s.update executionId f).Once := by
  have hother {id : Nat} (hne : id ≠ executionId) :
      (s.update executionId f).execution id = s.execution id := by
    rw [execution_update, if_neg fun hid => hne hid.1]
  have hself : ((s.update executionId f).execution executionId).waits =
      (s.execution executionId).waits + 1 := by
    rw [execution_update, if_pos ⟨rfl, hlt⟩, hwaits]
  have hnew : (s.update executionId f).currentWait executionId ∉ s.runs := by
    intro hmem
    rw [currentWait, hself] at hmem
    exact Nat.not_succ_le_self _ (h.past _ hmem)
  have hwait {id : Nat} (hne : id ≠ executionId) :
      (s.update executionId f).currentWait id = s.currentWait id := by
    rw [currentWait, hother hne, currentWait]
  exact
    { entry := h.entry
      one_start := h.one_start
      timer_only := h.timer_only
      timer_new := by
        intro timer ht
        by_cases hid : timer.executionId = executionId
        · rw [hid]
          exact hnew
        · rw [hwait hid]
          exact h.timer_new timer ht
      start_new := by
        intro start hmem hphase
        by_cases hid : start.executionId = executionId
        · rw [hid]
          exact hnew
        · rw [hwait hid]
          exact h.start_new start hmem hphase
      resumed := by
        intro id hmem
        by_cases hid : id = executionId
        · rw [hid] at hmem
          exact absurd hmem hnew
        · rw [hwait hid] at hmem
          rw [hother hid]
          exact h.resumed id hmem
      past := by
        intro run hmem
        by_cases hid : run.1 = executionId
        · have hpast := h.past run hmem
          rw [hid] at hpast ⊢
          rw [hself]
          exact Nat.le_succ_of_le hpast
        · rw [hother hid]
          exact h.past run hmem
      once := h.once }

theorem Once.startExecution (h : s.Once)
    (htimers : ∀ timer ∈ s.tracker.timers, timer.executionId ≠ executionId)
    (hidle : executionId ∉ s.underWay) (hnew : s.currentWait executionId ∉ s.runs) :
    (s.startExecution executionId).Once := by
  have hunderWay : (s.startExecution executionId).underWay = s.underWay ++ [executionId] :=
    List.map_append
  exact
    { entry := by
        intro timer ht
        show (s.tracker.waitingExecutions.delete executionId).get? timer.executionId = some timer.id
        rw [InsertionMap.get_delete, if_neg (htimers timer ht)]
        exact h.entry timer ht
      one_start := by
        rw [hunderWay]
        exact (List.perm_append_singleton _ _).nodup_iff.mpr
          (List.nodup_cons.mpr ⟨hidle, h.one_start⟩)
      timer_only := by
        intro timer ht hmem
        rw [hunderWay] at hmem
        cases List.mem_append.mp hmem with
        | inl hmem => exact h.timer_only timer ht hmem
        | inr hmem => exact htimers timer ht (List.mem_singleton.mp hmem)
      timer_new := h.timer_new
      start_new := by
        intro start hmem hphase
        cases List.mem_append.mp hmem with
        | inl hmem => exact h.start_new start hmem hphase
        | inr hmem =>
          cases List.mem_singleton.mp hmem
          exact hnew
      resumed := by
        intro id hmem
        rw [hunderWay]
        exact (h.resumed id hmem).imp_right (List.mem_append_left _)
      past := h.past
      once := h.once }

theorem Once.timerFires (h : s.Once) {timer : Timer} (ht : timer ∈ s.tracker.timers) :
    WaitState.Once <| { s with
      tracker := { s.tracker with
        timers := s.tracker.timers.filter (·.id ≠ timer.id) } : WaitState }.startExecution
          timer.executionId := by
  have hcleared : { s with
      tracker := { s.tracker with
        timers := s.tracker.timers.filter (·.id ≠ timer.id) } : WaitState }.Once :=
    h.clear fun other hmem =>
      ⟨List.mem_of_mem_filter hmem, h.entry other (List.mem_of_mem_filter hmem)⟩
  refine hcleared.startExecution (fun other hmem hexecution => ?_) (h.timer_only timer ht)
    (h.timer_new timer ht)
  -- both timers would be the entry of their execution
  obtain ⟨hmem, hne⟩ := List.mem_filter.mp hmem
  have hentry := h.entry other hmem
  rw [hexecution, h.entry timer ht] at hentry
  exact of_decide_eq_true hne (Option.some.inj hentry).symm

theorem Once.setTimer (h : s.Once) (execution : PolledExecution)
    (hwaits : s.tracker.waitingExecutions.has execution.executionId = true ∨
      s.OnlyWaits execution.executionId) :
    { s with tracker := s.tracker.setTimer s.now execution : WaitState }.Once := by
  unfold WaitTracker.setTimer
  split
  · exact h
  · rename_i hnone
    have honly : s.OnlyWaits execution.executionId := by
      refine hwaits.resolve_left fun hentry => ?_
      rw [InsertionMap.has, hnone] at hentry
      cases hentry
    exact
      { entry := by
          intro timer ht
          rw [InsertionMap.get_set]
          cases List.mem_append.mp ht with
          | inl ht =>
            have hentry := h.entry timer ht
            rw [if_neg fun heq => by rw [heq, hnone] at hentry; cases hentry]
            exact hentry
          | inr ht =>
            cases List.mem_singleton.mp ht
            rw [if_pos rfl]
        one_start := h.one_start
        timer_only := by
          intro timer ht
          cases List.mem_append.mp ht with
          | inl ht => exact h.timer_only timer ht
          | inr ht =>
            cases List.mem_singleton.mp ht
            exact honly.2
        timer_new := by
          intro timer ht
          cases List.mem_append.mp ht with
          | inl ht => exact h.timer_new timer ht
          | inr ht =>
            cases List.mem_singleton.mp ht
            exact h.new_of_onlyWaits honly
        start_new := h.start_new
        resumed := h.resumed
        past := h.past
        once := h.once }

theorem Once.setTimers (h : s.Once) (executions : List PolledExecution)
    (hwaits : ∀ execution ∈ executions,
      s.tracker.waitingExecutions.has execution.executionId = true ∨
        s.OnlyWaits execution.executionId) :
    { s with tracker := s.tracker.setTimers s.now executions : WaitState }.Once := by
  unfold WaitTracker.setTimers
  induction executions generalizing s with
  | nil => exact h
  | cons execution executions ih =>
    refine ih (h.setTimer execution (hwaits execution List.mem_cons_self)) fun other hmem => ?_
    cases hwaits other (List.mem_cons_of_mem _ hmem) with
    | inl hentry => exact .inl (WaitTracker.has_setTimer s.now execution (.inl hentry))
    | inr honly => exact .inr honly

theorem Once.suspend (h : s.Once) {call : Start} {phase : StartPhase}
    (hcall : s.starts[start]? = some call)
    (hphase : phase.hasRun = false → s.currentWait call.executionId ∉ s.runs) :
    (s.suspend start call phase).Once := by
  have hunderWay : (s.suspend start call phase).underWay = s.underWay :=
    map_set_of_key hcall rfl
  exact
    { entry := h.entry
      one_start := by
        rw [hunderWay]
        exact h.one_start
      timer_only := by
        rw [hunderWay]
        exact h.timer_only
      timer_new := h.timer_new
      start_new := by
        intro other hmem hother
        cases List.mem_or_eq_of_mem_set hmem with
        | inl hmem => exact h.start_new other hmem hother
        | inr heq =>
          subst heq
          exact hphase hother
      resumed := by
        rw [hunderWay]
        exact h.resumed
      past := h.past
      once := h.once }

theorem Once.run (h : s.Once) {call : Start} (hcall : s.starts[start]? = some call)
    (hphase : call.phase.hasRun = false) :
    ((s.run call.executionId).suspend start call .throttled).Once := by
  have hmem : call ∈ s.starts := List.mem_of_getElem? hcall
  have hstart : call.executionId ∈ s.underWay := List.mem_map.mpr ⟨call, hmem, rfl⟩
  have hunderWay :
      ((s.run call.executionId).suspend start call .throttled).underWay = s.underWay :=
    map_set_of_key hcall rfl
  have hnew := h.start_new call hmem hphase
  -- the waits of the other executions are as new as before
  have hother {id : Nat} (hne : id ≠ call.executionId) (hid : s.currentWait id ∉ s.runs) :
      s.currentWait id ∉ s.runs ++ [s.currentWait call.executionId] := by
    intro hrun
    cases List.mem_append.mp hrun with
    | inl hrun => exact hid hrun
    | inr hrun => exact hne (congrArg Prod.fst (List.mem_singleton.mp hrun))
  exact
    { entry := h.entry
      one_start := by
        rw [hunderWay]
        exact h.one_start
      timer_only := by
        rw [hunderWay]
        exact h.timer_only
      timer_new := by
        intro timer ht
        refine hother (fun heq => h.timer_only timer ht ?_) (h.timer_new timer ht)
        rw [heq]
        exact hstart
      start_new := by
        intro other hset hphase'
        cases mem_set_of_nodup h.one_start hcall hset with
        | inl heq =>
          subst heq
          cases hphase'
        | inr hne => exact hother hne.2 (h.start_new other hne.1 hphase')
      resumed := by
        intro id hrun
        rw [hunderWay]
        cases List.mem_append.mp hrun with
        | inl hrun => exact h.resumed id hrun
        | inr hrun =>
          have hid : id = call.executionId := congrArg Prod.fst (List.mem_singleton.mp hrun)
          rw [hid]
          exact .inr hstart
      past := by
        intro run hrun
        cases List.mem_append.mp hrun with
        | inl hrun => exact h.past run hrun
        | inr hrun =>
          cases List.mem_singleton.mp hrun
          exact Nat.le_refl _
      once :=
        (List.perm_append_singleton _ _).nodup_iff.mpr (List.nodup_cons.mpr ⟨hnew, h.once⟩) }

/-- A call of `startExecution` ends before `WorkflowRunner.run`, or when its execution no longer
waits. -/
theorem Once.endStart (h : s.Once) {call : Start} (hcall : s.starts[start]? = some call)
    (hdone : call.phase.hasRun = false ∨ (s.execution call.executionId).waitTill = none) :
    { s with starts := s.starts.eraseIdx start : WaitState }.Once := by
  have hmem : call ∈ s.starts := List.mem_of_getElem? hcall
  have hsub : (List.map (·.executionId) (s.starts.eraseIdx start)).Sublist s.underWay :=
    (List.eraseIdx_sublist _ _).map _
  exact
    { entry := h.entry
      one_start := h.one_start.sublist hsub
      timer_only := fun timer ht hstart => h.timer_only timer ht (hsub.subset hstart)
      timer_new := h.timer_new
      start_new := fun other hother => h.start_new other (List.mem_of_mem_eraseIdx hother)
      resumed := by
        intro id hrun
        cases h.resumed id hrun with
        | inl hnone => exact .inl hnone
        | inr hstart =>
          by_cases hid : id = call.executionId
          · rw [hid] at hrun ⊢
            cases hdone with
            | inl hphase => exact absurd hrun (h.start_new call hmem hphase)
            | inr hnone => exact .inl hnone
          · obtain ⟨other, hother, heq⟩ := List.mem_map.mp hstart
            refine .inr (List.mem_map.mpr ⟨other, ?_, heq⟩)
            exact (mem_eraseIdx_of_nodup h.one_start hcall).mpr
              ⟨hother, fun hkey => hid (heq.symm.trans hkey)⟩
      past := h.past
      once := h.once }

theorem Once.goOn (h : s.Once) (hstep : s.goOn start = some s') : s'.Once := by
  unfold WaitState.goOn at hstep
  obtain ⟨call, hcall, hstep⟩ := Option.bind_eq_some_iff.mp hstep
  have hmem : call ∈ s.starts := List.mem_of_getElem? hcall
  split at hstep
  · rename_i hphase
    have hrun : call.phase.hasRun = false := by rw [hphase]; rfl
    split at hstep
    · cases hstep
      exact h.suspend hcall fun _ => h.start_new call hmem hrun
    · cases hstep
      exact h.endStart hcall (.inl hrun)
  · rename_i hphase
    cases hstep
    exact h.run hcall (by rw [hphase]; rfl)
  · cases hstep
    exact h.suspend hcall fun hrun => by cases hrun
  · cases hstep
    -- the execution stops waiting in the step that ends the call
    have hupdate := h.update call.executionId ({ · with waitTill := none, status := .running })
      (fun _ => rfl) fun _ => .inl rfl
    refine hupdate.endStart hcall (.inr ?_)
    rw [execution_update]
    split
    · rfl
    · rename_i habsent
      have hlt : ¬ call.executionId < s.executions.length := fun hlt => habsent ⟨rfl, hlt⟩
      rw [execution, List.getD_eq_getElem?_getD, List.getElem?_eq_none (Nat.le_of_not_lt hlt)]
      rfl

theorem Once.stopExecution (h : s.Once) (executionId : Nat) :
    { s with tracker := s.tracker.stopExecution executionId : WaitState }.Once := by
  unfold WaitTracker.stopExecution
  split
  · exact h
  · rename_i id hid
    refine h.clear fun timer ht => ?_
    obtain ⟨ht, hne⟩ := List.mem_filter.mp ht
    have hentry := h.entry timer ht
    refine ⟨ht, ?_⟩
    rw [InsertionMap.get_delete, if_neg fun heq => ?_]
    · exact hentry
    · rw [heq, hid] at hentry
      exact of_decide_eq_true hne (Option.some.inj hentry).symm

theorem Once.stopTracking (h : s.Once) :
    { s with tracker := s.tracker.stopTracking : WaitState }.Once := by
  unfold WaitTracker.stopTracking
  split
  · exact h
  · exact h.clear fun timer ht =>
      ⟨List.mem_of_mem_filter ht, h.entry timer (List.mem_of_mem_filter ht)⟩

theorem Once.createExecution (h : s.Once) (workflowId : Option String) :
    { s with
      executions := s.executions ++ [{ workflowId := workflowId }] : WaitState }.Once := by
  refine h.keep (fun timer ht => ⟨ht, h.entry timer ht⟩) rfl rfl fun id => ?_
  unfold execution
  simp only [List.getD_eq_getElem?_getD]
  cases Nat.lt_trichotomy id s.executions.length with
  | inl hlt =>
    rw [List.getElem?_append_left hlt]
    exact ⟨rfl, .inr rfl⟩
  | inr hge =>
    have hnone : s.executions[id]? = none := List.getElem?_eq_none (by omega)
    rw [hnone, List.getElem?_append_right (by omega)]
    cases hge with
    | inl heq =>
      rw [heq, Nat.sub_self]
      exact ⟨rfl, .inl rfl⟩
    | inr hgt =>
      rw [List.getElem?_eq_none (by rw [List.length_singleton]; omega)]
      exact ⟨rfl, .inr rfl⟩

theorem Once.step (h : s.Once) (hallowed : s.ResumesWaiting e) (hstep : s.step e = some s') :
    s'.Once := by
  cases e with
  | elapse duration | failPoll poll =>
    cases hstep
    exact h.congr rfl rfl rfl rfl
  | createExecution workflowId =>
    cases hstep
    exact h.createExecution workflowId
  | putIntoWaiting executionId waitTill =>
    simp only [WaitState.step] at hstep
    split at hstep
    · rename_i hany
      cases hstep
      obtain ⟨execution, hexecution, -⟩ := (Option.any_eq_true _ _).mp hany
      exact h.wait (List.getElem?_eq_some_iff.mp hexecution).1 fun _ => rfl
    · cases hstep
  | finish executionId status finished =>
    simp only [WaitState.step] at hstep
    split at hstep
    · cases hstep
    · cases hstep
      refine h.update executionId _ (fun _ => rfl) fun execution => ?_
      show (if _ then execution.waitTill else none) = none ∨ _
      split
      · exact .inr rfl
      · exact .inl rfl
  | startTracking =>
    cases hstep
    exact h.keep (fun timer ht => ⟨ht, h.entry timer ht⟩) rfl rfl fun _ => ⟨rfl, .inr rfl⟩
  | stopTracking =>
    cases hstep
    exact h.stopTracking.congr rfl rfl rfl rfl
  | stopExecution executionId =>
    cases hstep
    exact h.stopExecution executionId
  | startExecution executionId =>
    obtain ⟨honly, htimers⟩ := hallowed
    cases hstep
    exact h.startExecution htimers honly.2 (h.new_of_onlyWaits honly)
  | intervalFires interval =>
    simp only [WaitState.step] at hstep
    split at hstep
    · cases hstep
      exact h.congr rfl rfl rfl rfl
    · cases hstep
  | timerFires id =>
    simp only [WaitState.step] at hstep
    split at hstep
    · cases hstep
    · rename_i timer hfind
      cases hstep
      have hid : timer.id = id := by
        have hfound := List.find?_some hfind
        simp only [Bool.and_eq_true, decide_eq_true_eq] at hfound
        exact hfound.1
      subst hid
      exact h.timerFires (List.mem_of_find?_eq_some hfind)
  | query poll =>
    simp only [WaitState.step] at hstep
    split at hstep
    · cases hstep
      exact h.congr rfl rfl rfl rfl
    · cases hstep
  | returnPoll poll =>
    simp only [WaitState.step] at hstep
    split at hstep
    · rename_i executions hpoll
      cases hstep
      rw [ResumesWaiting, answer, hpoll] at hallowed
      exact (h.setTimers executions hallowed).congr rfl rfl rfl rfl
    · cases hstep
  | goOn start => exact h.goOn hstep
  | failStart start =>
    cases hstep
    cases hcall : s.starts[start]? with
    | none =>
      have hlength := List.getElem?_eq_none_iff.mp hcall
      exact h.congr rfl (List.eraseIdx_of_length_le hlength) rfl rfl
    | some call =>
      rw [ResumesWaiting, hcall] at hallowed
      exact h.endStart hcall (.inl hallowed)

/-- In a run that resumes only executions that wait, `WorkflowRunner.run` is called at most once for
each wait. -/
theorem resumed_once (s : WaitState) (h : Reachable WaitState.step ResumesWaiting {} s) :
    s.runs.Nodup := by
  have hinit : Once {} :=
    { entry := fun timer ht => by cases ht
      one_start := List.nodup_nil
      timer_only := fun timer ht => by cases ht
      timer_new := fun timer ht => by cases ht
      start_new := fun start hmem => by cases hmem
      resumed := fun executionId hmem => by cases hmem
      past := fun run hmem => by cases hmem
      once := List.nodup_nil }
  have honce : s.Once :=
    h.keeps Once hinit fun s e s' hs hallowed hstep => hs.step hallowed hstep
  exact honce.once

/-- The wait of an execution ends, and `ActiveExecutions.add` waits for capacity. -/
def resumption : List WaitEvent :=
  waitingPolled ++ [.returnPoll 0, .elapse 60000, .timerFires 1, .goOn 0, .goOn 0]

/-- The wait is resumed once, and its execution goes on. -/
theorem resumed_once_resumption :
    ∃ s, runAllowed WaitState.step ResumesWaiting {} (resumption ++ [.goOn 0, .goOn 0]) = some s ∧
      s.runs = [(0, 1)] ∧ s.runs.Nodup := by
  have hrun : (runAllowed WaitState.step ResumesWaiting {}
      (resumption ++ [.goOn 0, .goOn 0])).any fun s => s.runs = [(0, 1)] := by decide +kernel
  obtain ⟨s, hs, hruns⟩ := (Option.any_eq_true _ _).mp hrun
  exact ⟨s, hs, of_decide_eq_true hruns, resumed_once s (reachable_of_runAllowed .start hs)⟩

/-- The next poll comes before there is capacity, and the timer that it sets fires. -/
def polledWhileThrottled : List WaitEvent :=
  resumption ++ [.intervalFires 0, .query 0, .returnPoll 0, .timerFires 2, .goOn 1, .goOn 1]

/-- The wait is resumed twice. -/
theorem resumed_twice_throttled : ¬ ∀ (s : WaitState),
    Reachable WaitState.step (fun _ _ => True) {} s → s.runs.Nodup := by
  intro hclaim
  have hrun : (Transition.run WaitState.step {} polledWhileThrottled).any fun s =>
      s.runs = [(0, 1), (0, 1)] := by decide +kernel
  obtain ⟨s, hs, hruns⟩ := (Option.any_eq_true _ _).mp hrun
  have honce := hclaim s (reachable_of_run hs)
  rw [of_decide_eq_true hruns] at honce
  exact absurd honce (by decide)

end WaitState

end N8n.Waiting
