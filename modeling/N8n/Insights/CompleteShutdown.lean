import N8n.Insights.ConservedEvents

/-!
# Shutdowns are complete

A shutdown waits for the flushes in progress and begins one for the events in the buffer, so that
all the events collected before it are stored or fail to be when it resolves. This holds as long as
no flush begun before a shutdown fails after it: such a flush puts its events back when the flush of
the shutdown has left already.
-/

namespace N8n.Insights

open Transition

variable {flushBatchSize : Nat} {s s' : State} {flush : Flush} {event : BufferedInsight}

/-- The event is stored, or a flush begun after the shutdown tried to save it and failed. -/
def State.Saved (s : State) (shutdown : Shutdown) (event : BufferedInsight) : Prop :=
  event ∈ s.stored.map InsightsRaw.event ∨
    ∃ flush ∈ s.failed, event ∈ flush.bufferedInsightsToFlush ∧ shutdown.begun ≤ flush.id

/-- A shutdown that resolved leaves nothing behind of what was collected before it. -/
def State.ShutdownsComplete (s : State) : Prop :=
  ∀ shutdown ∈ s.shutdowns, shutdown.resolved = true →
    ∀ event ∈ shutdown.collected, s.Saved shutdown event

/-- The flush that fails in an event, if one does. -/
def failing (s : State) : Event → Option Nat
  | .saveFailed id => some id
  | .foundMetadata id upsertMetadata =>
    -- without metadata for all the events, their rows cannot be made
    match s.flush? id with
    | some flush =>
      if (insightsRawOf (s.cacheMetadata upsertMetadata).cachedMetadata
        flush.bufferedInsightsToFlush).isNone then some id else none
    | none => none
  | _ => none

/-- No flush begun before a shutdown fails after it. -/
def allowed (s : State) (e : Event) : Prop :=
  ∀ id ∈ failing s e, ∀ shutdown ∈ s.shutdowns, shutdown.begun ≤ id

instance (s : State) (e : Event) : Decidable (allowed s e) :=
  inferInstanceAs (Decidable (∀ id ∈ failing s e, ∀ shutdown ∈ s.shutdowns, shutdown.begun ≤ id))

/-- The event is saved, or in a flush that the shutdown awaits. -/
def State.Accounted (s : State) (shutdown : Shutdown) (event : BufferedInsight) : Prop :=
  s.Saved shutdown event ∨
    ∃ flush ∈ s.flushesInProgress,
      event ∈ flush.bufferedInsightsToFlush ∧ flush.id ∈ shutdown.awaited

/-- What the shutdowns have collected is accounted for, and those that resolved await no flush. -/
structure Awaiting (s : State) : Prop where
  awaited : ∀ shutdown ∈ s.shutdowns, ∀ id ∈ shutdown.awaited, id < s.nextFlush
  accounted : ∀ shutdown ∈ s.shutdowns, ∀ event ∈ shutdown.collected, s.Accounted shutdown event
  resolved : ∀ shutdown ∈ s.shutdowns, shutdown.resolved = true →
    ∀ flush ∈ s.flushesInProgress, flush.id ∉ shutdown.awaited

theorem Awaiting.complete (h : Awaiting s) : s.ShutdownsComplete := by
  intro shutdown hshutdown hresolved event hevent
  obtain hsaved | ⟨flush, hflush, -, hawaited⟩ := h.accounted shutdown hshutdown event hevent
  · exact hsaved
  · exact absurd hawaited (h.resolved shutdown hshutdown hresolved flush hflush)

theorem started_awaiting : Awaiting started where
  awaited _ hmem := absurd hmem List.not_mem_nil
  accounted _ hmem := absurd hmem List.not_mem_nil
  resolved _ hmem := absurd hmem List.not_mem_nil

theorem Awaiting.of_step (h : Awaiting s) (hshutdowns : s'.shutdowns = s.shutdowns)
    (hnext : s.nextFlush ≤ s'.nextFlush)
    (hflushes : ∀ flush' ∈ s'.flushesInProgress,
      (∃ flush ∈ s.flushesInProgress, flush.id = flush'.id) ∨ s.nextFlush ≤ flush'.id)
    (haccounted : ∀ shutdown ∈ s.shutdowns, ∀ event, s.Accounted shutdown event →
      s'.Accounted shutdown event) : Awaiting s' := by
  refine ⟨fun shutdown hmem id hid => ?_, fun shutdown hmem event hevent => ?_,
    fun shutdown hmem hresolved flush hflush hawaited => ?_⟩ <;> rw [hshutdowns] at hmem
  · exact Nat.lt_of_lt_of_le (h.awaited shutdown hmem id hid) hnext
  · exact haccounted shutdown hmem event (h.accounted shutdown hmem event hevent)
  · obtain ⟨old, hold, hid⟩ | hnew := hflushes flush hflush
    · exact h.resolved shutdown hmem hresolved old hold (hid ▸ hawaited)
    · exact Nat.not_lt.mpr hnew (h.awaited shutdown hmem flush.id hawaited)

theorem Awaiting.flushEvents (h : Awaiting s) : Awaiting s.flushEvents.1 := by
  unfold State.flushEvents
  split
  · exact ⟨h.awaited, h.accounted, h.resolved⟩
  · refine h.of_step rfl (Nat.le_succ _) (fun flush hflush => ?_) fun shutdown _ event hevent => ?_
    · obtain hold | hnew := List.mem_append.mp hflush
      · exact .inl ⟨flush, hold, rfl⟩
      · cases List.mem_singleton.mp hnew
        exact .inr (Nat.le_refl _)
    · obtain hsaved | ⟨flush, hflush, hawaited⟩ := hevent
      · exact .inl hsaved
      · exact .inr ⟨flush, List.mem_append_left _ hflush, hawaited⟩

theorem flushEvents_begun {id : Nat} (h : id ∈ s.flushEvents.2) :
    id < s.flushEvents.1.nextFlush := by
  unfold State.flushEvents at h ⊢
  split at h
  · cases h
  · rename_i hbuffer
    cases h
    rw [if_neg hbuffer]
    exact Nat.lt_succ_self _

theorem Awaiting.flushIfFull (h : Awaiting s) : Awaiting (s.flushIfFull flushBatchSize) := by
  unfold State.flushIfFull
  split
  · exact h.flushEvents
  · exact h

theorem Awaiting.handle (h : Awaiting s) (ctx : WorkflowExecuteAfterContext) :
    Awaiting (s.handleWorkflowExecuteAfter flushBatchSize ctx) := by
  unfold State.handleWorkflowExecuteAfter
  split
  · exact h
  · dsimp only
    split
    · exact Awaiting.flushIfFull ⟨h.awaited, h.accounted, h.resolved⟩
    · let buffered : State :=
        { s with
          bufferedInsights := addAll s.bufferedInsights (newInsights s.collected.length ctx)
          collected := s.collected ++ newInsights s.collected.length ctx }
      have hbuffered : Awaiting buffered := ⟨h.awaited, h.accounted, h.resolved⟩
      have hflush := hbuffered.flushEvents
      exact ⟨hflush.awaited, hflush.accounted, hflush.resolved⟩

theorem Awaiting.moveTo (h : Awaiting s) (id : Nat) (point : SavePoint) :
    Awaiting (s.moveTo id point) := by
  refine h.of_step rfl (Nat.le_refl _) (fun moved hmoved => ?_) fun shutdown _ event hevent => ?_
  · obtain ⟨flush, hflush, hid, -⟩ := mem_moveTo hmoved
    exact .inl ⟨flush, hflush, hid.symm⟩
  · obtain hsaved | ⟨flush, hflush, hevents, hawaited⟩ := hevent
    · exact .inl hsaved
    · refine .inr ⟨_, List.mem_map_of_mem hflush, ?_⟩
      split <;> exact ⟨hevents, hawaited⟩

theorem accounted_finish {shutdown : Shutdown} {id : Nat} (hflush : s.flush? id = some flush)
    (hevent : s.Accounted shutdown event) :
    s.Saved shutdown event ∨ event ∈ flush.bufferedInsightsToFlush ∨
      ∃ other ∈ (s.finish id).flushesInProgress,
        event ∈ other.bufferedInsightsToFlush ∧ other.id ∈ shutdown.awaited := by
  obtain hsaved | ⟨other, hother, hevents, hawaited⟩ := hevent
  · exact .inl hsaved
  · obtain rfl | hmem := List.mem_cons.mp ((flushes_finish hflush).mem_iff.mp hother)
    · exact .inr (.inl hevents)
    · exact .inr (.inr ⟨other, hmem, hevents, hawaited⟩)

theorem Awaiting.inserted (h : Awaiting s) (hconserving : Conserving s) {id : Nat}
    (hflush : s.flush? id = some flush) {rows : List InsightsRaw}
    (hpoint : flush.point = .inserting rows) :
    Awaiting { s.finish id with stored := s.stored ++ rows } := by
  have hrows := hconserving.rows flush (flush?_eq_some hflush).1 rows hpoint
  refine h.of_step rfl (Nat.le_refl _) (fun other hother => .inl ⟨other, mem_finish hother, rfl⟩)
    fun shutdown _ event hevent => ?_
  obtain (hstored | hfailed) | hevents | hother := accounted_finish hflush hevent
  · exact .inl (.inl (by rw [List.map_append]; exact List.mem_append_left _ hstored))
  · exact .inl (.inr hfailed)
  · exact .inl (.inl (by rw [List.map_append, hrows]; exact List.mem_append_right _ hevents))
  · exact .inr hother

theorem Awaiting.saveFailed (h : Awaiting s) {id : Nat} (hflush : s.flush? id = some flush)
    (hbegun : ∀ shutdown ∈ s.shutdowns, shutdown.begun ≤ id) : Awaiting (s.saveFailed flush) := by
  obtain ⟨-, rfl⟩ := flush?_eq_some hflush
  refine h.of_step rfl (Nat.le_refl _) (fun other hother => .inl ⟨other, mem_finish hother, rfl⟩)
    fun shutdown hshutdown event hevent => ?_
  obtain (hstored | ⟨other, hother, hsaved⟩) | hevents | hother := accounted_finish hflush hevent
  · exact .inl (.inl hstored)
  · exact .inl (.inr ⟨other, List.mem_append_left _ hother, hsaved⟩)
  · exact .inl (.inr ⟨flush, List.mem_append_right _ (List.mem_singleton_self _), hevents,
      hbegun shutdown hshutdown⟩)
  · exact .inr hother

theorem Awaiting.record (h : Awaiting s) (call : Shutdown)
    (hawaited : ∀ id ∈ call.awaited, id < s.nextFlush)
    (haccounted : ∀ event ∈ call.collected, s.Accounted call event)
    (hresolved : call.resolved = false) :
    Awaiting { s with shutdowns := s.shutdowns ++ [call] } := by
  refine ⟨fun shutdown hmem => ?_, fun shutdown hmem => ?_, fun shutdown hmem hyes => ?_⟩ <;>
    obtain hmem | hmem := List.mem_append.mp hmem
  · exact h.awaited shutdown hmem
  · exact List.mem_singleton.mp hmem ▸ hawaited
  · exact h.accounted shutdown hmem
  · exact List.mem_singleton.mp hmem ▸ haccounted
  · exact h.resolved shutdown hmem hyes
  · rw [List.mem_singleton.mp hmem, hresolved] at hyes
    cases hyes

theorem Awaiting.shutdown (h : Awaiting s) (hconserving : Conserving s) : Awaiting s.shutdown := by
  let stopped : State := { s with flushTimer := false, isAsynchronouslySavingInsights := false }
  have hflushing : Awaiting stopped.flushEvents.1 :=
    Awaiting.flushEvents ⟨h.awaited, h.accounted, h.resolved⟩
  have hplaces : ∀ event ∈ s.collected, event ∈ s.bufferedInsights ∨
      (∃ flush ∈ s.flushesInProgress, event ∈ flush.bufferedInsightsToFlush) ∨
      event ∈ s.stored.map InsightsRaw.event := by
    intro event hevent
    obtain hevent | hstored := List.mem_append.mp (hconserving.perm.mem_iff.mpr hevent)
    · obtain hbuffered | hflushed := List.mem_append.mp hevent
      · exact .inl hbuffered
      · exact .inr (.inl (List.mem_flatMap.mp hflushed))
    · exact .inr (.inr hstored)
  refine hflushing.record
    { collected := s.collected, begun := s.nextFlush,
      awaited := s.flushesInProgress.map Flush.id ++ stopped.flushEvents.2.toList,
      resolved := false }
    (fun id hid => ?_) (fun event hevent => ?_) rfl
  · obtain hid | hid := List.mem_append.mp hid
    · obtain ⟨flush, hmem, rfl⟩ := List.mem_map.mp hid
      have hlt := hconserving.fresh flush hmem
      unfold State.flushEvents
      split
      · exact hlt
      · exact Nat.lt_succ_of_lt hlt
    · exact flushEvents_begun (Option.mem_toList.mp hid)
  · unfold State.flushEvents
    have hbuffer : stopped.bufferedInsights = s.bufferedInsights := rfl
    split
    · rename_i hempty
      obtain hbuffered | ⟨flush, hmem, hevents⟩ | hstored := hplaces event hevent
      · rw [← hbuffer, hempty] at hbuffered
        cases hbuffered
      · exact .inr ⟨flush, hmem, hevents, List.mem_append_left _ (List.mem_map_of_mem hmem)⟩
      · exact .inl (.inl hstored)
    · obtain hbuffered | ⟨flush, hmem, hevents⟩ | hstored := hplaces event hevent
      · exact .inr ⟨_, List.mem_append_right _ (List.mem_singleton_self _), hbuffered,
          List.mem_append_right _ (List.mem_singleton_self _)⟩
      · exact .inr ⟨flush, List.mem_append_left _ hmem, hevents,
          List.mem_append_left _ (List.mem_map_of_mem hmem)⟩
      · exact .inl (.inl hstored)

theorem Awaiting.resolve (h : Awaiting s) {i : Nat} {call : Shutdown}
    (hcall : s.shutdowns[i]? = some call)
    (hended : ∀ id ∈ call.awaited, s.flush? id = none) :
    Awaiting { s with shutdowns := s.shutdowns.set i { call with resolved := true } } := by
  have hmem : call ∈ s.shutdowns := List.mem_of_getElem? hcall
  have hnone : ∀ flush ∈ s.flushesInProgress, flush.id ∉ call.awaited := by
    intro flush hflush hawaited
    have hid := List.find?_eq_none.mp (hended flush.id hawaited) flush hflush
    exact hid (decide_eq_true rfl)
  refine ⟨fun shutdown hset => ?_, fun shutdown hset => ?_, fun shutdown hset hyes => ?_⟩ <;>
    obtain hset | rfl := List.mem_or_eq_of_mem_set hset
  · exact h.awaited shutdown hset
  · exact h.awaited call hmem
  · exact h.accounted shutdown hset
  · exact h.accounted call hmem
  · exact h.resolved shutdown hset hyes
  · exact hnone

theorem Awaiting.step (h : Awaiting s) (hconserving : Conserving s) {e : Event}
    (hallowed : allowed s e) (hstep : Insights.step flushBatchSize s e = some s') :
    Awaiting s' := by
  cases e with
  | startFlushingTimer =>
    cases hstep
    exact ⟨h.awaited, h.accounted, h.resolved⟩
  | handleWorkflowExecuteAfter ctx =>
    cases hstep
    exact h.handle ctx
  | resumeHandler id =>
    simp only [Insights.step, Option.ite_none_right_eq_some, Option.some.injEq] at hstep
    obtain ⟨-, rfl⟩ := hstep
    exact Awaiting.flushIfFull ⟨h.awaited, h.accounted, h.resolved⟩
  | flushTimer =>
    simp only [Insights.step, Option.ite_none_right_eq_some, Option.some.injEq] at hstep
    obtain ⟨-, rfl⟩ := hstep
    exact Awaiting.flushEvents ⟨h.awaited, h.accounted, h.resolved⟩
  | shutdown =>
    cases hstep
    exact h.shutdown hconserving
  | shutdownResolves i =>
    obtain ⟨call, hcall, hstep⟩ := Option.bind_eq_some_iff.mp hstep
    simp only [Option.ite_none_right_eq_some, Option.some.injEq, List.all_eq_true,
      Option.isNone_iff_eq_none] at hstep
    obtain ⟨hended, rfl⟩ := hstep
    exact h.resolve hcall hended
  | foundSharedWorkflows id sharedWorkflows =>
    obtain ⟨flush, hflush, hstep⟩ := Option.bind_eq_some_iff.mp hstep
    split at hstep
    · cases hstep
      exact h.moveTo id _
    · cases hstep
  | upsertedMetadata id =>
    obtain ⟨flush, hflush, hstep⟩ := Option.bind_eq_some_iff.mp hstep
    split at hstep
    · cases hstep
      exact h.moveTo id _
    · cases hstep
  | foundMetadata id upsertMetadata =>
    obtain ⟨flush, hflush, hstep⟩ := Option.bind_eq_some_iff.mp hstep
    split at hstep
    · cases hstep
      have hcached : Awaiting (s.cacheMetadata upsertMetadata) :=
        ⟨h.awaited, h.accounted, h.resolved⟩
      unfold State.insertEvents
      split
      · exact hcached.moveTo flush.id _
      · rename_i hrows
        have hfailing : failing s (.foundMetadata id upsertMetadata) = some id := by
          simp [failing, hflush, hrows]
        exact hcached.saveFailed hflush (hallowed id hfailing)
    · cases hstep
  | inserted id =>
    obtain ⟨flush, hflush, hstep⟩ := Option.bind_eq_some_iff.mp hstep
    split at hstep
    · rename_i rows hpoint
      cases hstep
      exact h.inserted hconserving hflush hpoint
    · cases hstep
  | saveFailed id =>
    obtain ⟨flush, hflush, hstep⟩ := Option.bind_eq_some_iff.mp hstep
    cases hstep
    exact h.saveFailed hflush (hallowed id rfl)

/-- In every run in which no flush begun before a shutdown fails after it, the events are conserved,
and a shutdown that resolves leaves none behind. -/
theorem shutdowns_complete (h : Reachable (step flushBatchSize) allowed started s) :
    s.Conserved ∧ s.ShutdownsComplete := by
  have hinv : Conserving s ∧ Awaiting s := by
    refine h.keeps (fun s => Conserving s ∧ Awaiting s)
      ⟨started_conserving, started_awaiting⟩ ?_
    rintro s e s' ⟨hconserving, hawaiting⟩ hallowed hstep
    exact ⟨hconserving.step hstep, hawaiting.step hconserving hallowed hstep⟩
  exact ⟨hinv.1.conserved, hinv.2.complete⟩

/-- A successful execution that was not timed. -/
def exampleContext : WorkflowExecuteAfterContext :=
  { workflowId := ['w'], workflowName := ['W'], timeSavedPerExecution := none, status := .success,
    mode := .trigger, startedAt := 0, stoppedAt := none, now := 0 }

/-- The event of the execution. -/
def exampleInsight : BufferedInsight :=
  { serial := 0, workflowId := ['w'], workflowName := ['W'], timestamp := 0, type := .success,
    value := 1 }

/-- The metadata of the workflow. -/
def exampleMetadata : InsightsMetadata :=
  { projectId := [], projectName := [], workflowId := ['w'], workflowName := ['W'], metaId := 7 }

/-- A shutdown waits for a flush in progress, which succeeds. -/
theorem awaited_flush_complete :
    ∃ s, Reachable (step 1) allowed started s ∧
      s.stored = [{ metaId := 7, event := exampleInsight }] ∧
      s.shutdowns.all (·.resolved) = true ∧ s.Conserved ∧ s.ShutdownsComplete := by
  have hrun : runAllowed (step 1) allowed started
      [.handleWorkflowExecuteAfter exampleContext, .shutdown, .foundSharedWorkflows 0 [],
        .upsertedMetadata 0, .foundMetadata 0 [exampleMetadata], .inserted 0,
        .shutdownResolves 0] =
      some { started with
        cachedMetadata := [(['w'], exampleMetadata)]
        flushTimer := true
        isAsynchronouslySavingInsights := false
        nextFlush := 1
        shutdowns :=
          [{ collected := [exampleInsight], begun := 1, awaited := [0], resolved := true }]
        stored := [{ metaId := 7, event := exampleInsight }]
        collected := [exampleInsight] } := by decide +kernel
  have hreachable := reachable_of_runAllowed .start hrun
  exact ⟨_, hreachable, rfl, rfl, shutdowns_complete hreachable⟩

/-- A flush begun before the shutdown fails after it: the event goes back to the buffer, and the
shutdown resolves. -/
theorem failed_flush_left_behind :
    ¬ ∀ s, Reachable (step 1) (fun _ _ => True) started s → s.Conserved ∧ s.ShutdownsComplete := by
  intro h
  have hrun : run (step 1) started
      [.handleWorkflowExecuteAfter exampleContext, .shutdown, .saveFailed 0,
        .shutdownResolves 0] =
      some { started with
        bufferedInsights := [exampleInsight]
        flushTimer := true
        isAsynchronouslySavingInsights := false
        nextFlush := 1
        shutdowns :=
          [{ collected := [exampleInsight], begun := 1, awaited := [0], resolved := true }]
        collected := [exampleInsight]
        failed := [{ id := 0, bufferedInsightsToFlush := [exampleInsight],
                     point := .findingSharedWorkflows }] } := by decide +kernel
  have hsaved := (h _ (reachable_of_run hrun)).2 _ (List.mem_singleton_self _) rfl exampleInsight
    (List.mem_singleton_self _)
  obtain hstored | ⟨flush, hfailed, -, hbegun⟩ := hsaved
  · cases hstored
  · cases List.mem_singleton.mp hfailed
    exact absurd hbegun (by decide)

end N8n.Insights
