import N8n.Collections.KeyedList
import N8n.Insights.InsightsCollection

/-!
# Insights events are conserved

In every run, each collected event is in the buffer, in one flush in progress or in the store, and
in one of them only.
-/

namespace N8n.Insights

open Collections Transition

variable {flushBatchSize : Nat} {s s' : State} {flush : Flush} {events : List BufferedInsight}

/-- The events of the flushes in progress. -/
def State.flushed (s : State) : List BufferedInsight :=
  s.flushesInProgress.flatMap Flush.bufferedInsightsToFlush

/-- Each collected event is in one of the buffer, a flush in progress and the store. -/
def State.Conserved (s : State) : Prop :=
  ∀ event ∈ s.collected,
    s.bufferedInsights.count event + s.flushed.count event +
      (s.stored.map InsightsRaw.event).count event = 1

section Sets

theorem addAll_cons (set : List BufferedInsight) (event : BufferedInsight)
    (events : List BufferedInsight) :
    addAll set (event :: events) =
      addAll (if event ∈ set then set else set ++ [event]) events := rfl

theorem addAll_of_disjoint {set : List BufferedInsight} (hnodup : (set ++ events).Nodup) :
    addAll set events = set ++ events := by
  induction events generalizing set with
  | nil => exact (List.append_nil set).symm
  | cons event events ih =>
    have hnew : event ∉ set := fun hmem =>
      (List.nodup_append.mp hnodup).2.2 event hmem event (List.mem_cons_self ..) rfl
    rw [addAll_cons, if_neg hnew, ih (by rwa [List.append_assoc]), List.append_assoc]
    rfl

end Sets

/-- The events are numbered in the order in which they were collected, and each of them is in one
place. -/
structure Conserving (s : State) : Prop where
  perm : (s.bufferedInsights ++ s.flushed ++ s.stored.map InsightsRaw.event).Perm s.collected
  serials : s.collected.map BufferedInsight.serial = List.range s.collected.length
  rows : ∀ flush ∈ s.flushesInProgress, ∀ rows, flush.point = .inserting rows →
    rows.map InsightsRaw.event = flush.bufferedInsightsToFlush
  fresh : ∀ flush ∈ s.flushesInProgress, flush.id < s.nextFlush
  ids : (s.flushesInProgress.map Flush.id).Nodup

section Conserving

theorem Conserving.nodup (h : Conserving s) : s.collected.Nodup := by
  refine List.Nodup.of_map BufferedInsight.serial ?_
  rw [h.serials]
  exact List.nodup_range

theorem Conserving.conserved (h : Conserving s) : s.Conserved := by
  intro event hmem
  have hcount := h.perm.count_eq event
  rw [List.count_append, List.count_append, List.count_eq_one_of_mem h.nodup hmem] at hcount
  exact hcount

theorem started_conserving : Conserving started where
  perm := .refl _
  serials := rfl
  rows _ hmem := absurd hmem List.not_mem_nil
  fresh _ hmem := absurd hmem List.not_mem_nil
  ids := List.nodup_nil

theorem Conserving.flushEvents (h : Conserving s) : Conserving s.flushEvents.1 := by
  unfold State.flushEvents
  split
  · exact ⟨h.perm, h.serials, h.rows, h.fresh, h.ids⟩
  · refine ⟨?_, h.serials, fun flush hmem rows hpoint => ?_, fun flush hmem => ?_, ?_⟩
    · have hperm := h.perm
      simp only [State.flushed, List.flatMap_append, List.flatMap_singleton, List.nil_append]
      exact (List.perm_append_comm.append_right _).trans hperm
    · obtain hmem | hmem := List.mem_append.mp hmem
      · exact h.rows flush hmem rows hpoint
      · cases List.mem_singleton.mp hmem
        cases hpoint
    · obtain hmem | hmem := List.mem_append.mp hmem
      · exact Nat.lt_succ_of_lt (h.fresh flush hmem)
      · cases List.mem_singleton.mp hmem
        exact Nat.lt_succ_self _
    · rw [List.map_append]
      refine h.ids.append (List.nodup_singleton _) fun id hold hnew => ?_
      obtain ⟨old, hmem, rfl⟩ := List.mem_map.mp hold
      exact Nat.ne_of_lt (h.fresh old hmem) (List.mem_singleton.mp hnew)

theorem Conserving.flushIfFull (h : Conserving s) : Conserving (s.flushIfFull flushBatchSize) := by
  unfold State.flushIfFull
  split
  · exact h.flushEvents
  · exact h

theorem newInsights_serials (serial : Nat) (ctx : WorkflowExecuteAfterContext) :
    (newInsights serial ctx).map BufferedInsight.serial =
      List.range' serial (newInsights serial ctx).length := by
  unfold newInsights
  cases ctx.stoppedAt <;> cases ctx.timeSavedPerExecution <;> dsimp only <;> split <;>
    first | split <;> simp [List.range'] | simp [List.range']

theorem Conserving.collect (h : Conserving s)
    (hserials : events.map BufferedInsight.serial =
      List.range' s.collected.length events.length) :
    Conserving { s with
      bufferedInsights := addAll s.bufferedInsights events
      collected := s.collected ++ events } := by
  have hnumbers : (s.collected ++ events).map BufferedInsight.serial =
      List.range (s.collected ++ events).length := by
    rw [List.map_append, h.serials, hserials, List.length_append, List.range_eq_range',
      List.range_eq_range', ← List.range'_append_1, Nat.zero_add]
  have hnodup : (s.collected ++ events).Nodup := by
    refine List.Nodup.of_map BufferedInsight.serial ?_
    rw [hnumbers]
    exact List.nodup_range
  have hperm : (s.bufferedInsights ++ events ++ s.flushed ++
      s.stored.map InsightsRaw.event).Perm (s.collected ++ events) := by
    refine .trans ?_ (h.perm.append_right events)
    simp only [List.append_assoc]
    exact .append_left _ (List.perm_append_comm.trans (.of_eq (List.append_assoc ..)))
  have hbuffer : (s.bufferedInsights ++ events).Nodup := by
    refine (hperm.nodup_iff.mpr hnodup).sublist ?_
    rw [List.append_assoc _ s.flushed]
    exact List.sublist_append_left _ _
  refine ⟨?_, hnumbers, h.rows, h.fresh, h.ids⟩
  show (addAll s.bufferedInsights events ++ s.flushed ++ _).Perm _
  rw [addAll_of_disjoint hbuffer]
  exact hperm

theorem Conserving.handle (h : Conserving s) (ctx : WorkflowExecuteAfterContext) :
    Conserving (s.handleWorkflowExecuteAfter flushBatchSize ctx) := by
  have hcollect := h.collect (newInsights_serials s.collected.length ctx)
  unfold State.handleWorkflowExecuteAfter
  split
  · exact h
  · dsimp only
    split
    · exact hcollect.flushIfFull
    · have hflush := hcollect.flushEvents
      exact ⟨hflush.perm, hflush.serials, hflush.rows, hflush.fresh, hflush.ids⟩

theorem Conserving.shutdown (h : Conserving s) : Conserving s.shutdown := by
  let stopped : State := { s with flushTimer := false, isAsynchronouslySavingInsights := false }
  have hflush : Conserving stopped.flushEvents.1 :=
    Conserving.flushEvents ⟨h.perm, h.serials, h.rows, h.fresh, h.ids⟩
  exact ⟨hflush.perm, hflush.serials, hflush.rows, hflush.fresh, hflush.ids⟩

variable {id : Nat}

theorem flush?_eq_some (hflush : s.flush? id = some flush) :
    flush ∈ s.flushesInProgress ∧ flush.id = id := by
  have hid := List.find?_some hflush
  exact ⟨List.mem_of_find?_eq_some hflush, of_decide_eq_true hid⟩

theorem mem_moveTo {point : SavePoint} {moved : Flush}
    (hmem : moved ∈ (s.moveTo id point).flushesInProgress) :
    ∃ flush ∈ s.flushesInProgress, moved.id = flush.id ∧
      moved.bufferedInsightsToFlush = flush.bufferedInsightsToFlush ∧
      (moved = flush ∨ flush.id = id ∧ moved.point = point) := by
  obtain ⟨flush, hflush, hid, rfl⟩ | ⟨hflush, -⟩ := mem_map_ite.mp hmem
  · exact ⟨flush, hflush, rfl, rfl, .inr ⟨hid, rfl⟩⟩
  · exact ⟨moved, hflush, rfl, rfl, .inl rfl⟩

theorem Conserving.moveTo (h : Conserving s) {id : Nat} (hflush : s.flush? id = some flush)
    {point : SavePoint} (hrows : ∀ rows, point = .inserting rows →
      rows.map InsightsRaw.event = flush.bufferedInsightsToFlush) :
    Conserving (s.moveTo id point) := by
  obtain ⟨hmem, rfl⟩ := flush?_eq_some hflush
  refine ⟨?_, h.serials, fun moved hmoved rows hpoint => ?_, fun moved hmoved => ?_, ?_⟩
  · have hflushed : (s.moveTo flush.id point).flushed = s.flushed := by
      rw [State.flushed, State.moveTo, List.flatMap_map]
      refine List.flatMap_congr fun other _ => ?_
      split <;> rfl
    rw [hflushed]
    exact h.perm
  · obtain ⟨other, hother, -, hevents, rfl | ⟨hid, hmovedPoint⟩⟩ := mem_moveTo hmoved
    · exact h.rows _ hother rows hpoint
    · -- the flush that goes on is the one with the id
      have hsame : other = flush := List.inj_on_of_nodup_map h.ids hother hmem hid
      rw [hevents, hsame]
      exact hrows rows (hmovedPoint.symm.trans hpoint)
  · obtain ⟨other, hother, hid, -⟩ := mem_moveTo hmoved
    exact hid ▸ h.fresh other hother
  · have hids : (s.moveTo flush.id point).flushesInProgress.map Flush.id =
        s.flushesInProgress.map Flush.id := map_map_ite fun _ => rfl
    rw [hids]
    exact h.ids

theorem flushes_finish (hflush : s.flush? id = some flush) :
    s.flushesInProgress.Perm (flush :: (s.finish id).flushesInProgress) :=
  perm_eraseP hflush

theorem flushed_finish (hflush : s.flush? id = some flush) :
    s.flushed.Perm (flush.bufferedInsightsToFlush ++ (s.finish id).flushed) :=
  (flushes_finish hflush).flatMap_right _

theorem mem_finish {other : Flush} (hmem : other ∈ (s.finish id).flushesInProgress) :
    other ∈ s.flushesInProgress :=
  List.mem_of_mem_eraseP hmem

theorem Conserving.inserted (h : Conserving s) (hflush : s.flush? id = some flush)
    {rows : List InsightsRaw} (hpoint : flush.point = .inserting rows) :
    Conserving { s.finish id with stored := s.stored ++ rows } := by
  have hrows := h.rows flush (flush?_eq_some hflush).1 rows hpoint
  refine ⟨?_, h.serials, fun other hmem => h.rows other (mem_finish hmem),
    fun other hmem => h.fresh other (mem_finish hmem),
    h.ids.sublist (List.eraseP_sublist.map Flush.id)⟩
  show (s.bufferedInsights ++ (s.finish id).flushed ++
    (s.stored ++ rows).map InsightsRaw.event).Perm s.collected
  rw [List.map_append, hrows]
  refine .trans ?_ h.perm
  simp only [List.append_assoc]
  refine .append_left _ (.trans ?_ ((flushed_finish hflush).symm.append_right _))
  rw [← List.append_assoc, List.append_assoc flush.bufferedInsightsToFlush]
  exact List.perm_append_comm

theorem Conserving.saveFailed (h : Conserving s) (hflush : s.flush? id = some flush) :
    Conserving (s.saveFailed flush) := by
  obtain ⟨-, rfl⟩ := flush?_eq_some hflush
  have hperm : (s.bufferedInsights ++ flush.bufferedInsightsToFlush ++
      ((s.finish flush.id).flushed ++ s.stored.map InsightsRaw.event)).Perm s.collected := by
    refine .trans ?_ h.perm
    simp only [List.append_assoc]
    refine .append_left _ ?_
    rw [← List.append_assoc]
    exact (flushed_finish hflush).symm.append_right _
  have hbuffer : (s.bufferedInsights ++ flush.bufferedInsightsToFlush).Nodup :=
    (hperm.nodup_iff.mpr h.nodup).sublist (List.sublist_append_left _ _)
  refine ⟨?_, h.serials, fun other hmem => h.rows other (mem_finish hmem),
    fun other hmem => h.fresh other (mem_finish hmem),
    h.ids.sublist (List.eraseP_sublist.map Flush.id)⟩
  show (addAll s.bufferedInsights flush.bufferedInsightsToFlush ++ (s.finish flush.id).flushed ++
    s.stored.map InsightsRaw.event).Perm s.collected
  rw [addAll_of_disjoint hbuffer, List.append_assoc]
  exact hperm

theorem insightsRawOf_events {cache : List (List Char × InsightsMetadata)}
    {rows : List InsightsRaw} (h : insightsRawOf cache events = some rows) :
    rows.map InsightsRaw.event = events := by
  induction events generalizing rows with
  | nil =>
    cases h
    rfl
  | cons event events ih =>
    simp only [insightsRawOf, List.mapM_cons, Option.bind_eq_bind, Option.bind_eq_some_iff,
      Option.map_eq_some_iff] at h
    obtain ⟨row, ⟨metadata, -, rfl⟩, rest, hrest, hrows⟩ := h
    cases hrows
    rw [List.map_cons, ih hrest]

theorem Conserving.insertEvents (h : Conserving s) (hflush : s.flush? id = some flush) :
    Conserving (s.insertEvents flush) := by
  obtain ⟨-, rfl⟩ := flush?_eq_some hflush
  unfold State.insertEvents
  split
  · rename_i events hevents
    refine h.moveTo hflush fun rows hrows => ?_
    cases hrows
    exact insightsRawOf_events hevents
  · exact h.saveFailed hflush

end Conserving

theorem Conserving.step (h : Conserving s) {e : Event}
    (hstep : Insights.step flushBatchSize s e = some s') : Conserving s' := by
  cases e with
  | startFlushingTimer =>
    cases hstep
    exact ⟨h.perm, h.serials, h.rows, h.fresh, h.ids⟩
  | handleWorkflowExecuteAfter ctx =>
    cases hstep
    exact h.handle ctx
  | resumeHandler id =>
    simp only [Insights.step, Option.ite_none_right_eq_some, Option.some.injEq] at hstep
    obtain ⟨-, rfl⟩ := hstep
    exact Conserving.flushIfFull ⟨h.perm, h.serials, h.rows, h.fresh, h.ids⟩
  | flushTimer =>
    simp only [Insights.step, Option.ite_none_right_eq_some, Option.some.injEq] at hstep
    obtain ⟨-, rfl⟩ := hstep
    exact Conserving.flushEvents ⟨h.perm, h.serials, h.rows, h.fresh, h.ids⟩
  | shutdown =>
    cases hstep
    exact h.shutdown
  | shutdownResolves i =>
    obtain ⟨shutdown, -, hstep⟩ := Option.bind_eq_some_iff.mp hstep
    simp only [Option.ite_none_right_eq_some, Option.some.injEq] at hstep
    obtain ⟨-, rfl⟩ := hstep
    exact ⟨h.perm, h.serials, h.rows, h.fresh, h.ids⟩
  | foundSharedWorkflows id sharedWorkflows =>
    obtain ⟨flush, hflush, hstep⟩ := Option.bind_eq_some_iff.mp hstep
    split at hstep
    · cases hstep
      exact h.moveTo hflush fun _ hrows => by cases hrows
    · cases hstep
  | upsertedMetadata id =>
    obtain ⟨flush, hflush, hstep⟩ := Option.bind_eq_some_iff.mp hstep
    split at hstep
    · cases hstep
      exact h.moveTo hflush fun _ hrows => by cases hrows
    · cases hstep
  | foundMetadata id upsertMetadata =>
    obtain ⟨flush, hflush, hstep⟩ := Option.bind_eq_some_iff.mp hstep
    split at hstep
    · cases hstep
      have hcached : Conserving (s.cacheMetadata upsertMetadata) :=
        ⟨h.perm, h.serials, h.rows, h.fresh, h.ids⟩
      exact hcached.insertEvents hflush
    · cases hstep
  | inserted id =>
    obtain ⟨flush, hflush, hstep⟩ := Option.bind_eq_some_iff.mp hstep
    split at hstep
    · rename_i rows hpoint
      cases hstep
      exact h.inserted hflush hpoint
    · cases hstep
  | saveFailed id =>
    obtain ⟨flush, hflush, hstep⟩ := Option.bind_eq_some_iff.mp hstep
    cases hstep
    exact h.saveFailed hflush

end N8n.Insights
