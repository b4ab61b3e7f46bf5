import N8n.Insights.CompleteShutdown

/-!
# Events share the fate of their flush

A flush needs metadata for each of its events before it inserts any of them. `Blocked` says that an
event cannot be inserted, and `Blocked.step` that it stays so, and that the events which are saved
together with it stay with it, as long as the database finds no metadata for its workflow.
-/

namespace N8n.Insights

open Collections Transition

variable {flushBatchSize : Nat} {s s' : State} {flush : Flush} {bad : BufferedInsight}

/-- The events that are saved together: the buffer, and the events of each flush. -/
def State.batches (s : State) : List (List BufferedInsight) :=
  s.bufferedInsights :: s.flushesInProgress.map Flush.bufferedInsightsToFlush

/-- The database finds no metadata for the workflow. -/
def NotFound (workflowId : List Char) (_ : State) : Event → Prop
  | .foundMetadata _ upsertMetadata => ∀ metadata ∈ upsertMetadata, metadata.workflowId ≠ workflowId
  | _ => True

/-- The event has no metadata, and no flush inserts it. -/
structure Blocked (bad : BufferedInsight) (s : State) : Prop where
  uncached : s.cachedMetadata.lookup bad.workflowId = none
  waits : ∀ flush ∈ s.flushesInProgress, bad ∈ flush.bufferedInsightsToFlush →
    ∀ rows, flush.point ≠ .inserting rows

/-- The events that are saved together with the event stay with it. -/
def Together (bad : BufferedInsight) (s s' : State) : Prop :=
  ∀ batch ∈ s.batches, bad ∈ batch → ∃ batch' ∈ s'.batches, batch ⊆ batch'

theorem Together.of_subset (h : s.batches ⊆ s'.batches) : Together bad s s' :=
  fun batch hbatch _ => ⟨batch, h hbatch, List.Subset.refl _⟩

theorem Together.trans {s'' : State} (h : Together bad s s') (h' : Together bad s' s'') :
    Together bad s s'' := by
  intro batch hbatch hbad
  obtain ⟨batch', hbatch', hsub⟩ := h batch hbatch hbad
  obtain ⟨batch'', hbatch'', hsub'⟩ := h' batch' hbatch' (hsub hbad)
  exact ⟨batch'', hbatch'', List.Subset.trans hsub hsub'⟩

theorem mem_addAll {set events : List BufferedInsight} {event : BufferedInsight} :
    event ∈ addAll set events ↔ event ∈ set ∨ event ∈ events := by
  induction events generalizing set with
  | nil => simp [addAll]
  | cons first rest ih =>
    rw [addAll_cons, ih]
    by_cases hmem : first ∈ set
    · rw [if_pos hmem, List.mem_cons]
      constructor
      · rintro (hset | hrest)
        · exact .inl hset
        · exact .inr (.inr hrest)
      · rintro (hset | rfl | hrest)
        · exact .inl hset
        · exact .inl hmem
        · exact .inr hrest
    · rw [if_neg hmem, List.mem_append, List.mem_singleton, List.mem_cons, or_assoc]

theorem batches_moveTo (s : State) (id : Nat) (point : SavePoint) :
    (s.moveTo id point).batches = s.batches := by
  have hbatches : (s.moveTo id point).flushesInProgress.map Flush.bufferedInsightsToFlush =
      s.flushesInProgress.map Flush.bufferedInsightsToFlush := map_map_ite fun _ => rfl
  rw [State.batches, State.batches, hbatches]
  rfl

theorem Blocked.flushEvents (h : Blocked bad s) :
    Blocked bad s.flushEvents.1 ∧ Together bad s s.flushEvents.1 := by
  unfold State.flushEvents
  split
  · exact ⟨⟨h.uncached, h.waits⟩, .of_subset (List.Subset.refl _)⟩
  · refine ⟨⟨h.uncached, fun flush hflush => ?_⟩, .of_subset fun batch hbatch => ?_⟩
    · obtain hold | hnew := List.mem_append.mp hflush
      · exact h.waits flush hold
      · cases List.mem_singleton.mp hnew
        exact fun _ _ => nofun
    · rw [State.batches, List.map_append]
      obtain rfl | hold := List.mem_cons.mp hbatch
      · exact .tail _ (List.mem_append_right _ (.head _))
      · exact .tail _ (List.mem_append_left _ hold)

variable (flushBatchSize) in
theorem Blocked.flushIfFull (h : Blocked bad s) :
    Blocked bad (s.flushIfFull flushBatchSize) ∧ Together bad s (s.flushIfFull flushBatchSize) := by
  unfold State.flushIfFull
  split
  · exact h.flushEvents
  · exact ⟨h, .of_subset (List.Subset.refl _)⟩

theorem Blocked.moveTo (h : Blocked bad s) (id : Nat) {point : SavePoint}
    (hpoint : ∀ flush ∈ s.flushesInProgress, flush.id = id → bad ∈ flush.bufferedInsightsToFlush →
      ∀ rows, point ≠ .inserting rows) :
    Blocked bad (s.moveTo id point) ∧ Together bad s (s.moveTo id point) := by
  refine ⟨⟨h.uncached, fun moved hmoved hbad rows => ?_⟩,
    .of_subset (batches_moveTo s id point ▸ List.Subset.refl _)⟩
  obtain ⟨flush, hflush, -, hevents, rfl | ⟨hid, hat⟩⟩ := mem_moveTo hmoved
  · exact h.waits _ hflush hbad rows
  · rw [hat]
    exact hpoint flush hflush hid (hevents ▸ hbad) rows

theorem Blocked.saveFailed (h : Blocked bad s) {id : Nat} (hflush : s.flush? id = some flush) :
    Blocked bad (s.saveFailed flush) ∧ Together bad s (s.saveFailed flush) := by
  obtain ⟨-, rfl⟩ := flush?_eq_some hflush
  refine ⟨⟨h.uncached, fun other hother => h.waits other (mem_finish hother)⟩,
    fun batch hbatch _ => ?_⟩
  obtain rfl | hbatch := List.mem_cons.mp hbatch
  · exact ⟨_, .head _, fun event hevent => mem_addAll.mpr (.inl hevent)⟩
  · obtain ⟨other, hother, rfl⟩ := List.mem_map.mp hbatch
    obtain rfl | hother := List.mem_cons.mp ((flushes_finish hflush).subset hother)
    · exact ⟨_, .head _, fun event hevent => mem_addAll.mpr (.inr hevent)⟩
    · exact ⟨_, .tail _ (List.mem_map_of_mem hother), List.Subset.refl _⟩

theorem Blocked.inserted (h : Blocked bad s) {id : Nat} (hflush : s.flush? id = some flush)
    {rows : List InsightsRaw} (hpoint : flush.point = .inserting rows) :
    Blocked bad { s.finish id with stored := s.stored ++ rows } ∧
      Together bad s { s.finish id with stored := s.stored ++ rows } := by
  refine ⟨⟨h.uncached, fun other hother => h.waits other (mem_finish hother)⟩,
    fun batch hbatch hbad => ⟨batch, ?_, List.Subset.refl _⟩⟩
  obtain rfl | hbatch := List.mem_cons.mp hbatch
  · exact .head _
  · obtain ⟨other, hother, rfl⟩ := List.mem_map.mp hbatch
    obtain rfl | hother := List.mem_cons.mp ((flushes_finish hflush).subset hother)
    · exact absurd hpoint (h.waits _ (flush?_eq_some hflush).1 hbad rows)
    · exact .tail _ (List.mem_map_of_mem hother)

theorem insightsRawOf_isSome_iff {cache : List (List Char × InsightsMetadata)}
    {events : List BufferedInsight} : (insightsRawOf cache events).isSome ↔
      ∀ event ∈ events, (cache.lookup event.workflowId).isSome := by
  induction events with
  | nil => simp [insightsRawOf]
  | cons event rest ih =>
    rw [List.forall_mem_cons, ← ih]
    simp only [insightsRawOf, List.mapM_cons]
    cases cache.lookup event.workflowId with
    | none => simp
    | some metadata =>
      cases List.mapM (m := Option) _ rest <;> simp

theorem Blocked.cacheMetadata (h : Blocked bad s) {upsertMetadata : List InsightsMetadata}
    (hnone : ∀ metadata ∈ upsertMetadata, metadata.workflowId ≠ bad.workflowId) :
    Blocked bad (s.cacheMetadata upsertMetadata) := by
  refine ⟨?_, h.waits⟩
  have hcache := h.uncached
  rw [State.cacheMetadata]
  dsimp only
  generalize s.cachedMetadata = cache at hcache ⊢
  induction upsertMetadata generalizing cache with
  | nil => exact hcache
  | cons metadata rest ih =>
    obtain ⟨hne, hrest⟩ := List.forall_mem_cons.mp hnone
    refine ih hrest _ ?_
    rw [List.lookup_cons, beq_eq_false_iff_ne.mpr (Ne.symm hne)]
    exact hcache

theorem Blocked.step (h : Blocked bad s) (hids : (s.flushesInProgress.map Flush.id).Nodup)
    {e : Event} (hfound : NotFound bad.workflowId s e)
    (hstep : Insights.step flushBatchSize s e = some s') :
    Blocked bad s' ∧ Together bad s s' := by
  cases e with
  | startFlushingTimer =>
    cases hstep
    exact ⟨⟨h.uncached, h.waits⟩, .of_subset (List.Subset.refl _)⟩
  | handleWorkflowExecuteAfter ctx =>
    cases hstep
    unfold State.handleWorkflowExecuteAfter
    split
    · exact ⟨h, .of_subset (List.Subset.refl _)⟩
    · generalize newInsights s.collected.length ctx = insights
      have hbuffered : Blocked bad { s with
          bufferedInsights := addAll s.bufferedInsights insights
          collected := s.collected ++ insights } := ⟨h.uncached, h.waits⟩
      have htogether : Together bad s { s with
          bufferedInsights := addAll s.bufferedInsights insights
          collected := s.collected ++ insights } := fun batch hbatch _ => by
        obtain rfl | hold := List.mem_cons.mp hbatch
        · exact ⟨_, .head _, fun event hevent => mem_addAll.mpr (.inl hevent)⟩
        · exact ⟨batch, .tail _ hold, List.Subset.refl _⟩
      dsimp only
      split
      · have hflush := Blocked.flushIfFull flushBatchSize hbuffered
        exact ⟨hflush.1, htogether.trans hflush.2⟩
      · have hflush := hbuffered.flushEvents
        exact ⟨⟨hflush.1.uncached, hflush.1.waits⟩, htogether.trans hflush.2⟩
  | resumeHandler id =>
    simp only [Insights.step, Option.ite_none_right_eq_some, Option.some.injEq] at hstep
    obtain ⟨-, rfl⟩ := hstep
    exact Blocked.flushIfFull flushBatchSize (s := { s with handlers := _ }) ⟨h.uncached, h.waits⟩
  | flushTimer =>
    simp only [Insights.step, Option.ite_none_right_eq_some, Option.some.injEq] at hstep
    obtain ⟨-, rfl⟩ := hstep
    exact Blocked.flushEvents (s := { s with flushTimer := false }) ⟨h.uncached, h.waits⟩
  | shutdown =>
    cases hstep
    have hstopped : Blocked bad
        { s with flushTimer := false, isAsynchronouslySavingInsights := false } :=
      ⟨h.uncached, h.waits⟩
    have hflush := hstopped.flushEvents
    exact ⟨⟨hflush.1.uncached, hflush.1.waits⟩, hflush.2⟩
  | shutdownResolves i =>
    obtain ⟨call, -, hstep⟩ := Option.bind_eq_some_iff.mp hstep
    split at hstep
    · cases hstep
      exact ⟨⟨h.uncached, h.waits⟩, .of_subset (List.Subset.refl _)⟩
    · cases hstep
  | foundSharedWorkflows id sharedWorkflows =>
    obtain ⟨flush, hflush, hstep⟩ := Option.bind_eq_some_iff.mp hstep
    split at hstep
    · cases hstep
      exact h.moveTo id fun _ _ _ _ _ => SavePoint.noConfusion
    · cases hstep
  | upsertedMetadata id =>
    obtain ⟨flush, hflush, hstep⟩ := Option.bind_eq_some_iff.mp hstep
    split at hstep
    · cases hstep
      exact h.moveTo id fun _ _ _ _ _ => SavePoint.noConfusion
    · cases hstep
  | foundMetadata id upsertMetadata =>
    obtain ⟨flush, hflush, hstep⟩ := Option.bind_eq_some_iff.mp hstep
    split at hstep
    · cases hstep
      obtain ⟨hmem, rfl⟩ := flush?_eq_some hflush
      have hcached := h.cacheMetadata hfound
      unfold State.insertEvents
      split
      · rename_i rows hrows
        refine hcached.moveTo flush.id fun other hother hid hbad => ?_
        -- The flush has rows for all of its events, but none for this one
        cases List.inj_on_of_nodup_map hids hother hmem hid
        have hall := insightsRawOf_isSome_iff.mp
          (Option.isSome_iff_exists.mpr ⟨rows, hrows⟩) bad hbad
        rw [hcached.uncached] at hall
        cases hall
      · exact hcached.saveFailed hflush
    · cases hstep
  | inserted id =>
    obtain ⟨flush, hflush, hstep⟩ := Option.bind_eq_some_iff.mp hstep
    split at hstep
    · rename_i rows hpoint
      cases hstep
      exact h.inserted hflush hpoint
    · cases hstep
  | saveFailed id =>
    obtain ⟨flush, hflush, hstep⟩ := Option.bind_eq_some_iff.mp hstep
    cases hstep
    exact h.saveFailed hflush

/-- An execution of a workflow that has no owner. -/
def orphanContext : WorkflowExecuteAfterContext := { exampleContext with workflowId := ['x'] }

end N8n.Insights
