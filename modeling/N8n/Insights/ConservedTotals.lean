import N8n.Collections.KeyedList
import N8n.Insights.InsightsCompaction

/-!
# Compaction conserves totals

A compaction adds the values of its batch to the rows of their periods and deletes exactly the
batch, so that the sum over both tables stays the same for every metadata id and type. The batch is
not touched by the additions, since the rows of the periods have another period unit.
-/

namespace N8n.Insights

open Collections Transition

/-- The sum of the values of a metadata id and a type over both tables. -/
def Tables.total (s : Tables) (metaId : Nat) (type : TypeUnit) : Int :=
  sumWhere (fun row => decide (row.metaId = metaId ∧ row.type = type)) RawRow.value s.raw.rows +
    sumWhere (fun row => decide (row.metaId = metaId ∧ row.type = type)) PeriodRow.value
      s.byPeriod.rows

/-- The value of the row with a key, and zero if there is none. -/
def PeriodTable.valueAt (t : PeriodTable) (key : PeriodKey) : Int :=
  sumWhere (fun row => decide (row.key = key)) PeriodRow.value t.rows

/-- The rows of both tables whose ids are gone. -/
def removed (s s' : Tables) : List SourceRow :=
  (s.raw.rows.filter fun row => decide (row.id ∉ s'.raw.rows.map RawRow.id)).map RawRow.source ++
    (s.byPeriod.rows.filter fun row =>
      decide (row.id ∉ s'.byPeriod.rows.map PeriodRow.id)).map PeriodRow.source

section Upsert

variable {t : PeriodTable} {entry : PeriodKey × Int} {entries : List (PeriodKey × Int)}

theorem sumWhere_upsert (t : PeriodTable) (entry : PeriodKey × Int) (q : PeriodKey → Bool) :
    sumWhere (fun row => q row.key) PeriodRow.value (t.upsert entry).rows =
      sumWhere (fun row => q row.key) PeriodRow.value t.rows +
        if q entry.1 then entry.2 else 0 := by
  unfold PeriodTable.upsert
  split
  · show sumWhere _ _ (t.table.rows ++ [_]) = _
    rw [sumWhere_append, sumWhere_cons, sumWhere_nil, Int.add_zero]
    rfl
  · rename_i htaken
    refine sumWhere_add (fun row => { row with value := row.value + entry.2 }) t.table.unique
      (not_not.mp htaken) (fun row => ?_) fun row hkey => ?_
    · exact ⟨rfl, rfl⟩
    · rw [hkey]

theorem sumWhere_upserts (q : PeriodKey → Bool) (entries : List (PeriodKey × Int)) :
    ∀ t : PeriodTable,
      sumWhere (fun row => q row.key) PeriodRow.value
          (entries.foldl PeriodTable.upsert t).rows =
        sumWhere (fun row => q row.key) PeriodRow.value t.rows +
          sumWhere (fun entry => q entry.1) Prod.snd entries := by
  induction entries with
  | nil => exact fun t => by simp
  | cons entry entries ih =>
    intro t
    rw [List.foldl_cons, ih, sumWhere_upsert, sumWhere_cons, Int.add_assoc]

theorem filter_upsert {periodUnit : PeriodUnit} (hentry : entry.1.periodUnit = periodUnit) :
    ((t.upsert entry).rows.filter fun row => decide (row.periodUnit ≠ periodUnit)) =
      t.rows.filter fun row => decide (row.periodUnit ≠ periodUnit) := by
  unfold PeriodTable.upsert
  split
  · show (t.table.rows ++ [_]).filter _ = _
    rw [List.filter_append, List.filter_cons_of_neg (by simpa using hentry), List.filter_nil,
      List.append_nil]
    rfl
  · show (t.table.rows.map _).filter _ = t.table.rows.filter _
    generalize t.table.rows = rows
    induction rows with
    | nil => rfl
    | cons row rows ih =>
      rw [List.map_cons]
      by_cases hkey : row.key = entry.1
      · have hunit : row.periodUnit = periodUnit := by
          rw [← hentry, ← hkey]
          rfl
        rw [if_pos (decide_eq_true hkey), List.filter_cons_of_neg (by simpa using hunit),
          List.filter_cons_of_neg (by simpa using hunit), ih]
      · rw [if_neg (by simpa using hkey), List.filter_cons, List.filter_cons, ih]

theorem filter_upserts {periodUnit : PeriodUnit}
    (hentries : ∀ entry ∈ entries, entry.1.periodUnit = periodUnit) : ∀ t : PeriodTable,
    ((entries.foldl PeriodTable.upsert t).rows.filter fun row =>
        decide (row.periodUnit ≠ periodUnit)) =
      t.rows.filter fun row => decide (row.periodUnit ≠ periodUnit) := by
  induction entries with
  | nil => exact fun _ => rfl
  | cons entry entries ih =>
    intro t
    rw [List.foldl_cons, ih fun other hother => hentries other (List.mem_cons_of_mem _ hother),
      filter_upsert (hentries entry (List.mem_cons_self ..))]

theorem map_addValue {α : Type} {column : PeriodRow → α}
    (hcolumn : ∀ row value, column { row with value := value } = column row) (t : PeriodTable)
    (key : PeriodKey) (value : Int) :
    (t.addValue key value).rows.map column = t.rows.map column :=
  map_map_ite fun row => hcolumn row (row.value + value)

theorem subset_upsert (t : PeriodTable) (entry : PeriodKey × Int) :
    t.rows.map PeriodRow.id ⊆ (t.upsert entry).rows.map PeriodRow.id ∧
      t.rows.map PeriodRow.key ⊆ (t.upsert entry).rows.map PeriodRow.key ∧
      entry.1 ∈ (t.upsert entry).rows.map PeriodRow.key := by
  unfold PeriodTable.upsert
  split
  · show _ ⊆ (t.table.rows ++ [_]).map _ ∧ _ ⊆ (t.table.rows ++ [_]).map _ ∧
      _ ∈ (t.table.rows ++ [_]).map _
    rw [List.map_append, List.map_append]
    exact ⟨List.subset_append_left _ _, List.subset_append_left _ _,
      List.mem_append_right _ (List.mem_singleton_self _)⟩
  · rename_i htaken
    rw [map_addValue fun _ _ => rfl, map_addValue fun _ _ => rfl]
    exact ⟨List.Subset.refl _, List.Subset.refl _, not_not.mp htaken⟩

theorem subset_upserts (entries : List (PeriodKey × Int)) : ∀ t : PeriodTable,
    t.rows.map PeriodRow.id ⊆ (entries.foldl PeriodTable.upsert t).rows.map PeriodRow.id ∧
      t.rows.map PeriodRow.key ⊆ (entries.foldl PeriodTable.upsert t).rows.map PeriodRow.key ∧
      ∀ entry ∈ entries,
        entry.1 ∈ (entries.foldl PeriodTable.upsert t).rows.map PeriodRow.key := by
  induction entries with
  | nil =>
    exact fun _ => ⟨List.Subset.refl _, List.Subset.refl _, fun _ h => absurd h List.not_mem_nil⟩
  | cons entry entries ih =>
    intro t
    obtain ⟨hids, hkeys, hentry⟩ := subset_upsert t entry
    obtain ⟨hids', hkeys', hentries⟩ := ih (t.upsert entry)
    refine ⟨List.Subset.trans hids hids', List.Subset.trans hkeys hkeys', fun other hother => ?_⟩
    obtain rfl | hother := List.mem_cons.mp hother
    · exact hkeys' hentry
    · exact hentries other hother

end Upsert

section Deletion

variable {ρ : Type} {id : ρ → Nat} {source : ρ → SourceRow} {rows : List ρ}
  {batch : List SourceRow}

theorem filter_ids_perm (hid : ∀ row, (source row).id = id row) (hids : (rows.map id).Nodup)
    (hbatch : batch.Nodup) (hsubset : ∀ row ∈ batch, row ∈ rows.map source) :
    ((rows.filter fun row => decide (id row ∈ batch.map SourceRow.id)).map source).Perm batch := by
  have hsources : (rows.map source).Nodup := by
    refine List.Nodup.of_map SourceRow.id ?_
    rw [List.map_map, show rows.map (SourceRow.id ∘ source) = rows.map id from
      List.map_congr_left fun row _ => hid row]
    exact hids
  refine (List.perm_ext_iff_of_nodup
    (hsources.sublist (List.filter_sublist.map source)) hbatch).mpr fun r => ?_
  constructor
  · intro hr
    obtain ⟨row, hrow, rfl⟩ := List.mem_map.mp hr
    obtain ⟨hrow, hin⟩ := List.mem_filter.mp hrow
    obtain ⟨r, hr, hsame⟩ := List.mem_map.mp (of_decide_eq_true hin)
    obtain ⟨row', hrow', rfl⟩ := List.mem_map.mp (hsubset r hr)
    -- one id is one row
    have heq : row' = row := List.inj_on_of_nodup_map hids hrow' hrow ((hid row').symm.trans hsame)
    exact heq ▸ hr
  · intro hr
    obtain ⟨row, hrow, rfl⟩ := List.mem_map.mp (hsubset r hr)
    refine List.mem_map_of_mem (List.mem_filter.mpr ⟨hrow, decide_eq_true ?_⟩)
    exact List.mem_map.mpr ⟨source row, hr, hid row⟩

theorem sumWhere_delete (hid : ∀ row, (source row).id = id row) (hids : (rows.map id).Nodup)
    (hbatch : batch.Nodup) (hsubset : ∀ row ∈ batch, row ∈ rows.map source)
    (q : SourceRow → Bool) :
    sumWhere (fun row => q (source row)) (fun row => (source row).value) rows =
      sumWhere q SourceRow.value batch +
        sumWhere (fun row => q (source row)) (fun row => (source row).value)
          (rows.filter fun row => !decide (id row ∈ batch.map SourceRow.id)) := by
  rw [sumWhere_partition _ fun row => decide (id row ∈ batch.map SourceRow.id),
    ← sumWhere_map source q SourceRow.value,
    sumWhere_perm (filter_ids_perm hid hids hbatch hsubset)]

theorem id_mem_filter (id : ρ → Nat) (rows : List ρ) (ids : List Nat) (row : ρ) :
    id row ∈ (rows.filter fun row => !decide (id row ∈ ids)).map id ↔
      id row ∈ rows.map id ∧ id row ∉ ids := by
  constructor
  · intro h
    obtain ⟨other, hother, hsame⟩ := List.mem_map.mp h
    obtain ⟨hother, hout⟩ := List.mem_filter.mp hother
    rw [← hsame]
    exact ⟨List.mem_map_of_mem hother, by simpa using hout⟩
  · rintro ⟨h, hout⟩
    obtain ⟨other, hother, hsame⟩ := List.mem_map.mp h
    rw [← hsame] at hout ⊢
    exact List.mem_map_of_mem (List.mem_filter.mpr ⟨hother, by simpa using hout⟩)

end Deletion

section Batches

variable {periodStart : PeriodUnit → Int → Int} {s s' : Tables} {compaction : Compaction}
  {batch : List SourceRow}

/-- The upserts that a compaction makes for a batch. -/
def upserted (periodStart : PeriodUnit → Int → Int) (s : Tables) (periodUnit : PeriodUnit)
    (batch : List SourceRow) : PeriodTable :=
  (aggregate periodStart periodUnit batch).foldl PeriodTable.upsert s.byPeriod

theorem sumWhere_upserted (periodStart : PeriodUnit → Int → Int) (s : Tables)
    (periodUnit : PeriodUnit) (batch : List SourceRow) (q : PeriodKey → Bool) :
    sumWhere (fun row => q row.key) PeriodRow.value
        (upserted periodStart s periodUnit batch).rows =
      sumWhere (fun row => q row.key) PeriodRow.value s.byPeriod.rows +
        sumWhere (fun row => q (targetKey periodStart periodUnit row)) SourceRow.value batch := by
  rw [upserted, sumWhere_upserts, aggregate, sumWhere_groupSums]

theorem aggregate_periodUnit (periodStart : PeriodUnit → Int → Int) (periodUnit : PeriodUnit)
    (batch : List SourceRow) :
    ∀ entry ∈ aggregate periodStart periodUnit batch, entry.1.periodUnit = periodUnit := by
  intro entry hentry
  obtain ⟨key, hkey, rfl⟩ := List.mem_map.mp hentry
  obtain ⟨row, -, rfl⟩ := List.mem_map.mp (List.mem_dedup.mp hkey)
  rfl

variable {periodUnit : PeriodUnit}

theorem mem_upserted {row : PeriodRow} (hunit : row.periodUnit ≠ periodUnit) :
    row ∈ (upserted periodStart s periodUnit batch).rows ↔ row ∈ s.byPeriod.rows := by
  have hfilter := filter_upserts (aggregate_periodUnit periodStart periodUnit batch) s.byPeriod
  have hmem := congrArg (row ∈ ·) hfilter
  simpa [List.mem_filter, hunit, upserted] using hmem

/-- The source rows of the batch of a compaction within the by-period table. -/
def FromPeriods (s : Tables) (periodUnit : PeriodUnit) (batch : List SourceRow) : Prop :=
  ∀ row ∈ batch, ∃ old ∈ s.byPeriod.rows, old.source = row ∧ old.periodUnit ≠ periodUnit

theorem FromPeriods.subset (h : FromPeriods s periodUnit batch) :
    ∀ row ∈ batch, row ∈ (upserted periodStart s periodUnit batch).rows.map PeriodRow.source := by
  intro row hrow
  obtain ⟨old, hold, rfl, hunit⟩ := h row hrow
  exact List.mem_map_of_mem ((mem_upserted hunit).mpr hold)

theorem FromPeriods.id_ne (h : FromPeriods s periodUnit batch) {row : PeriodRow}
    (hrow : row ∈ (upserted periodStart s periodUnit batch).rows)
    (hunit : row.periodUnit = periodUnit) : row.id ∉ batch.map SourceRow.id := by
  intro hid
  obtain ⟨source, hsource, hsame⟩ := List.mem_map.mp hid
  obtain ⟨old, hold, rfl, hother⟩ := h source hsource
  have heq : old = row := List.inj_on_of_nodup_map
    (upserted periodStart s periodUnit batch).ids ((mem_upserted hother).mpr hold) hrow hsame
  exact hother (heq ▸ hunit)

theorem fromPeriods_of_mem (source periodUnit : PeriodUnit) (hne : source ≠ periodUnit)
    {maxAgeInDays : Nat} {now : Int}
    (hsubset : ∀ row ∈ batch, row ∈ periodInsights s.byPeriod source maxAgeInDays now) :
    FromPeriods s periodUnit batch := by
  intro row hrow
  obtain ⟨old, hold, rfl⟩ := List.mem_map.mp (hsubset row hrow)
  obtain ⟨hold, hfilter⟩ := List.mem_filter.mp hold
  exact ⟨old, hold, rfl, (of_decide_eq_true hfilter).1 ▸ hne⟩

section Totals

variable (metaId : Nat) (type : TypeUnit)

theorem total_upserted (periodUnit : PeriodUnit) :
    sumWhere (fun row => decide (row.metaId = metaId ∧ row.type = type)) PeriodRow.value
        (upserted periodStart s periodUnit batch).rows =
      sumWhere (fun row => decide (row.metaId = metaId ∧ row.type = type)) PeriodRow.value
          s.byPeriod.rows +
        sumWhere (fun row => decide (row.metaId = metaId ∧ row.type = type)) SourceRow.value
          batch :=
  sumWhere_upserted periodStart s periodUnit batch
    fun key => decide (key.metaId = metaId ∧ key.type = type)

theorem total_raw (hnodup : batch.Nodup)
    (hsubset : ∀ row ∈ batch, row ∈ s.raw.rows.map RawRow.source) (periodUnit : PeriodUnit) :
    Tables.total
        { raw := s.raw.delete fun row => decide (row.id ∈ batch.map SourceRow.id)
          byPeriod := upserted periodStart s periodUnit batch } metaId type =
      s.total metaId type := by
  have hdelete : sumWhere (fun row => decide (row.metaId = metaId ∧ row.type = type))
        RawRow.value s.raw.rows =
      sumWhere (fun row => decide (row.metaId = metaId ∧ row.type = type)) SourceRow.value batch +
        sumWhere (fun row => decide (row.metaId = metaId ∧ row.type = type)) RawRow.value
          (s.raw.delete fun row => decide (row.id ∈ batch.map SourceRow.id)).rows :=
    sumWhere_delete (fun _ => rfl) s.raw.unique hnodup hsubset
      fun row => decide (row.metaId = metaId ∧ row.type = type)
  simp only [Tables.total, total_upserted, hdelete]
  omega

theorem total_period {periodUnit : PeriodUnit} (hnodup : batch.Nodup)
    (hfrom : FromPeriods s periodUnit batch) :
    Tables.total
        { s with
          byPeriod := (upserted periodStart s periodUnit batch).deleteIds
            (batch.map SourceRow.id) } metaId type =
      s.total metaId type := by
  have hdelete : sumWhere (fun row => decide (row.metaId = metaId ∧ row.type = type))
        PeriodRow.value (upserted periodStart s periodUnit batch).rows =
      sumWhere (fun row => decide (row.metaId = metaId ∧ row.type = type)) SourceRow.value batch +
        sumWhere (fun row => decide (row.metaId = metaId ∧ row.type = type)) PeriodRow.value
          ((upserted periodStart s periodUnit batch).deleteIds (batch.map SourceRow.id)).rows :=
    sumWhere_delete (fun _ => rfl) (upserted periodStart s periodUnit batch).ids hnodup
      hfrom.subset fun row => decide (row.metaId = metaId ∧ row.type = type)
  rw [total_upserted] at hdelete
  simp only [Tables.total]
  omega

theorem total_compactBatch (hbatch : IsBatch (sourceRows s compaction)
    compaction.compactionBatchSize batch) :
    (compactBatch periodStart s compaction batch).total metaId type = s.total metaId type := by
  cases compaction with
  | rawToHour batchSize => exact total_raw metaId type hbatch.nodup hbatch.subset .hour
  | hourToDay batchSize maxAgeInDays now =>
    exact total_period metaId type hbatch.nodup
      (fromPeriods_of_mem .hour .day (by decide) hbatch.subset)
  | dayToWeek batchSize maxAgeInDays now =>
    exact total_period metaId type hbatch.nodup
      (fromPeriods_of_mem .day .week (by decide) hbatch.subset)

end Totals

section Removals

variable {periodUnit : PeriodUnit}

theorem id_mem_upserted {row : PeriodRow} (hrow : row ∈ s.byPeriod.rows) :
    row.id ∈ (upserted periodStart s periodUnit batch).rows.map PeriodRow.id :=
  (subset_upserts _ s.byPeriod).1 (List.mem_map_of_mem hrow)

theorem removed_raw (hnodup : batch.Nodup)
    (hsubset : ∀ row ∈ batch, row ∈ s.raw.rows.map RawRow.source) (periodUnit : PeriodUnit) :
    (removed s
      { raw := s.raw.delete fun row => decide (row.id ∈ batch.map SourceRow.id)
        byPeriod := upserted periodStart s periodUnit batch }).Perm batch := by
  have hperiods : (s.byPeriod.rows.filter fun row => decide
      (row.id ∉ (upserted periodStart s periodUnit batch).rows.map PeriodRow.id)) = [] :=
    List.filter_eq_nil_iff.mpr fun row hrow => by simpa using id_mem_upserted hrow
  have hraw : (s.raw.rows.filter fun row => decide (row.id ∉
      (s.raw.delete fun row => decide (row.id ∈ batch.map SourceRow.id)).rows.map RawRow.id)) =
      s.raw.rows.filter fun row => decide (row.id ∈ batch.map SourceRow.id) := by
    refine List.filter_congr fun row hrow => decide_eq_decide.mpr ?_
    refine (not_congr (id_mem_filter RawRow.id s.raw.rows (batch.map SourceRow.id) row)).trans ?_
    simp [List.mem_map_of_mem (f := RawRow.id) hrow]
  rw [removed, hperiods, hraw, List.map_nil, List.append_nil]
  exact filter_ids_perm (fun _ => rfl) s.raw.unique hnodup hsubset

theorem removed_period (hnodup : batch.Nodup) (hfrom : FromPeriods s periodUnit batch) :
    (removed s
      { s with
        byPeriod := (upserted periodStart s periodUnit batch).deleteIds
          (batch.map SourceRow.id) }).Perm batch := by
  have hraw : (s.raw.rows.filter fun row =>
      decide (row.id ∉ s.raw.rows.map RawRow.id)) = [] :=
    List.filter_eq_nil_iff.mpr fun row hrow => by
      simpa using ⟨row, hrow, rfl⟩
  have hperiods : (s.byPeriod.rows.filter fun row => decide (row.id ∉
      ((upserted periodStart s periodUnit batch).deleteIds
        (batch.map SourceRow.id)).rows.map PeriodRow.id)) =
      s.byPeriod.rows.filter fun row => decide (row.id ∈ batch.map SourceRow.id) := by
    refine List.filter_congr fun row hrow => decide_eq_decide.mpr ?_
    refine (not_congr (id_mem_filter PeriodRow.id
      (upserted periodStart s periodUnit batch).rows (batch.map SourceRow.id) row)).trans ?_
    simp [id_mem_upserted hrow]
  rw [removed, hperiods, hraw, List.map_nil, List.nil_append]
  refine filter_ids_perm (fun _ => rfl) s.byPeriod.ids hnodup fun row hrow => ?_
  obtain ⟨old, hold, rfl, -⟩ := hfrom row hrow
  exact List.mem_map_of_mem hold

theorem target_upserted (periodStart : PeriodUnit → Int → Int) (s : Tables)
    (periodUnit : PeriodUnit) {row : SourceRow} (hrow : row ∈ batch) :
    ∃ target ∈ (upserted periodStart s periodUnit batch).rows,
      target.key = targetKey periodStart periodUnit row ∧
      target.value = s.byPeriod.valueAt target.key +
        sumWhere (fun row => decide (targetKey periodStart periodUnit row = target.key))
          SourceRow.value batch := by
  have hkey : targetKey periodStart periodUnit row ∈
      (aggregate periodStart periodUnit batch).map Prod.fst := by
    rw [aggregate, groupSums_keys, List.mem_dedup]
    exact List.mem_map_of_mem hrow
  obtain ⟨entry, hentry, hsame⟩ := List.mem_map.mp hkey
  have htarget := (subset_upserts (aggregate periodStart periodUnit batch) s.byPeriod).2.2
    entry hentry
  obtain ⟨target, htarget, htargetKey⟩ := List.mem_map.mp htarget
  refine ⟨target, htarget, htargetKey.trans hsame, ?_⟩
  have hvalue := sumWhere_key PeriodRow.value
    (upserted periodStart s periodUnit batch).table.unique htarget
  rw [← hvalue]
  exact sumWhere_upserted periodStart s periodUnit batch fun key => decide (key = target.key)

theorem target_period (hfrom : FromPeriods s periodUnit batch) {row : SourceRow}
    (hrow : row ∈ batch) :
    ∃ target ∈ ((upserted periodStart s periodUnit batch).deleteIds
        (batch.map SourceRow.id)).rows,
      target.key = targetKey periodStart periodUnit row ∧
      target.value = s.byPeriod.valueAt target.key +
        sumWhere (fun row => decide (targetKey periodStart periodUnit row = target.key))
          SourceRow.value batch := by
  obtain ⟨target, htarget, hkey, hvalue⟩ := target_upserted periodStart s periodUnit hrow
  have hunit : target.periodUnit = periodUnit := congrArg PeriodKey.periodUnit hkey
  refine ⟨target, List.mem_filter.mpr ⟨htarget, ?_⟩, hkey, hvalue⟩
  simpa using hfrom.id_ne htarget hunit

/-- What a compaction removes is in rows that are there after it: each of these has the value that
was there before and the values that were removed. -/
def AddsRemoved (periodStart : PeriodUnit → Int → Int) (periodUnit : PeriodUnit) (s s' : Tables) :
    Prop :=
  ∀ row ∈ removed s s', ∃ target ∈ s'.byPeriod.rows,
    target.key = targetKey periodStart periodUnit row ∧
    target.value = s.byPeriod.valueAt target.key +
      sumWhere (fun row => decide (targetKey periodStart periodUnit row = target.key))
        SourceRow.value (removed s s')

theorem addsRemoved_of_perm {periodUnit : PeriodUnit} (hperm : (removed s s').Perm batch)
    (htargets : ∀ row ∈ batch, ∃ target ∈ s'.byPeriod.rows,
      target.key = targetKey periodStart periodUnit row ∧
      target.value = s.byPeriod.valueAt target.key +
        sumWhere (fun row => decide (targetKey periodStart periodUnit row = target.key))
          SourceRow.value batch) :
    AddsRemoved periodStart periodUnit s s' := by
  intro row hrow
  obtain ⟨target, htarget, hkey, hvalue⟩ := htargets row (hperm.mem_iff.mp hrow)
  refine ⟨target, htarget, hkey, ?_⟩
  rw [hvalue, sumWhere_perm hperm]

theorem addsRemoved_compactBatch (hbatch : IsBatch (sourceRows s compaction)
    compaction.compactionBatchSize batch) :
    AddsRemoved periodStart compaction.periodUnitToCompactInto s
      (compactBatch periodStart s compaction batch) := by
  cases compaction with
  | rawToHour batchSize =>
    exact addsRemoved_of_perm (removed_raw hbatch.nodup hbatch.subset .hour)
      fun row hrow => target_upserted periodStart s .hour hrow
  | hourToDay batchSize maxAgeInDays now =>
    have hfrom : FromPeriods s .day batch :=
      fromPeriods_of_mem .hour .day (by decide) hbatch.subset
    exact addsRemoved_of_perm (removed_period hbatch.nodup hfrom)
      fun row hrow => target_period hfrom hrow
  | dayToWeek batchSize maxAgeInDays now =>
    have hfrom : FromPeriods s .week batch :=
      fromPeriods_of_mem .day .week (by decide) hbatch.subset
    exact addsRemoved_of_perm (removed_period hbatch.nodup hfrom)
      fun row hrow => target_period hfrom hrow

theorem removed_self (s : Tables) : removed s s = [] := by
  have hraw : (s.raw.rows.filter fun row =>
      decide (row.id ∉ s.raw.rows.map RawRow.id)) = [] :=
    List.filter_eq_nil_iff.mpr fun row hrow => by
      simpa using ⟨row, hrow, rfl⟩
  have hperiods : (s.byPeriod.rows.filter fun row =>
      decide (row.id ∉ s.byPeriod.rows.map PeriodRow.id)) = [] :=
    List.filter_eq_nil_iff.mpr fun row hrow => by
      simpa using ⟨row, hrow, rfl⟩
  rw [removed, hraw, hperiods]
  rfl

end Removals

end Batches

variable {periodStart : PeriodUnit → Int → Int} {s s' : Tables}

/-- The compaction of an event. -/
def CompactionEvent.compaction : CompactionEvent → Compaction
  | .compact compaction _ | .rollback compaction => compaction

theorem compactionStep_compact {compaction : Compaction} {batch : List SourceRow}
    (hbatch : IsBatch (sourceRows s compaction) compaction.compactionBatchSize batch) :
    compactionStep periodStart s (.compact compaction batch) =
      some (compactBatch periodStart s compaction batch) :=
  if_pos hbatch

theorem compactionStep_conserves {e : CompactionEvent}
    (hstep : compactionStep periodStart s e = some s') :
    (∀ metaId type, s'.total metaId type = s.total metaId type) ∧
      AddsRemoved periodStart e.compaction.periodUnitToCompactInto s s' := by
  cases e with
  | compact compaction batch =>
    simp only [compactionStep, Option.ite_none_right_eq_some, Option.some.injEq] at hstep
    obtain ⟨hbatch, rfl⟩ := hstep
    exact ⟨fun metaId type => total_compactBatch metaId type hbatch,
      addsRemoved_compactBatch hbatch⟩
  | rollback compaction =>
    cases hstep
    refine ⟨fun _ _ => rfl, fun row hrow => ?_⟩
    rw [removed_self] at hrow
    exact absurd hrow List.not_mem_nil

/-- In every run of compactions, the sum of values is unchanged for every metadata id and type,
every by-period row is unique for its key, and no row is removed without having been added to
another. -/
theorem compactions_conserve (periodStart : PeriodUnit → Int → Int) (start : Tables) {s : Tables}
    (h : Reachable (compactionStep periodStart) (fun _ _ => True) start s) :
    (∀ metaId type, s.total metaId type = start.total metaId type) ∧
      (∀ row ∈ s.byPeriod.rows, ∀ row' ∈ s.byPeriod.rows, row.key = row'.key → row = row') ∧
      ∀ e s', compactionStep periodStart s e = some s' →
        AddsRemoved periodStart e.compaction.periodUnitToCompactInto s s' := by
  refine ⟨fun metaId type => ?_, fun row hrow row' hrow' => ?_, fun e s' hstep => ?_⟩
  · refine h.keeps (fun s => s.total metaId type = start.total metaId type) rfl ?_
    intro s e s' htotal _ hstep
    exact ((compactionStep_conserves hstep).1 metaId type).trans htotal
  · exact s.byPeriod.table.row_unique hrow hrow'
  · exact (compactionStep_conserves hstep).2

/-- The first of two raw rows of one hour. -/
def exampleFirst : RawRow :=
  { id := 1, metaId := 7, type := .success, value := 1, timestamp := 3600 }

/-- The second of two raw rows of one hour. -/
def exampleSecond : RawRow :=
  { id := 2, metaId := 7, type := .success, value := 1, timestamp := 3700 }

/-- Tables with two raw rows. -/
def exampleTables : Tables where
  raw := { rows := [exampleFirst, exampleSecond], unique := by decide }
  byPeriod :=
    { table := { rows := [], unique := by decide }
      nextId := 1
      ids := by decide
      fresh := by decide }

/-- Two batches of one row compact the rows of one hour into one. -/
theorem compact_one_by_one :
    ∃ s, Reachable (compactionStep utcPeriodStart) (fun _ _ => True) exampleTables s ∧
      s.raw.rows = [] ∧ s.byPeriod.rows.map PeriodRow.value = [2] ∧
      s.total 7 .success = exampleTables.total 7 .success := by
  let first := compactBatch utcPeriodStart exampleTables (.rawToHour 1) [exampleFirst.source]
  let second := compactBatch utcPeriodStart first (.rawToHour 1) [exampleSecond.source]
  have hfirst : compactionStep utcPeriodStart exampleTables
      (.compact (.rawToHour 1) [exampleFirst.source]) = some first :=
    compactionStep_compact (by decide +kernel)
  have hsecond : compactionStep utcPeriodStart first
      (.compact (.rawToHour 1) [exampleSecond.source]) = some second :=
    compactionStep_compact (by decide +kernel)
  have hreachable : Reachable (compactionStep utcPeriodStart) (fun _ _ => True) exampleTables
      second := .next (.next .start trivial hfirst) trivial hsecond
  exact ⟨second, hreachable, by decide +kernel, by decide +kernel,
    (compactions_conserve utcPeriodStart exampleTables hreachable).1 7 .success⟩

end N8n.Insights
