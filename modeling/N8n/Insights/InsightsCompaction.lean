import N8n.Collections.GroupedSums
import N8n.Collections.Table
import N8n.Insights.InsightsCollection

/-!
# The compaction of insights

Raw insights are compacted into rows for an hour, these into rows for a day, and these into rows for
a week. A compaction takes a batch of source rows, adds the sums over their periods to the rows of
these periods, and deletes the batch, in one transaction. See `compactInsights` of
`packages/cli/src/modules/insights/insights-compaction.service.ts`, and
`getPeriodInsightsBatchQuery`, `getAggregationQuery` and `compactSourceDataIntoInsightPeriod` of
`packages/cli/src/modules/insights/database/repositories/insights-by-period.repository.ts`. The
values of a column are not bounded: a transaction whose values do not fit fails, and changes
nothing.
-/

namespace N8n.Insights

open Collections

/-- `PeriodUnit`. -/
inductive PeriodUnit where
  | hour
  | day
  | week
  deriving DecidableEq, Repr

/-- A row of the raw table. Times are seconds. -/
structure RawRow where
  id : Nat
  metaId : Nat
  type : TypeUnit
  value : Int
  timestamp : Int
  deriving DecidableEq

/-- The columns of the unique index of the by-period table. -/
structure PeriodKey where
  metaId : Nat
  type : TypeUnit
  periodUnit : PeriodUnit
  periodStart : Int
  deriving DecidableEq

/-- A row of the by-period table. -/
structure PeriodRow extends PeriodKey where
  id : Nat
  value : Int
  deriving DecidableEq

/-- The columns of the unique index. -/
def PeriodRow.key (row : PeriodRow) : PeriodKey := row.toPeriodKey

/-- A row of the temporary table `rows_to_compact`. -/
structure SourceRow where
  id : Nat
  metaId : Nat
  type : TypeUnit
  periodStart : Int
  value : Int
  deriving DecidableEq

def RawRow.source (row : RawRow) : SourceRow :=
  { id := row.id, metaId := row.metaId, type := row.type, periodStart := row.timestamp,
    value := row.value }

def PeriodRow.source (row : PeriodRow) : SourceRow :=
  { id := row.id, metaId := row.metaId, type := row.type, periodStart := row.periodStart,
    value := row.value }

/-- The by-period table, with its unique index and its generated ids. -/
structure PeriodTable where
  table : Table PeriodRow.key
  nextId : Nat
  ids : (table.rows.map PeriodRow.id).Nodup
  fresh : ∀ row ∈ table.rows, row.id < nextId

namespace PeriodTable

/-- The rows of the table. -/
def rows (t : PeriodTable) : List PeriodRow := t.table.rows

/-- `DO UPDATE SET value = value + excluded.value` for the row with the key. -/
def addValue (t : PeriodTable) (key : PeriodKey) (value : Int) : PeriodTable where
  table := t.table.update (fun row => decide (row.key = key))
    (fun row => { row with value := row.value + value }) fun _ => rfl
  nextId := t.nextId
  ids := by
    have hids : (t.table.rows.map fun row =>
        if decide (row.key = key) then { row with value := row.value + value } else row).map
          PeriodRow.id = t.table.rows.map PeriodRow.id := by
      rw [List.map_map]
      refine List.map_congr_left fun row _ => ?_
      rw [Function.comp_apply]
      split <;> rfl
    show (List.map PeriodRow.id (List.map _ _)).Nodup
    rw [hids]
    exact t.ids
  fresh row hrow := by
    obtain ⟨old, hold, rfl⟩ := Table.mem_update.mp hrow
    split <;> exact t.fresh old hold

/-- `INSERT INTO insights_by_period VALUES (…)` for a key that has no row. -/
def insertRow (t : PeriodTable) (key : PeriodKey) (value : Int)
    (hfree : key ∉ t.table.rows.map PeriodRow.key) : PeriodTable where
  table :=
    { rows := t.table.rows ++ [{ key with id := t.nextId, value }]
      unique := by
        rw [List.map_append]
        refine List.Nodup.append t.table.unique (List.nodup_singleton _) fun k hk hmem => ?_
        have hkey : k = key := List.mem_singleton.mp hmem
        exact hfree (hkey ▸ hk) }
  nextId := t.nextId + 1
  ids := by
    rw [List.map_append]
    refine List.Nodup.append t.ids (List.nodup_singleton _) fun id hid hmem => ?_
    obtain ⟨row, hrow, rfl⟩ := List.mem_map.mp hid
    exact Nat.ne_of_lt (t.fresh row hrow) (List.mem_singleton.mp hmem)
  fresh row hrow := by
    obtain hrow | hrow := List.mem_append.mp hrow
    · exact Nat.lt_succ_of_lt (t.fresh row hrow)
    · cases List.mem_singleton.mp hrow
      exact Nat.lt_succ_self _

/-- Insert a row for the key, or add the value to the one that is there. -/
def upsert (t : PeriodTable) (entry : PeriodKey × Int) : PeriodTable :=
  if hfree : entry.1 ∉ t.table.rows.map PeriodRow.key then t.insertRow entry.1 entry.2 hfree
  else t.addValue entry.1 entry.2

/-- `DELETE FROM insights_by_period WHERE id IN (…)`. -/
def deleteIds (t : PeriodTable) (ids : List Nat) : PeriodTable where
  table := t.table.delete fun row => decide (row.id ∈ ids)
  nextId := t.nextId
  ids := t.ids.sublist (List.filter_sublist.map PeriodRow.id)
  fresh row hrow := t.fresh row (Table.mem_delete.mp hrow).1

end PeriodTable

/-- The two tables. -/
structure Tables where
  raw : Table RawRow.id
  byPeriod : PeriodTable

/-- A call of `compactSourceDataIntoInsightPeriod` with the query for its batch. `now` is the first
instant of the current date. -/
inductive Compaction where
  | rawToHour (batchSize : Nat)
  | hourToDay (batchSize maxAgeInDays : Nat) (now : Int)
  | dayToWeek (batchSize maxAgeInDays : Nat) (now : Int)
  deriving DecidableEq

namespace Compaction

/-- `periodUnitToCompactInto`. -/
def periodUnitToCompactInto : Compaction → PeriodUnit
  | .rawToHour _ => .hour
  | .hourToDay .. => .day
  | .dayToWeek .. => .week

/-- `compactionBatchSize`. -/
def compactionBatchSize : Compaction → Nat
  | .rawToHour batchSize | .hourToDay batchSize _ _ | .dayToWeek batchSize _ _ => batchSize

end Compaction

/-- `getPeriodInsightsBatchQuery` without its order and limit: the rows of the period unit that are
old enough. -/
def periodInsights (t : PeriodTable) (periodUnitToCompactFrom : PeriodUnit) (maxAgeInDays : Nat)
    (now : Int) : List SourceRow :=
  (t.rows.filter fun row =>
    decide (row.periodUnit = periodUnitToCompactFrom ∧
      row.periodStart < now - 86400 * maxAgeInDays)).map PeriodRow.source

/-- The rows that a compaction may take. -/
def sourceRows (s : Tables) : Compaction → List SourceRow
  | .rawToHour _ => s.raw.rows.map RawRow.source
  | .hourToDay _ maxAgeInDays now => periodInsights s.byPeriod .hour maxAgeInDays now
  | .dayToWeek _ maxAgeInDays now => periodInsights s.byPeriod .day maxAgeInDays now

/-- What `ORDER BY periodStart ASC LIMIT n` can yield: it may take any of the rows with one period
start. -/
structure IsBatch (rows : List SourceRow) (limit : Nat) (batch : List SourceRow) : Prop where
  nodup : batch.Nodup
  subset : ∀ row ∈ batch, row ∈ rows
  length : batch.length = min limit rows.length
  ordered : batch.Pairwise fun row row' => row.periodStart ≤ row'.periodStart
  first : ∀ row ∈ rows, row ∉ batch → ∀ row' ∈ batch, row'.periodStart ≤ row.periodStart

instance (rows : List SourceRow) (limit : Nat) (batch : List SourceRow) :
    Decidable (IsBatch rows limit batch) :=
  decidable_of_iff
    (batch.Nodup ∧ (∀ row ∈ batch, row ∈ rows) ∧ batch.length = min limit rows.length ∧
      (batch.Pairwise fun row row' => row.periodStart ≤ row'.periodStart) ∧
      ∀ row ∈ rows, row ∉ batch → ∀ row' ∈ batch, row'.periodStart ≤ row.periodStart)
    ⟨fun h => ⟨h.1, h.2.1, h.2.2.1, h.2.2.2.1, h.2.2.2.2⟩,
      fun h => ⟨h.nodup, h.subset, h.length, h.ordered, h.first⟩⟩

section Transactions

/- The start of the period that a time lies in, as the database computes it. -/
variable (periodStart : PeriodUnit → Int → Int)

/-- The key of the row that a source row is added to. -/
def targetKey (periodUnit : PeriodUnit) (row : SourceRow) : PeriodKey :=
  { metaId := row.metaId, type := row.type, periodUnit
    periodStart := periodStart periodUnit row.periodStart }

/-- `getAggregationQuery(periodUnit)`, on the batch. -/
def aggregate (periodUnit : PeriodUnit) (batch : List SourceRow) : List (PeriodKey × Int) :=
  groupSums (targetKey periodStart periodUnit) SourceRow.value batch

/-- The tables after the transaction for a batch. -/
def compactBatch (s : Tables) (compaction : Compaction) (batch : List SourceRow) : Tables :=
  let byPeriod :=
    (aggregate periodStart compaction.periodUnitToCompactInto batch).foldl PeriodTable.upsert
      s.byPeriod
  let ids := batch.map SourceRow.id
  match compaction with
  | .rawToHour _ => { raw := s.raw.delete fun row => decide (row.id ∈ ids), byPeriod }
  | .hourToDay .. | .dayToWeek .. => { s with byPeriod := byPeriod.deleteIds ids }

/-- What happens to the tables: a transaction for a batch, or one that fails. -/
inductive CompactionEvent where
  | compact (compaction : Compaction) (batch : List SourceRow)
  | rollback (compaction : Compaction)

/-- `compactSourceDataIntoInsightPeriod`. -/
def compactionStep (s : Tables) : CompactionEvent → Option Tables
  | .compact compaction batch =>
    if IsBatch (sourceRows s compaction) compaction.compactionBatchSize batch then
      some (compactBatch periodStart s compaction batch)
    else none
  | .rollback _ => some s

/-- A loop of `compactInsights`: it goes on as long as the batches are full. -/
inductive CompactsAll (compaction : Compaction) : Tables → Tables → Prop where
  | last {s s' : Tables} (batch : List SourceRow)
      (hstep : compactionStep periodStart s (.compact compaction batch) = some s')
      (hshort : batch.length ≠ compaction.compactionBatchSize) : CompactsAll compaction s s'
  | again {s middle s' : Tables} (batch : List SourceRow)
      (hstep : compactionStep periodStart s (.compact compaction batch) = some middle)
      (hfull : batch.length = compaction.compactionBatchSize)
      (hrest : CompactsAll compaction middle s') : CompactsAll compaction s s'

/-- `compactInsights()`, on one date. -/
def CompactInsights (batchSize hourlyToDailyThresholdDays dailyToWeeklyThresholdDays : Nat)
    (now : Int) (s s' : Tables) : Prop :=
  ∃ hourly daily, CompactsAll periodStart (.rawToHour batchSize) s hourly ∧
    CompactsAll periodStart (.hourToDay batchSize hourlyToDailyThresholdDays now) hourly daily ∧
    CompactsAll periodStart (.dayToWeek batchSize dailyToWeeklyThresholdDays now) daily s'

end Transactions

/-- The starts of the periods in UTC. Weeks start on Monday, and the first instant is a Thursday. -/
def utcPeriodStart : PeriodUnit → Int → Int
  | .hour, time => time / 3600 * 3600
  | .day, time => time / 86400 * 86400
  | .week, time => ((time / 86400 + 3) / 7 * 7 - 3) * 86400

end N8n.Insights
