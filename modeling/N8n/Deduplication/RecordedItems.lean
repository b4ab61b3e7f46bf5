import Mathlib.Data.List.Count
import N8n.Deduplication.DeduplicationHelper
import N8n.Transition.Runs

/-!
# What is remembered over a history of calls

A run is a sequence of calls on one context in one mode. Beside the table, its states carry the
history: the items that were recorded and not removed since, or the items of all batches in the
latest modes. `checks_report_history` is the result: over runs in which every removal takes out all
copies of a hash and the first batch of a latest mode is not empty, every check reports exactly
what the history says.
-/

namespace N8n.Deduplication

open Collections Transition

variable {α η κ : Type}

/-- A context that calls can use: it has a name, and its workflow has an id. -/
structure Context where
  scope : DeduplicationScope
  contextData : ContextData
  name : List Char
  hname : createContext scope contextData = .ok name
  hid : contextData.workflowId ≠ []

/-- The place of the context's data in the table. -/
def Context.key (c : Context) : List Char × List Char := (c.contextData.workflowId, c.name)

/-- A call on the context. -/
inductive Call (α : Type) where
  | check (items : List α) (maxEntries : Option Nat)
  | remove (items : List α)
  | clear
  deriving DecidableEq, Repr

/-- The table, and the items that the calls so far should have left as recorded. -/
structure RunState (α η : Type) where
  table : ProcessedTable α η
  history : List α

section

variable [DecidableEq α] [DecidableEq η] [LinearOrder κ] (createValueHash : α → η)
  (rank : DeduplicationMode → α → Option κ) (c : Context) (mode : DeduplicationMode)

/-- The result of checking a batch on the context. -/
def checkOn (items : List α) (maxEntries : Option Nat) (table : ProcessedTable α η) :
    Except DeduplicationError (DeduplicationOutput α) × ProcessedTable α η :=
  checkProcessedAndRecord createValueHash rank items c.scope c.contextData ⟨mode, maxEntries⟩ table

/-- The state after a call. A call that fails changes nothing in the history. -/
def step (s : RunState α η) : Call α → Option (RunState α η)
  | .check items maxEntries =>
    match checkOn createValueHash rank c mode items maxEntries s.table with
    | (.ok _, table) => some ⟨table, s.history ++ items⟩
    | (.error _, table) => some ⟨table, s.history⟩
  | .remove items =>
    match removeProcessed createValueHash items c.scope c.contextData ⟨mode, none⟩ s.table with
    | (.ok _, table) => some ⟨table, s.history.filter (· ∉ items)⟩
    | (.error _, table) => some ⟨table, s.history⟩
  | .clear =>
    match clearAllProcessedItems c.scope c.contextData s.table with
    | (.ok _, table) => some ⟨table, []⟩
    | (.error _, table) => some ⟨table, s.history⟩

/-- Is the first item strictly greater than the second one? -/
def greater (a b : α) : Bool :=
  match rank mode a, rank mode b with
  | some x, some y => decide (y < x)
  | _, _ => false

/-- Is the item new after a history: not recorded, or greater than all items of earlier batches? -/
def isNew (history : List α) (item : α) : Bool :=
  match mode with
  | .entries => decide (item ∉ history)
  | _ => history.all (greater rank mode item)

/-- The check succeeds, and reports each item of the batch as its newness says. -/
def ReportsHistory (s : RunState α η) (items : List α) (maxEntries : Option Nat) : Prop :=
  ∃ out, (checkOn createValueHash rank c mode items maxEntries s.table).1 = .ok out ∧
    out.new.Perm (items.filter (isNew rank mode s.history)) ∧
    out.processed.Perm (items.filter (!isNew rank mode s.history ·))

/-- The hashes stored for the context. -/
def storedHashes (table : ProcessedTable α η) : List η :=
  match table.get? c.key with
  | some ⟨_, .entries data⟩ => data
  | _ => []

/-- The hashes stored for the context once the batch is recorded, if their number is not limited. -/
def recordedHashes (items : List α) (table : ProcessedTable α η) : List η :=
  storedHashes c table ++ (items.map createValueHash).filter (· ∉ storedHashes c table)

/-- The calls that are considered: in the mode `entries` the stored hashes stay below their limit,
and in the latest modes all items are numbers or dates. -/
def InScope (s : RunState α η) : Call α → Prop
  | .check items maxEntries =>
    match mode with
    | .entries =>
      ∀ max, maxEntries = some max → max ≠ 0 →
        (recordedHashes createValueHash c items s.table).length ≤ max
    | _ => ∀ item ∈ items, (rank mode item).isSome
  | _ => True

/-- The condition on a call. In the mode `entries` an item that is not recorded may not have the
hash of one that is, and a removal lists an item's hash as often as it is stored, with all recorded
items of that hash. In the latest modes the first batch is not empty. -/
def KeepsTrack (s : RunState α η) : Call α → Prop
  | .check items _ =>
    match mode with
    | .entries =>
      ∀ item ∈ items, ∀ x ∈ s.history,
        createValueHash x = createValueHash item → item ∈ s.history
    | _ => s.table.get? c.key = none → items ≠ []
  | .remove items =>
    mode = .entries → ∀ item ∈ items,
      (storedHashes c s.table).count (createValueHash item) ≤
          (items.map createValueHash).count (createValueHash item) ∧
        ∀ x ∈ s.history, createValueHash x = createValueHash item → x ∈ items
  | .clear => True

end

variable {createValueHash : α → η} {rank : DeduplicationMode → α → Option κ} {c : Context}
  {mode : DeduplicationMode} {table : ProcessedTable α η} {s s' : RunState α η}

theorem check_on_eq [DecidableEq η] [LinearOrder κ] (items : List α) (maxEntries : Option Nat)
    (table : ProcessedTable α η) :
    checkOn createValueHash rank c mode items maxEntries table =
      match validateMode (table.get? c.key) ⟨mode, maxEntries⟩ with
      | .error e => (.error e, table)
      | .ok () =>
        if mode = .latestIncrementalKey ∨ mode = .latestDate then
          handleLatestModes rank items c.key ⟨mode, maxEntries⟩ (table.get? c.key) table
        else
          handleHashedItems createValueHash items c.key ⟨mode, maxEntries⟩ (table.get? c.key)
            table := by
  unfold checkOn checkProcessedAndRecord
  rw [c.hname]
  dsimp only
  rw [if_neg c.hid]
  rfl

section Entries

/-- The context's data was saved in the mode `entries`. -/
def HasEntries (c : Context) (table : ProcessedTable α η) : Prop :=
  ∀ value, table.get? c.key = some value → value = ⟨.entries, .entries (storedHashes c table)⟩

theorem stored_hashes_set (c : Context) (table : ProcessedTable α η) (data : List η) :
    HasEntries c (table.set c.key ⟨.entries, .entries data⟩) ∧
      storedHashes c (table.set c.key ⟨.entries, .entries data⟩) = data := by
  have hstored : storedHashes c (table.set c.key ⟨.entries, .entries data⟩) = data := by
    rw [storedHashes, InsertionMap.get_set_same]
  refine ⟨fun value hvalue => ?_, hstored⟩
  rw [InsertionMap.get_set_same] at hvalue
  rw [hstored]
  exact (Option.some.inj hvalue).symm

theorem clear_eq (c : Context) (table : ProcessedTable α η) :
    clearAllProcessedItems c.scope c.contextData table = (.ok (), table.delete c.key) := by
  rw [clearAllProcessedItems, c.hname]
  rfl

/-- The stored hashes are those of the recorded items. -/
structure TracksEntries (createValueHash : α → η) (c : Context) (s : RunState α η) : Prop where
  saved : HasEntries c s.table
  hashes : ∀ h, h ∈ storedHashes c s.table ↔ ∃ x ∈ s.history, createValueHash x = h

theorem limit_entries_of_le {maxEntries : Option Nat} {data : List η}
    (h : ∀ max, maxEntries = some max → max ≠ 0 → data.length ≤ max) :
    limitEntries maxEntries data = data := by
  unfold limitEntries
  split
  · rfl
  · rfl
  · rename_i max hne
    have hle := h max rfl hne
    rw [Nat.sub_eq_zero_of_le hle, List.drop_zero]

theorem TracksEntries.stored_iff (h : TracksEntries createValueHash c s) {items : List α}
    (hkeeps : ∀ item ∈ items, ∀ x ∈ s.history,
      createValueHash x = createValueHash item → item ∈ s.history) {item : α}
    (hitem : item ∈ items) :
    createValueHash item ∈ storedHashes c s.table ↔ item ∈ s.history := by
  rw [h.hashes]
  constructor
  · intro hsame
    obtain ⟨x, hx, heq⟩ := hsame
    exact hkeeps item hitem x hx heq
  · intro hmem
    exact ⟨item, hmem, rfl⟩

variable [DecidableEq η]

/-- A check in the mode `entries` compares the items' hashes with the stored ones and stores the
new ones. -/
theorem check_entries [LinearOrder κ] (h : HasEntries c table) (items : List α)
    (maxEntries : Option Nat) :
    checkOn createValueHash rank c .entries items maxEntries table =
      (.ok ⟨items.filter (createValueHash · ∉ storedHashes c table),
          items.filter (createValueHash · ∈ storedHashes c table)⟩,
        table.set c.key ⟨.entries,
          .entries (limitEntries maxEntries (recordedHashes createValueHash c items table))⟩) := by
  rw [check_on_eq, recordedHashes]
  cases hget : table.get? c.key with
  | none =>
    have hstored : storedHashes c table = [] := by rw [storedHashes, hget]
    simp [validateMode, handleHashedItems, hstored]
  | some value =>
    rw [h value hget]
    simp [validateMode, handleHashedItems]

theorem remove_entries (h : HasEntries c table) (items : List α) (maxEntries : Option Nat) :
    removeProcessed createValueHash items c.scope c.contextData ⟨.entries, maxEntries⟩ table =
      (.ok (), if table.get? c.key = none then table else
        table.set c.key ⟨.entries,
          .entries ((items.map createValueHash).foldl List.erase (storedHashes c table))⟩) := by
  have heq : removeProcessed createValueHash items c.scope c.contextData ⟨.entries, maxEntries⟩
      table =
        match table.get? c.key with
        | some ⟨mode, .entries data⟩ =>
          (.ok (), table.set c.key
            ⟨mode, .entries ((items.map createValueHash).foldl List.erase data)⟩)
        | _ => (.ok (), table) := by
    unfold removeProcessed
    rw [c.hname]
    simp only [reduceCtorEq, or_self, if_false, if_neg c.hid]
    rfl
  rw [heq]
  cases hget : table.get? c.key with
  | none => rfl
  | some value =>
    rw [h value hget]
    simp

theorem stored_hashes_removed (createValueHash : α → η) (h : HasEntries c table) (items : List α) :
    HasEntries c (if table.get? c.key = none then table else
        table.set c.key ⟨.entries,
          .entries ((items.map createValueHash).foldl List.erase (storedHashes c table))⟩) ∧
      storedHashes c (if table.get? c.key = none then table else
          table.set c.key ⟨.entries,
            .entries ((items.map createValueHash).foldl List.erase (storedHashes c table))⟩) =
        (items.map createValueHash).foldl List.erase (storedHashes c table) := by
  by_cases hget : table.get? c.key = none
  · have hstored : storedHashes c table = [] := by rw [storedHashes, hget]
    rw [if_pos hget, hstored, ← List.diff_eq_foldl, List.nil_diff]
    exact ⟨h, rfl⟩
  · rw [if_neg hget]
    exact stored_hashes_set c table _

variable [DecidableEq α]

theorem TracksEntries.step [LinearOrder κ] (h : TracksEntries createValueHash c s) (call : Call α)
    (hscope : InScope createValueHash rank c .entries s call)
    (hkeeps : KeepsTrack createValueHash c .entries s call)
    (hstep : step createValueHash rank c .entries s call = some s') :
    TracksEntries createValueHash c s' := by
  cases call with
  | check items maxEntries =>
    rw [Deduplication.step, check_entries h.saved] at hstep
    cases hstep
    obtain ⟨hsaved, hstored⟩ := stored_hashes_set c s.table
      (limitEntries maxEntries (recordedHashes createValueHash c items s.table))
    refine ⟨hsaved, fun hash => ?_⟩
    rw [hstored, limit_entries_of_le hscope, recordedHashes]
    constructor
    · intro hmem
      cases List.mem_append.mp hmem with
      | inl hold =>
        obtain ⟨x, hx, heq⟩ := (h.hashes hash).mp hold
        exact ⟨x, List.mem_append_left _ hx, heq⟩
      | inr hnew =>
        obtain ⟨x, hx, heq⟩ := List.mem_map.mp (List.mem_filter.mp hnew).1
        exact ⟨x, List.mem_append_right _ hx, heq⟩
    · intro hrecorded
      obtain ⟨x, hx, heq⟩ := hrecorded
      by_cases hold : hash ∈ storedHashes c s.table
      · exact List.mem_append_left _ hold
      · cases List.mem_append.mp hx with
        | inl hx => exact absurd ((h.hashes hash).mpr ⟨x, hx, heq⟩) hold
        | inr hx =>
          refine List.mem_append_right _ (List.mem_filter.mpr ⟨?_, decide_eq_true hold⟩)
          exact List.mem_map.mpr ⟨x, hx, heq⟩
  | remove items =>
    rw [Deduplication.step, remove_entries h.saved] at hstep
    cases hstep
    obtain ⟨hsaved, hstored⟩ := stored_hashes_removed createValueHash h.saved items
    refine ⟨hsaved, fun hash => ?_⟩
    rw [hstored, ← List.diff_eq_foldl, ← List.count_pos_iff, List.count_diff]
    have hkeeps := hkeeps rfl
    constructor
    · intro hcount
      have hpos : 0 < (storedHashes c s.table).count hash := by omega
      obtain ⟨x, hx, heq⟩ := (h.hashes hash).mp (List.count_pos_iff.mp hpos)
      refine ⟨x, List.mem_filter.mpr ⟨hx, decide_eq_true fun hitem => ?_⟩, heq⟩
      have hle := (hkeeps x hitem).1
      rw [heq] at hle
      omega
    · intro hrecorded
      obtain ⟨x, hx, heq⟩ := hrecorded
      obtain ⟨hx, hnot⟩ := List.mem_filter.mp hx
      have hpos := List.count_pos_iff.mpr ((h.hashes hash).mpr ⟨x, hx, heq⟩)
      -- No removed item has this hash, for `x` would have been listed with it.
      have hzero : (items.map createValueHash).count hash = 0 := by
        refine List.count_eq_zero.mpr fun hmem => ?_
        obtain ⟨item, hitem, hsame⟩ := List.mem_map.mp hmem
        exact of_decide_eq_true hnot ((hkeeps item hitem).2 x hx (heq.trans hsame.symm))
      omega
  | clear =>
    rw [Deduplication.step, clear_eq] at hstep
    cases hstep
    have hget : (s.table.delete c.key).get? c.key = none := by
      rw [InsertionMap.get_delete, if_pos rfl]
    refine ⟨fun value hvalue => ?_, fun hash => ?_⟩
    · rw [hget] at hvalue
      cases hvalue
    · rw [storedHashes, hget]
      simp

end Entries

section LatestModes

variable [LinearOrder κ] {items : List α} {a b d : α}

theorem compare_values_eq (hmode : mode ≠ .entries) (ha : (rank mode a).isSome)
    (hb : (rank mode b).isSome) :
    ∃ o, compareValues rank mode (some a) (some b) = .ok o ∧
      (o = .gt ↔ greater rank mode a b = true) := by
  obtain ⟨x, hx⟩ := Option.isSome_iff_exists.mp ha
  obtain ⟨y, hy⟩ := Option.isSome_iff_exists.mp hb
  cases mode with
  | entries => exact absurd rfl hmode
  | latestIncrementalKey =>
    refine ⟨if x = y then .eq else if x > y then .gt else .lt, ?_, ?_⟩
    · simp [compareValues, hx, hy]
    · by_cases heq : x = y
      · simp [greater, hx, hy, heq]
      · by_cases hgt : y < x <;> simp [greater, hx, hy, heq, hgt]
  | latestDate =>
    refine ⟨if x > y then .gt else .lt, ?_, ?_⟩
    · simp [compareValues, hx, hy]
    · by_cases hgt : y < x <;> simp [greater, hx, hy, hgt]

theorem precedes_of_not_greater (ha : (rank mode a).isSome) (hb : (rank mode b).isSome)
    (h : greater rank mode a b = false) : precedes rank mode a b = true := by
  obtain ⟨x, hx⟩ := Option.isSome_iff_exists.mp ha
  obtain ⟨y, hy⟩ := Option.isSome_iff_exists.mp hb
  simpa [greater, precedes, hx, hy] using h

theorem precedes_of_greater (h : greater rank mode a b = true) : precedes rank mode b a = true := by
  unfold greater at h
  unfold precedes
  cases hx : rank mode a with
  | none => simp [hx] at h
  | some x =>
    cases hy : rank mode b with
    | none => rfl
    | some y =>
      simp only [hx, hy, decide_eq_true_eq] at h
      exact decide_eq_true h.le

theorem greater_of_precedes (hd : (rank mode d).isSome) (h : greater rank mode a b = true)
    (hdb : precedes rank mode d b = true) : greater rank mode a d = true := by
  obtain ⟨z, hz⟩ := Option.isSome_iff_exists.mp hd
  unfold greater precedes at *
  cases hx : rank mode a with
  | none => simp [hx] at h
  | some x =>
    cases hy : rank mode b with
    | none => simp [hx, hy] at h
    | some y =>
      simp only [hx, hy, hz, decide_eq_true_eq] at h hdb ⊢
      exact lt_of_le_of_lt hdb h

theorem precedes_trans (hab : precedes rank mode a b = true) (hbd : precedes rank mode b d = true) :
    precedes rank mode a d = true := by
  unfold precedes at *
  cases hx : rank mode a with
  | none => rfl
  | some x =>
    cases hy : rank mode b with
    | none => simp [hx, hy] at hab
    | some y =>
      cases hz : rank mode d with
      | none => simp [hy, hz] at hbd
      | some z =>
        simp only [hx, hy, hz, decide_eq_true_eq] at hab hbd ⊢
        exact le_trans hab hbd

theorem precedes_total (a b : α) :
    (precedes rank mode a b || precedes rank mode b a) = true := by
  unfold precedes
  cases rank mode a <;> cases rank mode b <;> simp [le_total]

theorem precedes_refl (a : α) : precedes rank mode a a = true := by
  unfold precedes
  cases rank mode a <;> simp

theorem sort_entries_eq (hmode : mode ≠ .entries)
    (hvalid : ∀ item ∈ items, (rank mode item).isSome) :
    ∃ sorted, sortEntries rank items mode = .ok sorted ∧ sorted.Perm items ∧
      sorted.Pairwise fun a b => precedes rank mode a b = true := by
  unfold sortEntries
  by_cases hshort : items.length ≤ 1
  · rw [if_pos hshort]
    refine ⟨items, rfl, .refl items, ?_⟩
    match items, hshort with
    | [], _ => exact List.Pairwise.nil
    | [item], _ => exact List.pairwise_singleton _ item
  · have hnone : items.findSome? (invalidItem rank mode) = none := by
      refine List.findSome?_eq_none_iff.mpr fun item hitem => ?_
      obtain ⟨o, ho, -⟩ := compare_values_eq hmode (hvalid item hitem) (hvalid item hitem)
      rw [invalidItem, ho]
    rw [if_neg hshort, hnone]
    refine ⟨_, rfl, List.mergeSort_perm items _, ?_⟩
    exact List.pairwise_mergeSort (fun _ _ _ => precedes_trans) precedes_total items

theorem latest_round_eq (hmode : mode ≠ .entries) {stored largest item : α}
    (hstored : (rank mode stored).isSome) (hlargest : (rank mode largest).isSome)
    (hitem : (rank mode item).isSome) (out : DeduplicationOutput α) :
    latestRound rank mode (some stored) (out, some largest) item =
      .ok (if greater rank mode item stored then
          (⟨out.new ++ [item], out.processed⟩,
            some (if greater rank mode item largest then item else largest))
        else (⟨out.new, out.processed ++ [item]⟩, some largest)) := by
  obtain ⟨o, ho, hgt⟩ := compare_values_eq hmode hitem hstored
  obtain ⟨o', ho', hgt'⟩ := compare_values_eq hmode hitem hlargest
  unfold latestRound
  simp only [ho, ho', bind, Except.bind]
  by_cases h : o = .gt
  · rw [if_pos h, if_pos (hgt.mp h)]
    by_cases h' : o' = .gt
    · rw [if_pos h', if_pos (hgt'.mp h')]
    · rw [if_neg h', if_neg fun hgreater => h' (hgt'.mpr hgreater)]
  · rw [if_neg h, if_neg fun hgreater => h (hgt.mpr hgreater)]

/-- The rounds over a batch of numbers or dates: the items greater than the stored value are new,
and the value stored next is one of the values, which all others precede. -/
theorem latest_rounds_eq (hmode : mode ≠ .entries) {stored largest : α}
    (hstored : (rank mode stored).isSome) (hlargest : (rank mode largest).isSome)
    (hle : precedes rank mode stored largest = true)
    (hvalid : ∀ item ∈ items, (rank mode item).isSome) (out : DeduplicationOutput α) :
    ∃ last, items.foldlM (latestRound rank mode (some stored)) (out, some largest) =
        .ok (⟨out.new ++ items.filter (greater rank mode · stored),
          out.processed ++ items.filter (!greater rank mode · stored)⟩, some last) ∧
      (last = largest ∨ last ∈ items) ∧ precedes rank mode largest last = true ∧
      ∀ item ∈ items, precedes rank mode item last = true := by
  induction items generalizing largest out with
  | nil =>
    exact ⟨largest, by simp [pure, Except.pure], .inl rfl, precedes_refl largest, by simp⟩
  | cons item rest ih =>
    have hitem := hvalid item (by simp)
    have hrest := fun x hx => hvalid x (List.mem_cons_of_mem item hx)
    rw [List.foldlM_cons, latest_round_eq hmode hstored hlargest hitem]
    by_cases hnew : greater rank mode item stored = true
    · by_cases hmore : greater rank mode item largest = true
      · have hafter := precedes_of_greater hmore
        obtain ⟨last, hrun, hlast, hle', hall⟩ := ih hitem (precedes_trans hle hafter) hrest
          ⟨out.new ++ [item], out.processed⟩
        refine ⟨last, ?_, ?_, precedes_trans hafter hle', ?_⟩
        · rw [if_pos hnew, if_pos hmore]
          simpa [hnew, bind, Except.bind] using hrun
        · exact .inr (by simpa using hlast)
        · simpa [hle'] using hall
      · have hbefore := precedes_of_not_greater hitem hlargest (by simpa using hmore)
        obtain ⟨last, hrun, hlast, hle', hall⟩ := ih hlargest hle hrest
          ⟨out.new ++ [item], out.processed⟩
        refine ⟨last, ?_, hlast.imp_right (List.mem_cons_of_mem item), hle', ?_⟩
        · rw [if_pos hnew, if_neg hmore]
          simpa [hnew, bind, Except.bind] using hrun
        · simpa [precedes_trans hbefore hle'] using hall
    · have hbefore := precedes_of_not_greater hitem hstored (by simpa using hnew)
      obtain ⟨last, hrun, hlast, hle', hall⟩ := ih hlargest hle hrest
        ⟨out.new, out.processed ++ [item]⟩
      refine ⟨last, ?_, hlast.imp_right (List.mem_cons_of_mem item), hle', ?_⟩
      · rw [if_neg hnew]
        simpa [hnew, bind, Except.bind] using hrun
      · simpa [precedes_trans (precedes_trans hbefore hle) hle'] using hall

/-- Nothing is stored before the first batch, and later the largest item of all batches. -/
def TracksLatest (rank : DeduplicationMode → α → Option κ) (c : Context) (mode : DeduplicationMode)
    (s : RunState α η) : Prop :=
  (∀ item ∈ s.history, (rank mode item).isSome) ∧
    ((s.table.get? c.key = none ∧ s.history = []) ∨
      ∃ latest, s.table.get? c.key = some ⟨mode, .latest (some latest)⟩ ∧ latest ∈ s.history ∧
        ∀ item ∈ s.history, precedes rank mode item latest = true)

theorem check_latest_first [DecidableEq η] (createValueHash : α → η) (hmode : mode ≠ .entries)
    (hget : table.get? c.key = none) (hne : items ≠ [])
    (hvalid : ∀ item ∈ items, (rank mode item).isSome) (maxEntries : Option Nat) :
    ∃ latest ∈ items, (∀ item ∈ items, precedes rank mode item latest = true) ∧
      checkOn createValueHash rank c mode items maxEntries table =
        (.ok ⟨items, []⟩, table.set c.key ⟨mode, .latest (some latest)⟩) := by
  obtain ⟨sorted, hsort, hperm, hpairwise⟩ := sort_entries_eq hmode hvalid
  have hne' : sorted ≠ [] := fun hnil => hne (List.nil_perm.mp (hnil ▸ hperm))
  refine ⟨sorted.getLast hne', hperm.mem_iff.mp (List.getLast_mem hne'), fun item hitem => ?_, ?_⟩
  · have hmem := hperm.mem_iff.mpr hitem
    rw [← List.dropLast_append_getLast hne'] at hmem hpairwise
    cases List.mem_append.mp hmem with
    | inl hbefore =>
      exact (List.pairwise_append.mp hpairwise).2.2 item hbefore _ (List.mem_singleton.mpr rfl)
    | inr hlast =>
      rw [List.mem_singleton.mp hlast]
      exact precedes_refl _
  · have hlatest : mode = .latestIncrementalKey ∨ mode = .latestDate := by
      cases mode <;> simp at hmode ⊢
    rw [check_on_eq, hget]
    simp only [validateMode, if_pos hlatest, handleLatestModes, hsort,
      List.getLast?_eq_some_getLast hne']

theorem check_latest_next [DecidableEq η] (createValueHash : α → η) (hmode : mode ≠ .entries)
    {latest : α} (hget : table.get? c.key = some ⟨mode, .latest (some latest)⟩)
    (hlatest : (rank mode latest).isSome)
    (hvalid : ∀ item ∈ items, (rank mode item).isSome) (maxEntries : Option Nat) :
    ∃ out last, (last = latest ∨ last ∈ items) ∧ precedes rank mode latest last = true ∧
      (∀ item ∈ items, precedes rank mode item last = true) ∧
      out.new.Perm (items.filter (greater rank mode · latest)) ∧
      out.processed.Perm (items.filter (!greater rank mode · latest)) ∧
      checkOn createValueHash rank c mode items maxEntries table =
        (.ok out, table.set c.key ⟨mode, .latest (some last)⟩) := by
  obtain ⟨sorted, hsort, hperm, -⟩ := sort_entries_eq hmode hvalid
  obtain ⟨last, hrun, hlast, hle, hall⟩ := latest_rounds_eq hmode hlatest hlatest
    (precedes_refl latest) (fun item hitem => hvalid item (hperm.mem_iff.mp hitem)) ⟨[], []⟩
  refine ⟨⟨sorted.filter (greater rank mode · latest), sorted.filter (!greater rank mode · latest)⟩,
    last, hlast.imp_right hperm.mem_iff.mp, hle,
    fun item hitem => hall item (hperm.mem_iff.mpr hitem), hperm.filter _, hperm.filter _, ?_⟩
  have hlatestMode : mode = .latestIncrementalKey ∨ mode = .latestDate := by
    cases mode <;> simp at hmode ⊢
  rw [check_on_eq, hget]
  simp only [validateMode, ne_eq, not_true, if_false, if_pos hlatestMode, handleLatestModes,
    hsort, hrun, List.nil_append]

variable [DecidableEq α] [DecidableEq η]

omit [LinearOrder κ] [DecidableEq α] in
theorem InScope.latest {maxEntries : Option Nat} (hmode : mode ≠ .entries)
    (h : InScope createValueHash rank c mode s (.check items maxEntries)) :
    ∀ item ∈ items, (rank mode item).isSome := by
  cases mode with
  | entries => exact absurd rfl hmode
  | latestIncrementalKey => exact h
  | latestDate => exact h

omit [LinearOrder κ] [DecidableEq α] in
theorem KeepsTrack.latest {maxEntries : Option Nat} (hmode : mode ≠ .entries)
    (h : KeepsTrack createValueHash c mode s (.check items maxEntries)) :
    s.table.get? c.key = none → items ≠ [] := by
  cases mode with
  | entries => exact absurd rfl hmode
  | latestIncrementalKey => exact h
  | latestDate => exact h

theorem TracksLatest.step (h : TracksLatest rank c mode s) (hmode : mode ≠ .entries)
    (call : Call α) (hscope : InScope createValueHash rank c mode s call)
    (hkeeps : KeepsTrack createValueHash c mode s call)
    (hstep : step createValueHash rank c mode s call = some s') : TracksLatest rank c mode s' := by
  obtain ⟨hvalid, hstored⟩ := h
  cases call with
  | check items maxEntries =>
    have hitems : ∀ item ∈ items, (rank mode item).isSome := InScope.latest hmode hscope
    have hall : ∀ item ∈ s.history ++ items, (rank mode item).isSome := by
      intro item hitem
      cases List.mem_append.mp hitem with
      | inl hitem => exact hvalid item hitem
      | inr hitem => exact hitems item hitem
    cases hstored with
    | inl hnone =>
      obtain ⟨hget, hhistory⟩ := hnone
      have hne : items ≠ [] := KeepsTrack.latest hmode hkeeps hget
      obtain ⟨latest, hmem, hprecedes, hcheck⟩ :=
        check_latest_first createValueHash hmode hget hne hitems maxEntries
      rw [Deduplication.step, hcheck] at hstep
      cases hstep
      refine ⟨hall, .inr ⟨latest, InsertionMap.get_set_same _ _ _, ?_, ?_⟩⟩
      · exact List.mem_append_right _ hmem
      · rw [hhistory, List.nil_append]
        exact hprecedes
    | inr hsome =>
      obtain ⟨latest, hget, hmem, hprecedes⟩ := hsome
      obtain ⟨out, last, hlast, hle, hafter, -, -, hcheck⟩ :=
        check_latest_next createValueHash hmode hget (hvalid latest hmem)
          hitems maxEntries
      rw [Deduplication.step, hcheck] at hstep
      cases hstep
      refine ⟨hall, .inr ⟨last, InsertionMap.get_set_same _ _ _, ?_, fun item hitem => ?_⟩⟩
      · cases hlast with
        | inl hlast => exact List.mem_append_left _ (hlast ▸ hmem)
        | inr hlast => exact List.mem_append_right _ hlast
      · cases List.mem_append.mp hitem with
        | inl hitem => exact precedes_trans (hprecedes item hitem) hle
        | inr hitem => exact hafter item hitem
  | remove items =>
    have hlatestMode : mode = .latestIncrementalKey ∨ mode = .latestDate := by
      cases mode <;> simp at hmode ⊢
    rw [Deduplication.step, removeProcessed, if_pos hlatestMode] at hstep
    cases hstep
    exact ⟨hvalid, hstored⟩
  | clear =>
    rw [Deduplication.step, clear_eq] at hstep
    cases hstep
    refine ⟨by simp, .inl ⟨?_, rfl⟩⟩
    rw [InsertionMap.get_delete, if_pos rfl]

end LatestModes

section Runs

variable [DecidableEq α] [DecidableEq η] [LinearOrder κ]

/-- The table holds what the mode remembers of the history. -/
def Tracks (createValueHash : α → η) (rank : DeduplicationMode → α → Option κ) (c : Context)
    (mode : DeduplicationMode) (s : RunState α η) : Prop :=
  (mode = .entries → TracksEntries createValueHash c s) ∧
    (mode ≠ .entries → TracksLatest rank c mode s)

theorem Tracks.reports (h : Tracks createValueHash rank c mode s) (items : List α)
    (maxEntries : Option Nat)
    (hscope : InScope createValueHash rank c mode s (.check items maxEntries))
    (hkeeps : KeepsTrack createValueHash c mode s (.check items maxEntries)) :
    ReportsHistory createValueHash rank c mode s items maxEntries := by
  by_cases hmode : mode = .entries
  · subst hmode
    have htracks := h.1 rfl
    refine ⟨_, by rw [check_entries htracks.saved], ?_, ?_⟩
    · refine .of_eq (List.filter_congr fun item hitem => ?_)
      simp only [isNew, htracks.stored_iff hkeeps hitem]
    · refine .of_eq (List.filter_congr fun item hitem => ?_)
      simp only [isNew, htracks.stored_iff hkeeps hitem, decide_not, Bool.not_not]
  · obtain ⟨hvalid, hstored⟩ := h.2 hmode
    have hitems : ∀ item ∈ items, (rank mode item).isSome := InScope.latest hmode hscope
    have hisNew :
        isNew rank mode s.history = fun item => s.history.all (greater rank mode item) := by
      cases mode with
      | entries => exact absurd rfl hmode
      | latestIncrementalKey => rfl
      | latestDate => rfl
    unfold ReportsHistory
    rw [hisNew]
    cases hstored with
    | inl hnone =>
      obtain ⟨hget, hhistory⟩ := hnone
      have hne : items ≠ [] := KeepsTrack.latest hmode hkeeps hget
      obtain ⟨latest, -, -, hcheck⟩ := check_latest_first createValueHash
        hmode hget hne hitems maxEntries
      refine ⟨_, by rw [hcheck], ?_, ?_⟩ <;> simp [hhistory]
    | inr hsome =>
      obtain ⟨latest, hget, hmem, hprecedes⟩ := hsome
      obtain ⟨out, last, -, -, -, hnew, hprocessed, hcheck⟩ :=
        check_latest_next createValueHash hmode hget (hvalid latest hmem)
          hitems maxEntries
      -- To be greater than all items of the history is to be greater than the latest one.
      have hsame : ∀ item ∈ items,
          greater rank mode item latest = s.history.all (greater rank mode item) := by
        intro item hitem
        rw [Bool.eq_iff_iff, List.all_eq_true]
        constructor
        · intro hgreater x hx
          exact greater_of_precedes (hvalid x hx) hgreater (hprecedes x hx)
        · intro hall
          exact hall latest hmem
      refine ⟨out, by rw [hcheck], ?_, ?_⟩
      · rwa [List.filter_congr hsame] at hnew
      · rwa [List.filter_congr fun item hitem => congrArg (!·) (hsame item hitem)] at hprocessed

variable {start : RunState α η}

/-- Over every run of calls on a context in one mode that starts without data for the context, and
whose calls all keep track, a check reports as new and as processed exactly the items that the
history says. -/
theorem checks_report_history (hempty : start.table.get? c.key = none)
    (hhistory : start.history = [])
    (h : Reachable (step createValueHash rank c mode)
      (fun s call => InScope createValueHash rank c mode s call ∧
        KeepsTrack createValueHash c mode s call) start s)
    (items : List α) (maxEntries : Option Nat)
    (hscope : InScope createValueHash rank c mode s (.check items maxEntries))
    (hkeeps : KeepsTrack createValueHash c mode s (.check items maxEntries)) :
    ReportsHistory createValueHash rank c mode s items maxEntries := by
  have htracks : Tracks createValueHash rank c mode s := by
    refine h.keeps (Tracks createValueHash rank c mode) ⟨fun _ => ?_, fun _ => ?_⟩ ?_
    · refine ⟨fun value hvalue => ?_, fun hash => ?_⟩
      · rw [hempty] at hvalue
        cases hvalue
      · rw [storedHashes, hempty, hhistory]
        simp
    · refine ⟨?_, .inl ⟨hempty, hhistory⟩⟩
      rw [hhistory]
      simp
    · intro s call s' htracks hallowed hstep
      refine ⟨fun hmode => ?_, fun hmode => ?_⟩
      · subst hmode
        exact (htracks.1 rfl).step call hallowed.1 hallowed.2 hstep
      · exact (htracks.2 hmode).step hmode call hallowed.1 hallowed.2 hstep
  exact htracks.reports items maxEntries hscope hkeeps

/-- A context of a workflow. -/
def workflowContext : Context :=
  ⟨.workflow, ⟨none, ['w']⟩, [], rfl, by decide⟩

/-- The state before any call. -/
def noCalls : RunState Nat Nat := ⟨InsertionMap.empty, []⟩

/-- After the batch `1, 2` the batch `2, 3` has the one new item `3`. -/
theorem checks_report_overlap :
    ReportsHistory id (fun _ n => some n) workflowContext .entries
      ⟨(checkOn id (fun _ n => some n) workflowContext .entries [1, 2] none
        (InsertionMap.empty : ProcessedTable Nat Nat)).2, [1, 2]⟩ [2, 3] none := by
  refine checks_report_history (show noCalls.table.get? workflowContext.key = none from rfl) rfl
    (.next .start (e := .check [1, 2] none) ⟨?_, ?_⟩ rfl) [2, 3] none ?_ ?_
  · intro max hmax
    cases hmax
  · intro item _ x hx
    cases hx
  · intro max hmax
    cases hmax
  · intro item hitem x hx heq
    exact (show x = item from heq) ▸ hx

/-- An item that occurs twice in a batch is still processed after it was removed. -/
theorem checks_forget_removal :
    ¬ ∀ (createValueHash : Nat → Nat) (rank : DeduplicationMode → Nat → Option Nat) (c : Context)
      (mode : DeduplicationMode) (start s : RunState Nat Nat), start.table.get? c.key = none →
      start.history = [] →
      Reachable (step createValueHash rank c mode) (InScope createValueHash rank c mode) start s →
      ∀ (items : List Nat) (maxEntries : Option Nat),
        InScope createValueHash rank c mode s (.check items maxEntries) →
        ReportsHistory createValueHash rank c mode s items maxEntries := by
  intro h
  obtain ⟨out, hout, hnew, -⟩ := h id (fun _ n => some n) workflowContext .entries
    noCalls _ rfl rfl
    (.next (.next .start (e := .check [7, 7] none) (fun max hmax => by cases hmax) rfl)
      (e := .remove [7]) trivial rfl) [7] none (fun max hmax => by cases hmax)
  cases hout
  exact absurd hnew.length_eq (by decide)

end Runs

end N8n.Deduplication
