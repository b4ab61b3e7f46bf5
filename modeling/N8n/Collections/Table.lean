import N8n.Collections.Fallible
import Mathlib.Data.List.Nodup

/-!
# Tables with a primary key

A table is a list of rows whose keys differ, by a field of the structure. An update overwrites the
row with the key or adds the row, a deletion takes rows out, and an insertion fails when a key is
taken. Each operation comes with the rows that the table has after it.
-/

namespace N8n.Collections

/-- The rows of a table. No two have one key. -/
structure Table {ρ κ : Type} (key : ρ → κ) where
  rows : List ρ
  unique : (rows.map key).Nodup

/-- The error of an insertion whose key is taken. -/
structure UniqueViolation (κ : Type) where
  key : κ
  deriving DecidableEq, Repr

namespace Table

variable {ρ κ : Type} {key : ρ → κ}

/-- The rows that satisfy a condition. -/
def findBy (t : Table key) (p : ρ → Bool) : List ρ := t.rows.filter p

/-- Delete the rows that satisfy a condition. -/
def delete (t : Table key) (p : ρ → Bool) : Table key :=
  ⟨t.rows.filter fun row => !p row, t.unique.sublist (List.filter_sublist.map key)⟩

/-- Change the rows that satisfy a condition, without changing their keys. -/
def update (t : Table key) (p : ρ → Bool) (f : ρ → ρ) (hkey : ∀ row, key (f row) = key row) :
    Table key where
  rows := t.rows.map fun row => if p row then f row else row
  unique := by
    have hkeys : (t.rows.map fun row => if p row then f row else row).map key =
        t.rows.map key := by
      rw [List.map_map]
      refine List.map_congr_left fun row _ => ?_
      by_cases h : p row <;> simp [h, hkey]
    rw [hkeys]
    exact t.unique

variable {row : ρ} {t : Table key}

@[simp] theorem mem_findBy {p : ρ → Bool} : row ∈ t.findBy p ↔ row ∈ t.rows ∧ p row = true :=
  List.mem_filter

@[simp] theorem mem_delete {p : ρ → Bool} :
    row ∈ (t.delete p).rows ↔ row ∈ t.rows ∧ p row = false := by
  simp [delete]

theorem mem_update {p : ρ → Bool} {f : ρ → ρ} {hkey : ∀ row, key (f row) = key row} :
    row ∈ (t.update p f hkey).rows ↔ ∃ old ∈ t.rows, (if p old then f old else old) = row :=
  List.mem_map

theorem row_unique (t : Table key) {row' : ρ} (h : row ∈ t.rows) (h' : row' ∈ t.rows)
    (hkey : key row = key row') : row = row' :=
  List.inj_on_of_nodup_map t.unique h h' hkey

theorem findBy_unique (t : Table key) (p : ρ → Bool) : ((t.findBy p).map key).Nodup :=
  t.unique.sublist (List.filter_sublist.map key)

variable [DecidableEq κ]

/-- Write a row over the one with its key, or add it. -/
def upsertRow (t : Table key) (row : ρ) : Table key where
  rows :=
    if key row ∈ t.rows.map key then t.rows.map fun old => if key old = key row then row else old
    else t.rows ++ [row]
  unique := by
    split
    · have hkeys : (t.rows.map fun old => if key old = key row then row else old).map key =
          t.rows.map key := by
        rw [List.map_map]
        refine List.map_congr_left fun old _ => ?_
        by_cases h : key old = key row <;> simp [h]
      rw [hkeys]
      exact t.unique
    · rename_i hfree
      rw [List.map_append]
      refine List.Nodup.append t.unique (List.nodup_singleton _) fun k hk hmem => ?_
      exact hfree (List.mem_singleton.mp hmem ▸ hk)

/-- Write rows one after the other. -/
def upsert (t : Table key) (values : List ρ) : Table key := values.foldl upsertRow t

/-- Add a row whose key is free. -/
def insertRow (t : Table key) (row : ρ) : Except (UniqueViolation κ) (Table key) :=
  if h : key row ∈ t.rows.map key then .error ⟨key row⟩
  else .ok {
    rows := t.rows ++ [row]
    unique := by
      rw [List.map_append]
      refine List.Nodup.append t.unique (List.nodup_singleton _) fun k hk hmem => ?_
      exact h (List.mem_singleton.mp hmem ▸ hk) }

/-- Add rows. A statement that fails adds none. -/
def insert (t : Table key) (values : List ρ) : Except (UniqueViolation κ) (Table key) :=
  values.foldlM insertRow t

theorem mem_upsertRow {x : ρ} :
    x ∈ (t.upsertRow row).rows ↔ x = row ∨ x ∈ t.rows ∧ key x ≠ key row := by
  by_cases htaken : key row ∈ t.rows.map key
  · simp only [upsertRow, htaken, if_true, List.mem_map]
    constructor
    · intro h
      obtain ⟨old, hold, heq⟩ := h
      by_cases hkey : key old = key row
      · rw [if_pos hkey] at heq
        exact .inl heq.symm
      · rw [if_neg hkey] at heq
        exact .inr (heq ▸ ⟨hold, hkey⟩)
    · rintro (rfl | ⟨hx, hkey⟩)
      · obtain ⟨old, hold, hkey⟩ := List.mem_map.mp htaken
        exact ⟨old, hold, if_pos hkey⟩
      · exact ⟨x, hx, if_neg hkey⟩
  · simp only [upsertRow, htaken, if_false, List.mem_append, List.mem_singleton]
    constructor
    · rintro (hx | rfl)
      · refine .inr ⟨hx, fun hkey => htaken ?_⟩
        exact List.mem_map.mpr ⟨x, hx, hkey⟩
      · exact .inl rfl
    · rintro (rfl | ⟨hx, -⟩)
      · exact .inr rfl
      · exact .inl hx

theorem mem_upsert {values : List ρ} (hvalues : (values.map key).Nodup) {x : ρ} :
    x ∈ (t.upsert values).rows ↔ x ∈ values ∨ x ∈ t.rows ∧ key x ∉ values.map key := by
  induction values generalizing t with
  | nil => simp [upsert]
  | cons row rest ih =>
    obtain ⟨hrow, hrest⟩ := List.nodup_cons.mp hvalues
    show x ∈ ((t.upsertRow row).upsert rest).rows ↔ _
    rw [ih hrest, mem_upsertRow, List.map_cons, List.mem_cons, List.mem_cons, not_or]
    constructor
    · rintro (hx | ⟨rfl | ⟨hx, hne⟩, hfree⟩)
      · exact .inl (.inr hx)
      · exact .inl (.inl rfl)
      · exact .inr ⟨hx, hne, hfree⟩
    · rintro ((rfl | hx) | ⟨hx, hne, hfree⟩)
      · exact .inr ⟨.inl rfl, hrow⟩
      · exact .inl hx
      · exact .inr ⟨.inr ⟨hx, hne⟩, hfree⟩

theorem insertRow_eq_ok (t : Table key) (hfree : key row ∉ t.rows.map key) :
    ∃ t', t.insertRow row = .ok t' ∧ t'.rows = t.rows ++ [row] :=
  ⟨_, dif_neg hfree, rfl⟩

theorem insert_eq_ok (t : Table key) (values : List ρ) (hvalues : (values.map key).Nodup)
    (hfree : ∀ row ∈ values, key row ∉ t.rows.map key) :
    ∃ t', t.insert values = .ok t' ∧ t'.rows = t.rows ++ values := by
  induction values generalizing t with
  | nil => exact ⟨t, rfl, (List.append_nil t.rows).symm⟩
  | cons row rest ih =>
    obtain ⟨hrow, hrest⟩ := List.nodup_cons.mp hvalues
    obtain ⟨middle, hmiddle, hrows⟩ := t.insertRow_eq_ok (hfree row (by simp))
    have hfree' : ∀ row' ∈ rest, key row' ∉ middle.rows.map key := by
      intro row' hrow' hmem
      rw [hrows, List.map_append, List.mem_append] at hmem
      rcases hmem with hmem | hmem
      · exact hfree row' (by simp [hrow']) hmem
      · refine hrow (List.mem_map.mpr ⟨row', hrow', ?_⟩)
        simpa using hmem
    obtain ⟨last, hlast, hrows'⟩ := ih middle hrest hfree'
    refine ⟨last, ?_, ?_⟩
    · rw [insert, List.foldlM_cons]
      exact bind_eq_ok.mpr ⟨middle, hmiddle, hlast⟩
    · rw [hrows', hrows, List.append_assoc]
      rfl

end Table

end N8n.Collections
