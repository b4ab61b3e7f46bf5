import Mathlib

/-!
# Sums over rows

The sum of a column over the rows that meet a condition, and over the groups of a grouping. Grouping
the rows by a key and summing over each group keeps the sum over the rows whose key meets a
condition.
-/

namespace N8n.Collections

variable {ρ κ : Type}

/-- `SUM(value)` over the rows that meet a condition. -/
def sumWhere (p : ρ → Bool) (value : ρ → Int) (rows : List ρ) : Int :=
  ((rows.filter p).map value).sum

section Sums

variable {p q : ρ → Bool} {value : ρ → Int} {rows rows' : List ρ}

@[simp] theorem sumWhere_nil (p : ρ → Bool) (value : ρ → Int) : sumWhere p value [] = 0 := rfl

theorem sumWhere_cons (p : ρ → Bool) (value : ρ → Int) (row : ρ) (rows : List ρ) :
    sumWhere p value (row :: rows) =
      (if p row then value row else 0) + sumWhere p value rows := by
  by_cases h : p row = true
  · simp [sumWhere, h]
  · simp [sumWhere, h]

theorem sumWhere_append (p : ρ → Bool) (value : ρ → Int) (rows rows' : List ρ) :
    sumWhere p value (rows ++ rows') = sumWhere p value rows + sumWhere p value rows' := by
  simp [sumWhere]

theorem sumWhere_perm (h : rows.Perm rows') : sumWhere p value rows = sumWhere p value rows' :=
  ((h.filter p).map value).sum_eq

theorem sumWhere_map {σ : Type} (f : σ → ρ) (p : ρ → Bool) (value : ρ → Int) (rows : List σ) :
    sumWhere p value (rows.map f) =
      sumWhere (fun row => p (f row)) (fun row => value (f row)) rows := by
  induction rows with
  | nil => rfl
  | cons row rows ih => rw [List.map_cons, sumWhere_cons, sumWhere_cons, ih]

theorem sumWhere_congr (h : ∀ row ∈ rows, p row = q row) :
    sumWhere p value rows = sumWhere q value rows := by
  rw [sumWhere, sumWhere, List.filter_congr h]

theorem sumWhere_eq_zero (h : ∀ row ∈ rows, p row = false) : sumWhere p value rows = 0 := by
  rw [sumWhere, List.filter_eq_nil_iff.mpr fun row hrow => by simp [h row hrow]]
  rfl

theorem sumWhere_partition (p q : ρ → Bool) (value : ρ → Int) (rows : List ρ) :
    sumWhere p value rows =
      sumWhere p value (rows.filter q) + sumWhere p value (rows.filter fun row => !q row) := by
  rw [← sumWhere_append]
  exact sumWhere_perm (List.filter_append_perm q rows).symm

/-- A condition that is one of two which exclude each other. -/
theorem sumWhere_or (h : ∀ row ∈ rows, p row = true → q row = false) :
    sumWhere (fun row => p row || q row) value rows =
      sumWhere p value rows + sumWhere q value rows := by
  induction rows with
  | nil => rfl
  | cons row rows ih =>
    rw [sumWhere_cons, sumWhere_cons, sumWhere_cons,
      ih fun row' hrow' => h row' (List.mem_cons_of_mem _ hrow')]
    have hrow := h row (List.mem_cons_self ..)
    cases hp : p row <;> cases hq : q row
    · simp
    · simp only [Bool.or_true, if_true, Bool.false_eq_true, if_false]
      omega
    · simp only [Bool.or_false, if_true, Bool.false_eq_true, if_false]
      omega
    · rw [hrow hp] at hq
      cases hq

theorem sumWhere_key {κ : Type} [DecidableEq κ] {key : ρ → κ} (value : ρ → Int)
    (hkeys : (rows.map key).Nodup) {row : ρ} (hrow : row ∈ rows) :
    sumWhere (fun other => decide (key other = key row)) value rows = value row := by
  induction rows with
  | nil => cases hrow
  | cons first rows ih =>
    obtain ⟨hfirst, hkeys⟩ := List.nodup_cons.mp hkeys
    rw [sumWhere_cons]
    obtain rfl | hrow := List.mem_cons.mp hrow
    · have hothers : ∀ other ∈ rows, decide (key other = key row) = false := fun other hother =>
        decide_eq_false fun heq => hfirst (heq ▸ List.mem_map_of_mem hother)
      rw [sumWhere_eq_zero hothers, if_pos (decide_eq_true rfl), Int.add_zero]
    · have hne : key first ≠ key row := fun heq =>
        hfirst (heq ▸ List.mem_map_of_mem hrow)
      rw [if_neg (by simpa using hne), ih hkeys hrow, Int.zero_add]

theorem sumWhere_add {κ : Type} [DecidableEq κ] {key : ρ → κ} (add : ρ → ρ) {k : κ} {v : Int}
    (hkeys : (rows.map key).Nodup) (hk : k ∈ rows.map key)
    (hadd : ∀ row, p (add row) = p row ∧ value (add row) = value row + v) {b : Bool}
    (hb : ∀ row, key row = k → p row = b) :
    sumWhere p value (rows.map fun row => if decide (key row = k) then add row else row) =
      sumWhere p value rows + if b then v else 0 := by
  induction rows with
  | nil => cases hk
  | cons first rows ih =>
    obtain ⟨hfirst, hkeys⟩ := List.nodup_cons.mp hkeys
    rw [List.map_cons, sumWhere_cons, sumWhere_cons]
    by_cases hkey : key first = k
    · -- the others have other keys
      have hothers : (rows.map fun row => if decide (key row = k) then add row else row) =
          rows := by
        refine (List.map_congr_left fun row hrow => ?_).trans (List.map_id rows)
        have hne : key row ≠ k := fun heq =>
          hfirst (hkey.trans heq.symm ▸ List.mem_map_of_mem hrow)
        exact if_neg (by simpa using hne)
      rw [hothers, if_pos (decide_eq_true hkey), (hadd first).1, (hadd first).2, hb first hkey]
      cases b
      · simp
      · simp only [if_true]
        omega
    · have hk' : k ∈ rows.map key := (List.mem_cons.mp hk).resolve_left (Ne.symm hkey)
      have hsame : (if decide (key first = k) then add first else first) = first :=
        if_neg (by simpa using hkey)
      rw [ih hkeys hk', hsame, Int.add_assoc]

end Sums

section Groups

variable [DecidableEq κ] (key : ρ → κ) (value : ρ → Int)

/-- `SELECT key, SUM(value) FROM rows GROUP BY key`. -/
def groupSums (rows : List ρ) : List (κ × Int) :=
  (rows.map key).dedup.map fun k => (k, sumWhere (fun row => decide (key row = k)) value rows)

theorem groupSums_keys (rows : List ρ) :
    (groupSums key value rows).map Prod.fst = (rows.map key).dedup := by
  rw [groupSums, List.map_map]
  exact List.map_id _

theorem sum_groups {keys : List κ} (hkeys : keys.Nodup) (rows : List ρ) :
    (keys.map fun k => sumWhere (fun row => decide (key row = k)) value rows).sum =
      sumWhere (fun row => decide (key row ∈ keys)) value rows := by
  induction keys with
  | nil =>
    rw [sumWhere_eq_zero fun row _ => by simp]
    rfl
  | cons k keys ih =>
    obtain ⟨hk, hkeys⟩ := List.nodup_cons.mp hkeys
    rw [List.map_cons, List.sum_cons, ih hkeys, ← sumWhere_or]
    · refine sumWhere_congr fun row _ => ?_
      simp
    · intro row _ heq
      have hkey : key row = k := of_decide_eq_true heq
      exact decide_eq_false (hkey ▸ hk)

theorem sumWhere_groupSums (q : κ → Bool) (rows : List ρ) :
    sumWhere (fun group => q group.1) Prod.snd (groupSums key value rows) =
      sumWhere (fun row => q (key row)) value rows := by
  have hgroups : sumWhere (fun group => q group.1) Prod.snd (groupSums key value rows) =
      (((rows.map key).dedup.filter q).map fun k =>
        sumWhere (fun row => decide (key row = k)) value rows).sum := by
    rw [groupSums, sumWhere_map]
    rfl
  rw [hgroups, sum_groups key value ((List.nodup_dedup _).filter _)]
  refine sumWhere_congr fun row hrow => ?_
  have hmem : key row ∈ (rows.map key).dedup :=
    List.mem_dedup.mpr (List.mem_map_of_mem hrow)
  simp [List.mem_filter, hmem]

end Groups

end N8n.Collections
