import Mathlib.Data.List.Basic

/-!
# Maps from indexes

`IndexMap ν` is a finite map from natural numbers, its entries in ascending order of their
indexes, as the integer-like keys of a JavaScript object (and the elements of a sparse array)
are enumerated. The order is a field of the structure. `count` counts the values that satisfy
a predicate; `count_set` and `count_delete` say how a write and a deletion change it.
-/

namespace N8n.Collections

/-- A finite map from indexes with its entries in ascending order. -/
structure IndexMap (ν : Type) where
  entries : List (Nat × ν)
  ascending : entries.Pairwise (·.1 < ·.1)
  deriving DecidableEq, Repr

/-- Insert an entry before the entries with greater indexes, in place of one with the same. -/
def insertEntry {ν : Type} (k : Nat) (v : ν) : List (Nat × ν) → List (Nat × ν)
  | [] => [(k, v)]
  | e :: rest =>
    if k < e.1 then (k, v) :: e :: rest
    else if k = e.1 then (k, v) :: rest
    else e :: insertEntry k v rest

theorem mem_insert_entry {ν : Type} {k : Nat} {v : ν} {l : List (Nat × ν)} {e : Nat × ν}
    (h : e ∈ insertEntry k v l) : e = (k, v) ∨ e ∈ l := by
  induction l with
  | nil => exact .inl (by simpa [insertEntry] using h)
  | cons first rest ih =>
    rw [insertEntry] at h
    split_ifs at h with hlt heq
    · simpa using h
    · exact (List.mem_cons.mp h).imp_right (List.mem_cons_of_mem _)
    · rcases List.mem_cons.mp h with hfirst | hrest
      · exact .inr (by simp [hfirst])
      · exact (ih hrest).imp_right (List.mem_cons_of_mem _)

theorem insert_entry_ascending {ν : Type} {k : Nat} {v : ν} {l : List (Nat × ν)}
    (h : l.Pairwise (·.1 < ·.1)) : (insertEntry k v l).Pairwise (·.1 < ·.1) := by
  induction l with
  | nil => simp [insertEntry]
  | cons first rest ih =>
    obtain ⟨hfirst, hrest⟩ := List.pairwise_cons.mp h
    rw [insertEntry]
    split_ifs with hlt heq
    · refine List.pairwise_cons.mpr ⟨fun e he => ?_, h⟩
      rcases List.mem_cons.mp he with heq | hmem
      · simpa [heq] using hlt
      · exact Nat.lt_trans hlt (hfirst e hmem)
    · exact List.pairwise_cons.mpr ⟨fun e he => heq ▸ hfirst e he, hrest⟩
    · refine List.pairwise_cons.mpr ⟨fun e he => ?_, ih hrest⟩
      rcases mem_insert_entry he with hnew | hmem
      · rw [hnew]
        show first.1 < k
        omega
      · exact hfirst e hmem

namespace IndexMap

variable {ν : Type}

variable {m : IndexMap ν}

@[ext] theorem ext {m' : IndexMap ν} (h : m.entries = m'.entries) : m = m' := by
  cases m
  cases m'
  cases h
  rfl

/-- The map without entries. -/
def empty : IndexMap ν := ⟨[], List.Pairwise.nil⟩

/-- The indexes in ascending order. -/
def keys (m : IndexMap ν) : List Nat := m.entries.map Prod.fst

/-- The number of entries. -/
def size (m : IndexMap ν) : Nat := m.entries.length

/-- The value at an index. -/
def get? (m : IndexMap ν) (k : Nat) : Option ν :=
  (m.entries.find? (·.1 = k)).map Prod.snd

/-- Write an index. -/
def set (m : IndexMap ν) (k : Nat) (v : ν) : IndexMap ν :=
  ⟨insertEntry k v m.entries, insert_entry_ascending m.ascending⟩

/-- Remove an index. -/
def delete (m : IndexMap ν) (k : Nat) : IndexMap ν :=
  ⟨m.entries.filter (·.1 ≠ k), m.ascending.sublist List.filter_sublist⟩

/-- The number of values that satisfy a predicate. -/
def count (m : IndexMap ν) (p : ν → Bool) : Nat := m.entries.countP fun e => p e.2

/-- What one value contributes to a count. -/
def one (p : ν → Bool) (v : Option ν) : Nat := if v.any p then 1 else 0

@[simp] theorem get_empty (k : Nat) : (empty : IndexMap ν).get? k = none := rfl

@[simp] theorem count_empty (p : ν → Bool) : (empty : IndexMap ν).count p = 0 := rfl

@[simp] theorem one_none (p : ν → Bool) : one p none = 0 := rfl

@[simp] theorem one_some (p : ν → Bool) (v : ν) : one p (some v) = if p v then 1 else 0 := rfl

theorem find_eq_none_of_lt {k : Nat} {l : List (Nat × ν)} (h : ∀ e ∈ l, k < e.1) :
    l.find? (·.1 = k) = none := by
  rw [List.find?_eq_none]
  intro e he
  have := h e he
  simp only [decide_eq_true_eq]
  omega

theorem get_eq_some_iff {k : Nat} {v : ν} : m.get? k = some v ↔ (k, v) ∈ m.entries := by
  obtain ⟨entries, ascending⟩ := m
  show (entries.find? (·.1 = k)).map Prod.snd = some v ↔ (k, v) ∈ entries
  induction entries with
  | nil => simp
  | cons first rest ih =>
    obtain ⟨hfirst, hrest⟩ := List.pairwise_cons.mp ascending
    rw [List.find?_cons]
    by_cases hk : first.1 = k
    · have hnot : (k, v) ∉ rest := fun hmem => by
        have := hfirst _ hmem
        simp only at this
        omega
      simp [hk, hnot, Prod.ext_iff, eq_comm]
    · have hne : (k, v) ≠ first := fun h => hk (h ▸ rfl)
      simp only [hk, decide_false, List.mem_cons, hne, false_or]
      exact ih hrest

theorem split_at {k : Nat} {v : ν} (h : m.get? k = some v) :
    ∃ before after, m.entries = before ++ (k, v) :: after ∧ ∀ e ∈ before, e.1 < k := by
  obtain ⟨before, after, heq⟩ := List.append_of_mem (get_eq_some_iff.mp h)
  refine ⟨before, after, heq, fun e he => ?_⟩
  have hascending := m.ascending
  rw [heq, List.pairwise_append] at hascending
  exact hascending.2.2 e he (k, v) (by simp)

theorem mem_keys_iff {k : Nat} : k ∈ m.keys ↔ ∃ v, m.get? k = some v := by
  simp only [keys, get_eq_some_iff, List.mem_map, Prod.exists, exists_and_right, exists_eq_right]

theorem mem_set_iff {k k' : Nat} {v v' : ν} :
    (k', v') ∈ (m.set k v).entries ↔ k' = k ∧ v' = v ∨ k' ≠ k ∧ (k', v') ∈ m.entries := by
  obtain ⟨entries, ascending⟩ := m
  show (k', v') ∈ insertEntry k v entries ↔ k' = k ∧ v' = v ∨ k' ≠ k ∧ (k', v') ∈ entries
  induction entries with
  | nil => simp [insertEntry]
  | cons first rest ih =>
    obtain ⟨hfirst, hrest⟩ := List.pairwise_cons.mp ascending
    have hother : ∀ w, (k, w) ∈ rest → first.1 < k := fun w hw => hfirst _ hw
    have ih := ih hrest
    obtain ⟨k₀, v₀⟩ := first
    rw [insertEntry]
    split_ifs with hlt heq
    · grind
    · grind
    · grind

theorem get_set (m : IndexMap ν) (k k' : Nat) (v : ν) :
    (m.set k v).get? k' = if k' = k then some v else m.get? k' := by
  ext v'
  rw [get_eq_some_iff, mem_set_iff]
  by_cases h : k' = k
  · simp [h, eq_comm]
  · simp [h, get_eq_some_iff]

@[simp] theorem get_set_same (m : IndexMap ν) (k : Nat) (v : ν) :
    (m.set k v).get? k = some v := by
  simp [get_set]

theorem get_delete (m : IndexMap ν) (k k' : Nat) :
    (m.delete k).get? k' = if k' = k then none else m.get? k' := by
  ext v
  split <;> rename_i h <;> rw [get_eq_some_iff] <;> simp [delete, h, get_eq_some_iff]

theorem set_set (m : IndexMap ν) (k : Nat) (v v' : ν) : (m.set k v).set k v' = m.set k v' := by
  obtain ⟨entries, ascending⟩ := m
  have hentries : insertEntry k v' (insertEntry k v entries) = insertEntry k v' entries := by
    induction entries with
    | nil => simp [insertEntry]
    | cons first rest ih =>
      rw [insertEntry]
      split_ifs with hlt heq
      · simp [insertEntry, hlt]
      · simp [insertEntry, ← heq]
      · rw [insertEntry, if_neg hlt, if_neg heq, ih (List.pairwise_cons.mp ascending).2]
        rw [insertEntry, if_neg hlt, if_neg heq]
  exact ext hentries

theorem delete_set (m : IndexMap ν) (k : Nat) (v : ν) : (m.set k v).delete k = m.delete k := by
  obtain ⟨entries, ascending⟩ := m
  have hentries : (insertEntry k v entries).filter (·.1 ≠ k) = entries.filter (·.1 ≠ k) := by
    clear ascending
    induction entries with
    | nil => simp [insertEntry]
    | cons first rest ih =>
      rw [insertEntry]
      split_ifs with hlt heq
      · simp
      · simp [← heq]
      · rw [List.filter_cons, List.filter_cons, ih]
  exact ext hentries

theorem count_set (m : IndexMap ν) (k : Nat) (v : ν) (p : ν → Bool) :
    (m.set k v).count p + one p (m.get? k) = m.count p + one p (some v) := by
  obtain ⟨entries, ascending⟩ := m
  show (insertEntry k v entries).countP (fun e => p e.2) +
      one p ((entries.find? (·.1 = k)).map Prod.snd) =
    entries.countP (fun e => p e.2) + one p (some v)
  induction entries with
  | nil => simp [insertEntry, List.countP_cons]
  | cons first rest ih =>
    obtain ⟨hfirst, hrest⟩ := List.pairwise_cons.mp ascending
    rw [insertEntry]
    split_ifs with hlt heq
    · have hnone : (first :: rest).find? (·.1 = k) = none := by
        refine find_eq_none_of_lt fun e he => ?_
        rcases List.mem_cons.mp he with heq | hmem
        · rw [heq]
          exact hlt
        · exact Nat.lt_trans hlt (hfirst e hmem)
      rw [hnone]
      simp [List.countP_cons]
    · rw [List.find?_cons]
      simp only [heq, decide_true, Option.map_some, one_some, List.countP_cons]
      omega
    · rw [List.find?_cons]
      have hne : first.1 ≠ k := fun h => heq h.symm
      simp only [hne, decide_false, List.countP_cons]
      have := ih hrest
      omega

theorem count_delete (m : IndexMap ν) (k : Nat) (p : ν → Bool) :
    (m.delete k).count p + one p (m.get? k) = m.count p := by
  obtain ⟨entries, ascending⟩ := m
  show (entries.filter (·.1 ≠ k)).countP (fun e => p e.2) +
      one p ((entries.find? (·.1 = k)).map Prod.snd) = entries.countP fun e => p e.2
  induction entries with
  | nil => rfl
  | cons first rest ih =>
    obtain ⟨hfirst, hrest⟩ := List.pairwise_cons.mp ascending
    have ih := ih hrest
    rw [List.find?_cons, List.filter_cons]
    by_cases hk : first.1 = k
    · have hnone : rest.find? (·.1 = k) = none :=
        find_eq_none_of_lt fun e he => hk ▸ hfirst e he
      rw [hnone] at ih
      simp only [hk, ne_eq, not_true_eq_false, decide_false, Bool.false_eq_true, if_false,
        decide_true, Option.map_some, one_some, List.countP_cons]
      simp only [Option.map_none, one_none, ne_eq] at ih
      omega
    · simp only [hk, ne_eq, not_false_eq_true, decide_true, if_true, decide_false,
        List.countP_cons]
      simp only [ne_eq] at ih
      omega

theorem size_eq_of_get {n : Nat} (h : ∀ k, (m.get? k).isSome = true ↔ k < n) : m.size = n := by
  have hkeys : m.keys.Perm (List.range n) := by
    refine (List.perm_ext_iff_of_nodup ?_ List.nodup_range).mpr fun k => ?_
    · exact (List.pairwise_map.mpr m.ascending).imp Nat.ne_of_lt
    · rw [mem_keys_iff, List.mem_range, ← h, Option.isSome_iff_exists]
  have hlength := hkeys.length_eq
  rwa [keys, List.length_map, List.length_range] at hlength

theorem eq_empty_of_size (h : m.size = 0) : m = empty := by
  obtain ⟨entries, ascending⟩ := m
  cases List.eq_nil_of_length_eq_zero h
  rfl

end IndexMap

end N8n.Collections
