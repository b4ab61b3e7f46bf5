import Mathlib.Data.List.Lookmap
import Mathlib.Data.List.Nodup

/-!
# Maps in insertion order

`InsertionMap κ ν` is a finite map whose entries are kept in the order in which their keys
were first inserted, as in a JavaScript `Map`: writing an existing key keeps its place, and
deleting a key and writing it again moves it to the end. Every key occurs once, by a field of
the structure. `get_eq_some_iff` and `mem_set_iff` reduce lookups and writes to membership in
the list of entries.
-/

namespace N8n.Collections

/-- A finite map with its entries in insertion order. -/
structure InsertionMap (κ ν : Type) where
  entries : List (κ × ν)
  nodup : (entries.map Prod.fst).Nodup
  deriving DecidableEq, Repr

namespace InsertionMap

variable {κ ν : Type}

@[ext] theorem ext {m m' : InsertionMap κ ν} (h : m.entries = m'.entries) : m = m' := by
  cases m
  cases m'
  cases h
  rfl

/-- The map without entries. -/
def empty : InsertionMap κ ν := ⟨[], List.nodup_nil⟩

/-- The keys in insertion order. -/
def keys (m : InsertionMap κ ν) : List κ := m.entries.map Prod.fst

/-- The values in the insertion order of their keys. -/
def values (m : InsertionMap κ ν) : List ν := m.entries.map Prod.snd

/-- Change the values. -/
def mapValues {μ : Type} (m : InsertionMap κ ν) (f : ν → μ) : InsertionMap κ μ where
  entries := m.entries.map fun e => (e.1, f e.2)
  nodup := by
    rw [List.map_map]
    exact m.nodup

/-- Keep the entries that satisfy a predicate. -/
def filter (m : InsertionMap κ ν) (p : κ × ν → Bool) : InsertionMap κ ν :=
  ⟨m.entries.filter p, m.nodup.sublist (List.filter_sublist.map Prod.fst)⟩

@[simp] theorem empty_entries : (empty : InsertionMap κ ν).entries = [] := rfl

@[simp] theorem filter_entries (m : InsertionMap κ ν) (p : κ × ν → Bool) :
    (m.filter p).entries = m.entries.filter p := rfl

variable {m : InsertionMap κ ν} {k : κ} {v : ν}

theorem mem_unique {v' : ν} (h : (k, v) ∈ m.entries) (h' : (k, v') ∈ m.entries) : v = v' := by
  have := List.inj_on_of_nodup_map m.nodup h h' rfl
  exact (Prod.mk.inj this).2

variable [DecidableEq κ]

/-- The value of a key. -/
def get? (m : InsertionMap κ ν) (k : κ) : Option ν :=
  (m.entries.find? (·.1 = k)).map Prod.snd

/-- Does the key occur? -/
def has (m : InsertionMap κ ν) (k : κ) : Bool := (m.get? k).isSome

/-- Remove a key. -/
def delete (m : InsertionMap κ ν) (k : κ) : InsertionMap κ ν :=
  m.filter (·.1 ≠ k)

theorem get_eq_some_iff : m.get? k = some v ↔ (k, v) ∈ m.entries := by
  constructor
  · intro h
    obtain ⟨⟨k', v'⟩, hfind, rfl⟩ := Option.map_eq_some_iff.mp h
    have hk : k' = k := by simpa using List.find?_some hfind
    exact hk ▸ List.mem_of_find?_eq_some hfind
  · intro h
    have hsome : (m.entries.find? (·.1 = k)).isSome := by
      rw [List.find?_isSome]
      exact ⟨_, h, by simp⟩
    obtain ⟨⟨k', v'⟩, hfind⟩ := Option.isSome_iff_exists.mp hsome
    have hk : k' = k := by simpa using List.find?_some hfind
    have hv : v' = v := mem_unique (hk ▸ List.mem_of_find?_eq_some hfind) h
    simp [get?, hfind, hv]

theorem get_eq_none_iff : m.get? k = none ↔ ∀ v, (k, v) ∉ m.entries := by
  constructor
  · intro h v hmem
    rw [get_eq_some_iff.mpr hmem] at h
    cases h
  · intro h
    cases hget : m.get? k with
    | none => rfl
    | some v => exact absurd (get_eq_some_iff.mp hget) (h v)

theorem mem_keys_iff : k ∈ m.keys ↔ ∃ v, m.get? k = some v := by
  simp only [get_eq_some_iff]
  constructor
  · intro h
    obtain ⟨⟨_, v⟩, hmem, rfl⟩ := List.mem_map.mp h
    exact ⟨v, hmem⟩
  · rintro ⟨v, hmem⟩
    exact List.mem_map.mpr ⟨_, hmem, rfl⟩

theorem mem_values_iff : v ∈ m.values ↔ ∃ k, m.get? k = some v := by
  simp only [values, List.mem_map, Prod.exists, exists_eq_right, get_eq_some_iff]

/-- Write a key: in its place when it exists, at the end otherwise. -/
def set (m : InsertionMap κ ν) (k : κ) (v : ν) : InsertionMap κ ν where
  entries :=
    if k ∈ m.keys then m.entries.map fun e => if e.1 = k then (k, v) else e
    else m.entries ++ [(k, v)]
  nodup := by
    split
    · have hkeys : (m.entries.map fun e => if e.1 = k then (k, v) else e).map Prod.fst =
          m.entries.map Prod.fst := by
        rw [List.map_map]
        refine List.map_congr_left fun e _ => ?_
        by_cases h : e.1 = k <;> simp [h]
      rw [hkeys]
      exact m.nodup
    · rename_i hk
      rw [List.map_append]
      refine List.Nodup.append m.nodup (List.nodup_singleton k) ?_
      intro k' hk' hmem
      simp only [List.map_cons, List.map_nil, List.mem_singleton] at hmem
      exact hk (hmem ▸ hk')

theorem mem_set_iff {k' : κ} {v' : ν} :
    (k', v') ∈ (m.set k v).entries ↔ k' = k ∧ v' = v ∨ k' ≠ k ∧ (k', v') ∈ m.entries := by
  by_cases hk : k ∈ m.keys
  · simp only [set, hk, if_true, List.mem_map]
    constructor
    · rintro ⟨e, he, heq⟩
      by_cases hek : e.1 = k
      · rw [if_pos hek] at heq
        cases heq
        exact .inl ⟨rfl, rfl⟩
      · rw [if_neg hek] at heq
        subst heq
        exact .inr ⟨hek, he⟩
    · rintro (⟨rfl, rfl⟩ | ⟨hne, hmem⟩)
      · obtain ⟨e, he, hek⟩ := List.mem_map.mp hk
        exact ⟨e, he, by simp [hek]⟩
      · exact ⟨_, hmem, by simp [hne]⟩
  · simp only [set, hk, if_false, List.mem_append, List.mem_singleton, Prod.mk.injEq]
    constructor
    · rintro (hmem | heq)
      · refine .inr ⟨?_, hmem⟩
        rintro rfl
        exact hk (List.mem_map.mpr ⟨_, hmem, rfl⟩)
      · exact .inl heq
    · rintro (heq | ⟨_, hmem⟩)
      · exact .inr heq
      · exact .inl hmem

theorem get_set (m : InsertionMap κ ν) (k k' : κ) (v : ν) :
    (m.set k v).get? k' = if k' = k then some v else m.get? k' := by
  split
  · rename_i h
    exact get_eq_some_iff.mpr (mem_set_iff.mpr (.inl ⟨h, rfl⟩))
  · rename_i h
    ext v'
    rw [get_eq_some_iff, mem_set_iff, get_eq_some_iff]
    simp [h]

@[simp] theorem get_set_same (m : InsertionMap κ ν) (k : κ) (v : ν) :
    (m.set k v).get? k = some v := by
  simp [get_set]

theorem set_of_get (h : m.get? k = some v) : m.set k v = m := by
  have hkey : k ∈ m.keys := mem_keys_iff.mpr ⟨v, h⟩
  refine ext ?_
  rw [set]
  simp only [hkey, if_true]
  refine (List.map_congr_left fun e he => ?_).trans (List.map_id _)
  split
  · rename_i hek
    obtain ⟨k', v'⟩ := e
    cases hek
    rw [mem_unique (get_eq_some_iff.mp h) he]
    rfl
  · rfl

theorem get_set_other (m : InsertionMap κ ν) {k' : κ} (v : ν) (h : k' ≠ k) :
    (m.set k v).get? k' = m.get? k' := by
  simp [get_set, h]

theorem get_delete (m : InsertionMap κ ν) (k k' : κ) :
    (m.delete k).get? k' = if k' = k then none else m.get? k' := by
  split
  · rename_i h
    refine get_eq_none_iff.mpr fun v hmem => ?_
    simp [delete, h] at hmem
  · rename_i h
    ext v'
    rw [get_eq_some_iff, get_eq_some_iff]
    simp [delete, h]

theorem keys_set (m : InsertionMap κ ν) (k : κ) (v : ν) :
    (m.set k v).keys = if k ∈ m.keys then m.keys else m.keys ++ [k] := by
  have hentries : (m.set k v).entries =
      if k ∈ m.keys then m.entries.map fun e => if e.1 = k then (k, v) else e
      else m.entries ++ [(k, v)] := rfl
  rw [keys, hentries]
  by_cases hk : k ∈ m.keys
  · rw [if_pos hk, if_pos hk, List.map_map]
    refine List.map_congr_left fun e _ => ?_
    rw [Function.comp_apply]
    split
    · rename_i heq
      exact heq.symm
    · rfl
  · rw [if_neg hk, if_neg hk, List.map_append]
    rfl

theorem keys_delete (m : InsertionMap κ ν) (k : κ) :
    (m.delete k).keys = m.keys.filter (· ≠ k) := by
  rw [keys, delete, filter_entries, keys, List.filter_map]
  rfl

theorem length_set_le (m : InsertionMap κ ν) (k : κ) (v : ν) :
    (m.set k v).entries.length ≤ m.entries.length + 1 := by
  rw [set]
  dsimp only
  split
  · rw [List.length_map]
    exact Nat.le_succ _
  · rw [List.length_append]
    exact Nat.le_refl _

theorem length_delete_le (m : InsertionMap κ ν) (k : κ) :
    (m.delete k).entries.length ≤ m.entries.length := by
  rw [delete, filter_entries]
  exact List.length_filter_le _ _

theorem length_delete_lt (h : m.has k) : (m.delete k).entries.length < m.entries.length := by
  obtain ⟨v, hv⟩ := Option.isSome_iff_exists.mp h
  rw [delete, filter_entries, List.length_filter_lt_length_iff_exists]
  exact ⟨(k, v), get_eq_some_iff.mp hv, by simp⟩

theorem get_foldl_delete {α : Type} (f : α → κ) (l : List α) (m : InsertionMap κ ν) (k : κ) :
    (l.foldl (fun m x => m.delete (f x)) m).get? k = if k ∈ l.map f then none else m.get? k := by
  induction l generalizing m with
  | nil => simp
  | cons x rest ih =>
    rw [List.foldl_cons, ih, get_delete, List.map_cons]
    by_cases hx : k = f x
    · simp [hx]
    · simp [hx]

theorem get_filter_eq_some_iff {p : κ × ν → Bool} :
    (m.filter p).get? k = some v ↔ m.get? k = some v ∧ p (k, v) = true := by
  rw [get_eq_some_iff, get_eq_some_iff, filter_entries, List.mem_filter]

theorem split_at (h : m.get? k = some v) :
    ∃ before after, m.entries = before ++ (k, v) :: after ∧
      (∀ v', (m.set k v').entries = before ++ (k, v') :: after) ∧
      (m.delete k).entries = before ++ after := by
  obtain ⟨before, after, heq⟩ := List.append_of_mem (get_eq_some_iff.mp h)
  have hnodup := m.nodup
  rw [heq, List.map_append, List.map_cons, List.nodup_append] at hnodup
  obtain ⟨-, hafter, hbefore⟩ := hnodup
  have hne_before : ∀ e ∈ before, e.1 ≠ k := fun e he =>
    hbefore e.1 (List.mem_map.mpr ⟨e, he, rfl⟩) k (by simp)
  have hne_after : ∀ e ∈ after, e.1 ≠ k := fun e he heq =>
    (List.nodup_cons.mp hafter).1 (List.mem_map.mpr ⟨e, he, heq⟩)
  refine ⟨before, after, heq, fun v' => ?_, ?_⟩
  · have hkey : k ∈ m.keys := mem_keys_iff.mpr ⟨v, h⟩
    have hkeep : ∀ l : List (κ × ν), (∀ e ∈ l, e.1 ≠ k) →
        l.map (fun e => if e.1 = k then (k, v') else e) = l := fun l hl =>
      (List.map_congr_left fun e he => if_neg (hl e he)).trans (List.map_id' l)
    simp only [set, hkey, if_true]
    rw [heq, List.map_append, List.map_cons, if_pos rfl, hkeep before hne_before,
      hkeep after hne_after]
  · have hkeep : ∀ l : List (κ × ν), (∀ e ∈ l, e.1 ≠ k) → l.filter (·.1 ≠ k) = l := fun l hl =>
      List.filter_eq_self.mpr fun e he => decide_eq_true (hl e he)
    rw [delete, filter_entries, heq, List.filter_append, List.filter_cons, hkeep before hne_before,
      hkeep after hne_after]
    simp

theorem get_mapValues {μ : Type} (m : InsertionMap κ ν) (f : ν → μ) (k : κ) :
    (m.mapValues f).get? k = (m.get? k).map f := by
  ext v
  rw [get_eq_some_iff, Option.map_eq_some_iff, mapValues, List.mem_map]
  constructor
  · intro h
    obtain ⟨⟨k', v'⟩, hmem, heq⟩ := h
    cases heq
    exact ⟨v', get_eq_some_iff.mpr hmem, rfl⟩
  · intro h
    obtain ⟨v', hget, rfl⟩ := h
    exact ⟨(k, v'), get_eq_some_iff.mp hget, rfl⟩

@[simp] theorem get_empty (k : κ) : (empty : InsertionMap κ ν).get? k = none := rfl

/-- Write all entries of another map: `{...m, ...m'}`. -/
def spread (m m' : InsertionMap κ ν) : InsertionMap κ ν :=
  m'.entries.foldl (fun m e => m.set e.1 e.2) m

theorem get_spread {m' : InsertionMap κ ν} (h : m'.get? k = some v) :
    (m.spread m').get? k = some v := by
  have hwritten : ∀ (l : List (κ × ν)) (m : InsertionMap κ ν), (l.map Prod.fst).Nodup →
      ((k, v) ∈ l ∨ k ∉ l.map Prod.fst ∧ m.get? k = some v) →
      (l.foldl (fun m e => m.set e.1 e.2) m).get? k = some v := by
    intro l
    induction l with
    | nil =>
      rintro m - (hmem | ⟨-, hget⟩)
      · exact absurd hmem List.not_mem_nil
      · exact hget
    | cons e rest ih =>
      intro m hnodup hkey
      rw [List.map_cons, List.nodup_cons] at hnodup
      refine ih _ hnodup.2 ?_
      rw [get_set]
      rcases hkey with hmem | ⟨hfresh, hget⟩
      · rcases List.mem_cons.mp hmem with rfl | hrest
        · exact .inr ⟨hnodup.1, if_pos rfl⟩
        · exact .inl hrest
      · rw [List.map_cons, List.mem_cons, not_or] at hfresh
        exact .inr ⟨hfresh.2, by rw [if_neg hfresh.1, hget]⟩
  exact hwritten m'.entries m m'.nodup (.inl (get_eq_some_iff.mp h))

end InsertionMap

end N8n.Collections
