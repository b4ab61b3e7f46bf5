import Mathlib.Data.List.InsertIdx
import Mathlib.Data.List.Nodup

/-!
# Lists with distinct keys

What `List.set` and `List.eraseIdx` do to a list whose elements have distinct keys under `f`: they
touch the element at the index, and every other element has another key. `mem_map_ite` and
`map_map_ite` are about a list whose elements with a property are changed.
-/

namespace N8n.Collections

variable {α κ : Type} {f : α → κ} {l : List α} {a b x : α} {i : Nat}

theorem map_set_of_key (ha : l[i]? = some a) (hb : f b = f a) : (l.set i b).map f = l.map f := by
  obtain ⟨hlt, rfl⟩ := List.getElem?_eq_some_iff.mp ha
  have hlt' : i < (l.map f).length := by
    rw [List.length_map]
    exact hlt
  have hget : (l.map f)[i] = f l[i] := List.getElem_map f
  rw [List.map_set, hb, ← hget, List.set_getElem_self]

theorem index_eq_of_key (hnodup : (l.map f).Nodup) {j : Nat} (ha : l[i]? = some a)
    (hx : l[j]? = some x) (hkey : f x = f a) : j = i := by
  obtain ⟨hlt, rfl⟩ := List.getElem?_eq_some_iff.mp ha
  obtain ⟨hlt', rfl⟩ := List.getElem?_eq_some_iff.mp hx
  have hi : i < (l.map f).length := by
    rw [List.length_map]
    exact hlt
  have hj : j < (l.map f).length := by
    rw [List.length_map]
    exact hlt'
  have hget : (l.map f)[j] = (l.map f)[i] := by rw [List.getElem_map, List.getElem_map, hkey]
  exact hnodup.getElem_inj_iff.mp hget

theorem mem_set_of_nodup (hnodup : (l.map f).Nodup) (ha : l[i]? = some a) (h : x ∈ l.set i b) :
    x = b ∨ x ∈ l ∧ f x ≠ f a := by
  obtain ⟨j, hj⟩ := List.mem_iff_getElem?.mp h
  rw [List.getElem?_set] at hj
  split at hj
  · split at hj
    · exact .inl (Option.some.inj hj).symm
    · cases hj
  · rename_i hne
    refine .inr ⟨List.mem_iff_getElem?.mpr ⟨j, hj⟩, fun hkey => ?_⟩
    exact hne (index_eq_of_key hnodup ha hj hkey).symm

theorem mem_eraseIdx_of_nodup (hnodup : (l.map f).Nodup) (ha : l[i]? = some a) :
    x ∈ l.eraseIdx i ↔ x ∈ l ∧ f x ≠ f a := by
  rw [List.mem_eraseIdx_iff_getElem?]
  constructor
  · intro h
    obtain ⟨j, hne, hj⟩ := h
    exact ⟨List.mem_iff_getElem?.mpr ⟨j, hj⟩, fun hkey => hne (index_eq_of_key hnodup ha hj hkey)⟩
  · intro h
    obtain ⟨hmem, hkey⟩ := h
    obtain ⟨j, hj⟩ := List.mem_iff_getElem?.mp hmem
    refine ⟨j, fun heq => ?_, hj⟩
    rw [heq, ha] at hj
    exact hkey (congrArg f (Option.some.inj hj).symm)

theorem perm_eraseP {p : α → Bool} (h : l.find? p = some a) :
    l.Perm (a :: l.eraseP p) := by
  induction l with
  | nil => cases h
  | cons b l ih =>
    by_cases hb : p b = true
    · rw [List.find?_cons_of_pos hb] at h
      cases h
      rw [List.eraseP_cons_of_pos hb]
    · rw [List.find?_cons_of_neg hb] at h
      rw [List.eraseP_cons_of_neg hb]
      exact ((ih h).cons b).trans (.swap a b _)

section Changes

variable {p : α → Prop} [DecidablePred p] {g : α → α}

/-- The elements after those with a property were changed. -/
theorem mem_map_ite :
    x ∈ (l.map fun a => if p a then g a else a) ↔ (∃ a ∈ l, p a ∧ x = g a) ∨ (x ∈ l ∧ ¬ p x) := by
  rw [List.mem_map]
  constructor
  · rintro ⟨a, hmem, heq⟩
    split at heq
    · rename_i ha
      exact Or.inl ⟨a, hmem, ha, heq.symm⟩
    · rename_i ha
      subst heq
      exact Or.inr ⟨hmem, ha⟩
  · rintro (⟨a, hmem, ha, rfl⟩ | ⟨hmem, hx⟩)
    · exact ⟨a, hmem, if_pos ha⟩
    · exact ⟨x, hmem, if_neg hx⟩

theorem map_map_ite (hg : ∀ a, f (g a) = f a) :
    (l.map fun a => if p a then g a else a).map f = l.map f := by
  rw [List.map_map]
  refine List.map_congr_left fun a _ => ?_
  rw [Function.comp_apply]
  split
  · exact hg a
  · rfl

end Changes

end N8n.Collections
