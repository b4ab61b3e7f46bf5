import Mathlib.Data.List.Induction
import Mathlib.Data.List.Perm.Basic
import N8n.Collections.InsertionMap

/-!
# Grouping in insertion order

`groupOn` collects the elements of a list below their keys, and `fromEntries` writes a list of
entries one after the other. The groups are the elements with one key each, and what is written
last for a key stays.
-/

namespace N8n.Collections

variable {α κ ν β : Type} [DecidableEq κ]

/-- The elements below their keys, in order; those without a key are left out. -/
def groupOn (key : α → Option κ) (l : List α) : InsertionMap κ (List α) :=
  l.foldl (fun groups a =>
    match key a with
    | none => groups
    | some k => groups.set k ((groups.get? k).getD [] ++ [a])) .empty

variable {key : α → Option κ} {l : List α} {k : κ}

theorem get_groupOn : (groupOn key l).get? k =
    if l.filter (key · = some k) = [] then none else some (l.filter (key · = some k)) := by
  induction l using List.reverseRecOn with
  | nil => rfl
  | append_singleton l a ih =>
    rw [groupOn, List.foldl_concat, ← groupOn, List.filter_append]
    cases ha : key a with
    | none => simp [ha, ih]
    | some k' =>
      by_cases hk : k' = k
      · subst hk
        by_cases hnil : l.filter (key · = some k') = [] <;>
          simp [ha, ih, hnil]
      · simp [ha, ih, InsertionMap.get_set, hk, Ne.symm hk]

theorem mem_groupOn_iff {group : List α} : (k, group) ∈ (groupOn key l).entries ↔
    group = l.filter (key · = some k) ∧ group ≠ [] := by
  rw [← InsertionMap.get_eq_some_iff, get_groupOn]
  constructor
  · intro h
    split at h
    · cases h
    next hne =>
      cases h
      exact ⟨rfl, hne⟩
  · rintro ⟨rfl, hne⟩
    exact if_neg hne

theorem flatMap_filter_perm {keys : List κ} (hkeys : keys.Nodup) (key : α → Option κ)
    (l : List α) : (keys.flatMap fun k => l.filter (key · = some k)).Perm
      (l.filter fun a => ∃ k ∈ keys, key a = some k) := by
  induction keys with
  | nil => simp
  | cons k keys ih =>
    obtain ⟨hk, hkeys⟩ := List.nodup_cons.mp hkeys
    rw [List.flatMap_cons]
    refine ((ih hkeys).append_left _).trans ?_
    have hsplit := List.filter_append_perm (key · = some k)
      (l.filter fun a => ∃ k' ∈ k :: keys, key a = some k')
    rw [List.filter_filter, List.filter_filter] at hsplit
    refine List.Perm.trans (List.Perm.of_eq ?_) hsplit
    congr 1
    · refine List.filter_congr fun a _ => ?_
      by_cases ha : key a = some k <;> simp [ha]
    · refine List.filter_congr fun a _ => ?_
      by_cases ha : key a = some k
      · simp [ha, hk]
      · simp [ha]

/-- `Object.fromEntries`: the entries are written one after the other. -/
def fromEntries (l : List (κ × ν)) : InsertionMap κ ν :=
  l.foldl (fun m e => m.set e.1 e.2) .empty

/-- The entries that no later one overwrites. -/
def survivors : List (κ × ν) → List (κ × ν)
  | [] => []
  | e :: rest => if e.1 ∈ rest.map Prod.fst then survivors rest else e :: survivors rest

theorem mem_keys_of_survivors {e : κ × ν} {l : List (κ × ν)} (h : e ∈ survivors l) :
    e.1 ∈ l.map Prod.fst := by
  induction l with
  | nil => cases h
  | cons e' rest ih =>
    rw [survivors] at h
    split at h
    · exact List.mem_cons_of_mem _ (ih h)
    · obtain rfl | h := List.mem_cons.mp h
      · exact List.mem_cons_self
      · exact List.mem_cons_of_mem _ (ih h)

theorem nodup_survivors (l : List (κ × ν)) : (survivors l).Nodup := by
  induction l with
  | nil => exact .nil
  | cons e rest ih =>
    rw [survivors]
    split
    · exact ih
    next hfresh => exact List.nodup_cons.mpr ⟨fun h => hfresh (mem_keys_of_survivors h), ih⟩

theorem get_foldl_set {l : List (κ × ν)} {m : InsertionMap κ ν} {v : ν} :
    (l.foldl (fun m e => m.set e.1 e.2) m).get? k = some v ↔
      (k, v) ∈ survivors l ∨ k ∉ l.map Prod.fst ∧ m.get? k = some v := by
  induction l generalizing m with
  | nil => simp [survivors]
  | cons e rest ih =>
    have hkey : (k, v) ∈ survivors rest → k ∈ rest.map Prod.fst := mem_keys_of_survivors
    rw [List.foldl_cons, ih, InsertionMap.get_set, survivors, List.map_cons, List.mem_cons]
    by_cases hk : k = e.1
    · subst hk
      by_cases hrest : e.1 ∈ rest.map Prod.fst
      · simp [hrest]
      · simp [hrest, Prod.ext_iff, eq_comm, or_comm]
    · have hne : (k, v) ≠ e := fun h => hk (h ▸ rfl)
      by_cases hrest : e.1 ∈ rest.map Prod.fst <;> simp [hk, hrest, hne]

theorem fromEntries_perm (l : List (κ × ν)) : (fromEntries l).entries.Perm (survivors l) := by
  have hnodup : (fromEntries l).entries.Nodup := List.Nodup.of_map _ (fromEntries l).nodup
  refine (List.perm_ext_iff_of_nodup hnodup (nodup_survivors l)).mpr fun e => ?_
  rw [← InsertionMap.get_eq_some_iff, fromEntries, get_foldl_set]
  simp [InsertionMap.get?]

theorem survivors_map {μ : Type} (f : ν → μ) (l : List (κ × ν)) :
    survivors (l.map fun e => (e.1, f e.2)) = (survivors l).map fun e => (e.1, f e.2) := by
  induction l with
  | nil => rfl
  | cons e rest ih =>
    have hkeys : (rest.map fun e => (e.1, f e.2)).map Prod.fst = rest.map Prod.fst := by simp
    rw [List.map_cons, survivors, survivors, ih, hkeys]
    split <;> rfl

/-- Nothing is lost where what is overwritten holds nothing. -/
theorem survivors_flatMap {f : κ × ν → List β} {l : List (κ × ν)}
    (h : l.Pairwise fun e later => e.1 = later.1 → f e = []) :
    (survivors l).flatMap f = l.flatMap f := by
  induction l with
  | nil => rfl
  | cons e rest ih =>
    obtain ⟨he, hrest⟩ := List.pairwise_cons.mp h
    rw [survivors, List.flatMap_cons]
    split
    next hmem =>
      obtain ⟨later, hlater, heq⟩ := List.mem_map.mp hmem
      rw [he later hlater heq.symm, ih hrest, List.nil_append]
    · rw [List.flatMap_cons, ih hrest]

theorem length_survivors_flatMap {f g : κ × ν → List β} {l : List (κ × ν)}
    (hle : ∀ e ∈ l, (f e).length ≤ (g e).length) :
    ((survivors l).flatMap f).length ≤ (l.flatMap g).length ∧
      (((survivors l).flatMap f).length = (l.flatMap g).length →
        (l.Pairwise fun e later => e.1 = later.1 → g e = []) ∧
          ∀ e ∈ l, (f e).length = (g e).length) := by
  induction l with
  | nil => simp [survivors]
  | cons e rest ih =>
    obtain ⟨ihle, iheq⟩ := ih fun e' he' => hle e' (List.mem_cons_of_mem _ he')
    have he := hle e List.mem_cons_self
    rw [survivors, List.flatMap_cons, List.length_append]
    split
    next hmem =>
      refine ⟨by omega, fun heq => ?_⟩
      obtain ⟨hpairs, hrest⟩ := iheq (by omega)
      refine ⟨List.pairwise_cons.mpr ⟨fun _ _ _ => ?_, hpairs⟩, fun e' he' => ?_⟩
      · exact List.length_eq_zero_iff.mp (by omega)
      · obtain rfl | he' := List.mem_cons.mp he'
        · omega
        · exact hrest e' he'
    next hfresh =>
      rw [List.flatMap_cons, List.length_append]
      refine ⟨by omega, fun heq => ?_⟩
      obtain ⟨hpairs, hrest⟩ := iheq (by omega)
      refine ⟨List.pairwise_cons.mpr ⟨fun later hlater hkey => ?_, hpairs⟩, fun e' he' => ?_⟩
      · exact absurd (hkey ▸ List.mem_map_of_mem hlater) hfresh
      · obtain rfl | he' := List.mem_cons.mp he'
        · omega
        · exact hrest e' he'

end N8n.Collections
