import Mathlib.Data.List.Perm.Subperm
import N8n.Collections.PropertyTree

/-!
# Deep equality of plain data

`DeepEqual a b` says that two values look alike at every path: the same primitive values, arrays of
the same length, objects with the same keys. `deepEqual` computes this for values whose objects have
distinct keys.
-/

namespace N8n.Collections

namespace PropertyTree

/-- The values look alike from outside: what is below arrays and objects is left out. -/
def Alike : PropertyTree → PropertyTree → Prop
  | .array items, .array others => items.length = others.length
  | .object entries, .object others =>
      ∀ key, key ∈ entries.map Prod.fst ↔ key ∈ others.map Prod.fst
  | value, other => value = other

/-- The values look alike at every path. -/
def DeepEqual (value other : PropertyTree) : Prop :=
  ∀ path, (value.valueAt path).Alike (other.valueAt path)

mutual

/-- Compare two values. -/
def deepEqual : PropertyTree → PropertyTree → Bool
  | .undefined, .undefined | .null, .null => true
  | .boolean value, .boolean other => decide (value = other)
  | .number value, .number other => decide (value = other)
  | .string text, .string other => decide (text = other)
  | .array items, .array others => deepEqualItems items others
  | .object entries, .object others =>
      decide (entries.length = others.length) && deepEqualEntries entries others
  | _, _ => false

/-- Compare the items of two arrays. -/
def deepEqualItems : List PropertyTree → List PropertyTree → Bool
  | [], [] => true
  | item :: rest, other :: others => deepEqual item other && deepEqualItems rest others
  | _, _ => false

/-- Compare the entries of an object with those of the same keys of another one. -/
def deepEqualEntries : List (PropertyKey × PropertyTree) → List (PropertyKey × PropertyTree) → Bool
  | [], _ => true
  | (key, value) :: rest, others =>
      (match others.lookup key with
        | some other => deepEqual value other
        | none => false) && deepEqualEntries rest others

end

variable {value other : PropertyTree}

theorem Alike.symm (h : value.Alike other) : other.Alike value := by
  cases value with
  | array items =>
      cases other with
      | array others => exact Eq.symm h
      | _ => cases h
  | object entries =>
      cases other with
      | object others => exact fun key => (h key).symm
      | _ => cases h
  | _ => cases h; rfl

theorem DeepEqual.symm (h : value.DeepEqual other) : other.DeepEqual value :=
  fun path => (h path).symm

theorem deepEqual_iff_get :
    value.DeepEqual other ↔ value.Alike other ∧ ∀ key, (value.get key).DeepEqual (other.get key) :=
  ⟨fun h => ⟨h [], fun key path => h (key :: path)⟩, fun h path => by
    cases path with
    | nil => exact h.1
    | cons key path => exact h.2 key path⟩

theorem deepEqual_leaf (hvalue : value.isContainer = false) (hother : other.isContainer = false) :
    value.DeepEqual other ↔ value.Alike other := by
  rw [deepEqual_iff_get, and_iff_left_iff_imp]
  intro _ key path
  rw [get_of_not_isContainer hvalue, get_of_not_isContainer hother, valueAt_undefined]
  rfl

theorem deepEqual_refl (value : PropertyTree) : value.DeepEqual value := by
  intro path
  cases value.valueAt path with
  | object entries => exact fun key => Iff.rfl
  | _ => rfl

theorem deepEqual_array (items others : List PropertyTree) :
    (PropertyTree.array items).DeepEqual (.array others) ↔
      List.Forall₂ DeepEqual items others := by
  rw [deepEqual_iff_get, List.forall₂_iff_get]
  refine and_congr_right fun hlength => ?_
  constructor
  · intro h i hi hi'
    have hitem := h (.index i)
    simp only [get, List.getElem?_eq_getElem hi, List.getElem?_eq_getElem hi',
      Option.getD_some] at hitem
    exact hitem
  · intro h key
    have hlength : items.length = others.length := hlength
    cases key with
    | index i =>
        by_cases hi : i < items.length
        · have hi' : i < others.length := by omega
          simp only [get, List.getElem?_eq_getElem hi, List.getElem?_eq_getElem hi',
            Option.getD_some]
          exact h i hi hi'
        · simp only [get, List.getElem?_eq_none (Nat.le_of_not_lt hi),
            List.getElem?_eq_none (show others.length ≤ i by omega), Option.getD_none]
          exact deepEqual_refl _
    | name text =>
        simp only [get, hlength]
        exact deepEqual_refl _

theorem deepEqualItems_iff {items : List PropertyTree}
    (ih : ∀ item ∈ items, ∀ other : PropertyTree, item.WellFormed → other.WellFormed →
      (deepEqual item other = true ↔ item.DeepEqual other))
    (hitems : ∀ item ∈ items, item.WellFormed) {others : List PropertyTree}
    (hothers : ∀ other ∈ others, other.WellFormed) :
    deepEqualItems items others = true ↔ List.Forall₂ DeepEqual items others := by
  induction items generalizing others with
  | nil => cases others <;> simp [deepEqualItems]
  | cons item rest ih' =>
      cases others with
      | nil => simp [deepEqualItems]
      | cons other others =>
          obtain ⟨hitem, hrest⟩ := List.forall_mem_cons.mp hitems
          obtain ⟨hother, hothers⟩ := List.forall_mem_cons.mp hothers
          obtain ⟨ihitem, ihrest⟩ := List.forall_mem_cons.mp ih
          rw [deepEqualItems, Bool.and_eq_true, ihitem other hitem hother,
            ih' ihrest hrest hothers, List.forall₂_cons]

theorem deepEqualEntries_iff (entries others : List (PropertyKey × PropertyTree)) :
    deepEqualEntries entries others = true ↔
      ∀ entry ∈ entries, ∃ other, others.lookup entry.1 = some other ∧
        deepEqual entry.2 other = true := by
  induction entries with
  | nil => simp [deepEqualEntries]
  | cons entry rest ih =>
      rw [deepEqualEntries, Bool.and_eq_true, ih, List.forall_mem_cons]
      refine and_congr_left fun _ => ?_
      cases others.lookup entry.1 <;> simp

theorem lookup_eq_some_iff_mem {entries : List (PropertyKey × PropertyTree)}
    (hdistinct : (entries.map Prod.fst).Nodup) {key : PropertyKey} :
    entries.lookup key = some value ↔ (key, value) ∈ entries := by
  induction entries with
  | nil => simp
  | cons entry rest ih =>
      obtain ⟨head, content⟩ := entry
      obtain ⟨hhead, hrest⟩ := List.nodup_cons.mp hdistinct
      rw [lookup_cons_entry, List.mem_cons, Prod.mk.injEq]
      by_cases hkey : key = head
      · subst hkey
        have hnot : (key, value) ∉ rest := fun h => hhead (List.mem_map.mpr ⟨_, h, rfl⟩)
        simp only [beq_self_eq_true, Option.some.injEq, hnot, or_false, true_and]
        exact eq_comm
      · have hbeq : (key == head) = false := by simpa using hkey
        simp only [hbeq, ih hrest, hkey, false_and, false_or]

theorem sameKeys_of_subset {keys others : List PropertyKey} (hkeys : keys.Nodup)
    (hlength : keys.length = others.length) (h : ∀ key ∈ keys, key ∈ others) (key : PropertyKey) :
    key ∈ keys ↔ key ∈ others := by
  have hperm : keys.Perm others :=
    (List.subperm_of_subset hkeys h).perm_of_length_le (Nat.le_of_eq hlength.symm)
  exact hperm.mem_iff

theorem deepEqual_object {entries others : List (PropertyKey × PropertyTree)}
    (hentries : (entries.map Prod.fst).Nodup) (hothers : (others.map Prod.fst).Nodup) :
    (PropertyTree.object entries).DeepEqual (.object others) ↔
      entries.length = others.length ∧ ∀ entry ∈ entries, ∃ other,
        others.lookup entry.1 = some other ∧ entry.2.DeepEqual other := by
  rw [deepEqual_iff_get]
  constructor
  · intro hequal
    obtain ⟨hsame, h⟩ := hequal
    have hkeys : ∀ key, key ∈ entries.map Prod.fst ↔ key ∈ others.map Prod.fst := hsame
    refine ⟨?_, fun entry hentry => ?_⟩
    · have hperm := (List.perm_ext_iff_of_nodup hentries hothers).mpr hkeys
      simpa using hperm.length_eq
    · obtain ⟨found, hfound, hkey⟩ :=
        List.mem_map.mp ((hkeys entry.1).mp (List.mem_map_of_mem hentry))
      have hlookup : others.lookup entry.1 = some found.2 :=
        (lookup_eq_some_iff_mem hothers).mpr (hkey ▸ hfound)
      have hvalue := h entry.1
      rw [get_of_mem hentries hentry, get, hlookup] at hvalue
      exact ⟨found.2, hlookup, hvalue⟩
  · intro hequal
    obtain ⟨hlength, h⟩ := hequal
    have hsubset : ∀ key ∈ entries.map Prod.fst, key ∈ others.map Prod.fst := by
      intro key hkey
      obtain ⟨entry, hentry, hkey⟩ := List.mem_map.mp hkey
      obtain ⟨other, hother, -⟩ := h entry hentry
      have hmem : (entry.1, other) ∈ others := (lookup_eq_some_iff_mem hothers).mp hother
      exact List.mem_map.mpr ⟨_, hmem, hkey⟩
    have hkeys := sameKeys_of_subset hentries (by simpa using hlength) hsubset
    refine ⟨hkeys, fun key => ?_⟩
    by_cases hkey : key ∈ entries.map Prod.fst
    · obtain ⟨entry, hentry, hkey⟩ := List.mem_map.mp hkey
      obtain ⟨other, hother, hvalue⟩ := h entry hentry
      rw [← hkey, get_of_mem hentries hentry, get, hother]
      exact hvalue
    · have hnone : ∀ {l : List (PropertyKey × PropertyTree)}, key ∉ l.map Prod.fst →
          (PropertyTree.object l).get key = .undefined := by
        intro l hl
        have hlookup : l.lookup key = none := by
          rw [List.lookup_eq_none_iff]
          intro entry hentry
          simpa using fun heq : key = entry.1 => hl (heq ▸ List.mem_map_of_mem hentry)
        rw [get, hlookup, Option.getD_none]
      rw [hnone hkey, hnone fun h => hkey ((hkeys key).mpr h)]
      exact deepEqual_refl _

theorem not_deepEqual_of_not_alike (h : ¬ value.Alike other) : ¬ value.DeepEqual other :=
  fun hequal => h (hequal [])

theorem deepEqual_iff (value : PropertyTree) : ∀ other : PropertyTree, value.WellFormed →
    other.WellFormed → (deepEqual value other = true ↔ value.DeepEqual other) := by
  induction value using induction with
  | array items ih =>
      intro other hvalue hother
      cases other with
      | array others =>
          rw [deepEqual, deepEqual_array]
          exact deepEqualItems_iff ih ((wellFormedItems_iff items).mp hvalue)
            ((wellFormedItems_iff others).mp hother)
      | _ => exact iff_of_false (by simp [deepEqual]) (not_deepEqual_of_not_alike nofun)
  | object entries ih =>
      intro other hvalue hother
      cases other with
      | object others =>
          obtain ⟨hkeys, hvalues⟩ := hvalue
          obtain ⟨hotherKeys, hotherValues⟩ := hother
          rw [wellFormedEntries_iff] at hvalues hotherValues
          rw [deepEqual, Bool.and_eq_true, decide_eq_true_iff, deepEqualEntries_iff,
            deepEqual_object hkeys hotherKeys]
          refine and_congr_right fun _ => forall₂_congr fun entry hentry =>
            exists_congr fun found => and_congr_right fun hfound => ?_
          have hmem := (lookup_eq_some_iff_mem hotherKeys).mp hfound
          exact ih entry hentry found (hvalues entry hentry) (hotherValues _ hmem)
      | _ => exact iff_of_false (by simp [deepEqual]) (not_deepEqual_of_not_alike nofun)
  | _ =>
      intro other _ _
      cases other with
      | array others => exact iff_of_false (by simp [deepEqual]) (not_deepEqual_of_not_alike nofun)
      | object others =>
          exact iff_of_false (by simp [deepEqual]) (not_deepEqual_of_not_alike nofun)
      | _ => rw [deepEqual_leaf rfl rfl]; simp [deepEqual, Alike]

end PropertyTree

end N8n.Collections
