import Mathlib.Data.List.Nodup

/-!
# Differences of keyed lists

Two lists with distinct keys differ in a key that only one of them has, or under which they have
elements that count as changed. A listing of what is missing on either side and of what was modified
has each of these keys once exactly when its modified part has the changed keys once.
-/

namespace N8n.Collections

variable {α κ : Type} [DecidableEq κ] (key : α → κ) (changed : α → α → Bool)

/-- The elements whose key none of the others has. -/
def missingFrom (own others : List α) : List α :=
  own.filter fun a => (others.find? fun b => key b = key a).isNone

/-- Both lists have the key, with elements that count as changed. -/
def ChangedAt (ours theirs : List α) (k : κ) : Prop :=
  ∃ a ∈ ours, ∃ b ∈ theirs, key a = k ∧ key b = k ∧ changed a b = true

/-- The lists differ in the key. -/
def DiffersAt (ours theirs : List α) (k : κ) : Prop :=
  (k ∈ theirs.map key ∧ k ∉ ours.map key) ∨ (k ∈ ours.map key ∧ k ∉ theirs.map key) ∨
    ChangedAt key changed ours theirs k

/-- The keys that are missing on either side, and those of a modified part. -/
def listing (ours theirs : List α) (modified : List κ) : List κ :=
  (missingFrom key theirs ours).map key ++ (missingFrom key ours theirs).map key ++ modified

variable {key changed} {ours theirs : List α} {k : κ}

theorem mem_map_missingFrom :
    k ∈ (missingFrom key ours theirs).map key ↔ k ∈ ours.map key ∧ k ∉ theirs.map key := by
  have hnone : ∀ a, (theirs.find? fun b => key b = key a).isNone ↔ key a ∉ theirs.map key := by
    intro a
    rw [Option.isNone_iff_eq_none, List.find?_eq_none, List.mem_map]
    simp only [decide_eq_true_eq, not_exists, not_and]
  constructor
  · intro h
    obtain ⟨a, hmem, rfl⟩ := List.mem_map.mp h
    obtain ⟨hmem, hmissing⟩ := List.mem_filter.mp hmem
    exact ⟨List.mem_map_of_mem hmem, (hnone a).mp hmissing⟩
  · rintro ⟨h, hmissing⟩
    obtain ⟨a, hmem, rfl⟩ := List.mem_map.mp h
    exact List.mem_map_of_mem (List.mem_filter.mpr ⟨hmem, (hnone a).mpr hmissing⟩)

theorem nodup_missingFrom (h : (ours.map key).Nodup) :
    ((missingFrom key ours theirs).map key).Nodup :=
  h.sublist (List.filter_sublist.map key)

omit [DecidableEq κ] in
theorem ChangedAt.mem (h : ChangedAt key changed ours theirs k) :
    k ∈ ours.map key ∧ k ∈ theirs.map key := by
  obtain ⟨a, ha, b, hb, rfl, hkey, -⟩ := h
  exact ⟨List.mem_map_of_mem ha, hkey ▸ List.mem_map_of_mem hb⟩

theorem mem_listing {modified : List κ} :
    k ∈ listing key ours theirs modified ↔
      (k ∈ theirs.map key ∧ k ∉ ours.map key) ∨ (k ∈ ours.map key ∧ k ∉ theirs.map key) ∨
        k ∈ modified := by
  rw [listing, List.mem_append, List.mem_append, mem_map_missingFrom, mem_map_missingFrom, or_assoc]

theorem listing_exact_iff (hours : (ours.map key).Nodup) (htheirs : (theirs.map key).Nodup)
    (modified : List κ) :
    ((listing key ours theirs modified).Nodup ∧
        ∀ k, k ∈ listing key ours theirs modified ↔ DiffersAt key changed ours theirs k) ↔
      modified.Nodup ∧ ∀ k, k ∈ modified ↔ ChangedAt key changed ours theirs k := by
  have hmissing : ((missingFrom key theirs ours).map key ++
      (missingFrom key ours theirs).map key).Nodup := by
    refine List.nodup_append'.mpr ⟨nodup_missingFrom htheirs, nodup_missingFrom hours, ?_⟩
    intro k htheir hour
    exact (mem_map_missingFrom.mp hour).2 (mem_map_missingFrom.mp htheir).1
  constructor
  · rintro ⟨hnodup, hmem⟩
    obtain ⟨-, hmodified, hdisjoint⟩ := List.nodup_append'.mp hnodup
    refine ⟨hmodified, fun k => ⟨fun hk => ?_, fun hk => ?_⟩⟩
    · -- a key that is missing on a side is listed for that already
      obtain h | h | h := (hmem k).mp (List.mem_append_right _ hk)
      · exact absurd hk (hdisjoint (List.mem_append_left _ (mem_map_missingFrom.mpr h)))
      · exact absurd hk (hdisjoint (List.mem_append_right _ (mem_map_missingFrom.mpr h)))
      · exact h
    · obtain h | h | h := mem_listing.mp ((hmem k).mpr (.inr (.inr hk)))
      · exact absurd hk.mem.1 h.2
      · exact absurd hk.mem.2 h.2
      · exact h
  · rintro ⟨hmodified, hmem⟩
    refine ⟨List.nodup_append'.mpr ⟨hmissing, hmodified, fun k hlisted hk => ?_⟩, fun k => ?_⟩
    · obtain ⟨hours, htheirs⟩ := ((hmem k).mp hk).mem
      obtain h | h := List.mem_append.mp hlisted
      · exact (mem_map_missingFrom.mp h).2 hours
      · exact (mem_map_missingFrom.mp h).2 htheirs
    · rw [mem_listing, hmem]
      rfl

/-- The keys under which an element of ours finds a changed one with its key. -/
def changedKeys (key : α → κ) (changed : α → α → Bool) (ours theirs : List α) : List κ :=
  (ours.filter fun a => (theirs.find? fun b => key b = key a && changed a b).isSome).map key

theorem changedKeys_exact (hours : (ours.map key).Nodup) :
    (changedKeys key changed ours theirs).Nodup ∧
      ∀ k, k ∈ changedKeys key changed ours theirs ↔ ChangedAt key changed ours theirs k := by
  refine ⟨hours.sublist (List.filter_sublist.map key), fun k => ?_⟩
  unfold changedKeys ChangedAt
  simp only [List.mem_map, List.mem_filter, List.find?_isSome, Bool.and_eq_true, decide_eq_true_eq]
  constructor
  · rintro ⟨a, ⟨ha, b, hb, hkey, hchanged⟩, rfl⟩
    exact ⟨a, ha, b, hb, rfl, hkey, hchanged⟩
  · rintro ⟨a, ha, b, hb, rfl, hkey, hchanged⟩
    exact ⟨a, ⟨ha, b, hb, hkey, hchanged⟩, rfl⟩

theorem map_filterMap_eq_changedKeys {g : α → Option α}
    (hsome : ∀ a ∈ ours, (g a).isSome =
      (theirs.find? fun b => key b = key a && changed a b).isSome)
    (hkey : ∀ a ∈ ours, ∀ b, g a = some b → key b = key a) :
    (ours.filterMap g).map key = changedKeys key changed ours theirs := by
  unfold changedKeys
  induction ours with
  | nil => rfl
  | cons a ours ih =>
    have hrest := ih (fun b hb => hsome b (List.mem_cons_of_mem _ hb))
      fun b hb => hkey b (List.mem_cons_of_mem _ hb)
    have hhead := hsome a List.mem_cons_self
    rw [List.filter_cons, ← hhead]
    cases hg : g a with
    | none => rw [List.filterMap_cons_none hg, hrest]; rfl
    | some b =>
      rw [List.filterMap_cons_some hg, List.map_cons, hkey a List.mem_cons_self b hg, hrest]
      rfl

end N8n.Collections
