import N8n.Collections.ObjectProperties

/-!
# The objects of a tree

When a tree of properties is loaded into memory, each of its arrays and objects becomes one object.
It is named by the number of the tree and its path there, so that every object has one place only.
-/

namespace N8n.Collections

/-- The name of an object or array: the number of the tree it comes from, and its path there, the
last key first. -/
abbrev ObjectId := Nat × List PropertyKey

variable {ρ ρ' : Type}

/-- The value of a tree, when its object or array has this reference. -/
def HeapValue.ofTree (ref : ρ) : PropertyTree → HeapValue ρ
  | .undefined => .undefined
  | .null => .null
  | .boolean value => .boolean value
  | .number value => .number value
  | .string text => .string text
  | .array _ => .object ref
  | .object _ => .object ref

/-- The object or array of a tree, when its children have these references. -/
def HeapObject.ofTree (ref : PropertyKey → ρ) (tree : PropertyTree) : HeapObject ρ :=
  { length :=
      match tree with
      | .array items => some items.length
      | _ => none
    entries := tree.children.map fun child => (child.1, .ofTree (ref child.1) child.2) }

/-- The objects of the `n`-th tree. -/
def loadTree (mk : ObjectId → ρ) (n : Nat) (tree : PropertyTree) (path : List PropertyKey) :
    HeapObject ρ :=
  .ofTree (fun key => mk (n, key :: path)) (tree.valueAt path.reverse)

theorem HeapValue.map_ofTree (f : ρ → ρ') (ref : ρ) (tree : PropertyTree) :
    (HeapValue.ofTree ref tree).map f = .ofTree (f ref) tree := by
  cases tree <;> rfl

theorem HeapValue.ofTree_eq_object {ref ref' : ρ} {tree : PropertyTree}
    (h : HeapValue.ofTree ref tree = .object ref') : ref' = ref := by
  cases tree with
  | array items => exact (HeapValue.object.inj h).symm
  | object entries => exact (HeapValue.object.inj h).symm
  | _ => cases h

namespace HeapObject

theorem lookup_map_entries {α β : Type} (g : PropertyKey → α → β)
    (entries : List (PropertyKey × α)) (key : PropertyKey) :
    (entries.map fun entry => (entry.1, g entry.1 entry.2)).lookup key =
      (entries.lookup key).map (g key) := by
  induction entries with
  | nil => rfl
  | cons entry rest ih =>
    rw [List.map_cons]
    by_cases hkey : key = entry.1
    · subst hkey
      rw [List.lookup_cons_self, List.lookup_cons_self]
      rfl
    · have hbeq : (key == entry.1) = false := by simpa using hkey
      rw [lookup_cons_entry, lookup_cons_entry, hbeq, ih]

theorem lookup_ofTree (ref : PropertyKey → ρ) (tree : PropertyTree) (key : PropertyKey) :
    (ofTree ref tree).entries.lookup key =
      (tree.children.lookup key).map (HeapValue.ofTree (ref key)) :=
  lookup_map_entries (fun key child => HeapValue.ofTree (ref key) child) tree.children key

theorem own_ofTree {ref : PropertyKey → ρ} {tree : PropertyTree} {key : PropertyKey} {ref' : ρ}
    (h : (ofTree ref tree).own key = some (.object ref')) : ref' = ref key := by
  have hlookup : (ofTree ref tree).entries.lookup key = some (.object ref') := by
    unfold own at h
    split at h
    · split at h
      · cases h
      · exact h
    · exact h
  rw [lookup_ofTree] at hlookup
  obtain ⟨child, -, hchild⟩ := Option.map_eq_some_iff.mp hlookup
  exact HeapValue.ofTree_eq_object hchild

theorem maps_ofTree (f : ρ → ρ') (ref : PropertyKey → ρ) (tree : PropertyTree) :
    (ofTree ref tree).Maps f (ofTree (fun key => f (ref key)) tree) := by
  refine ⟨by cases tree <;> rfl, fun key => ?_⟩
  have hlookup : (ofTree (fun key => f (ref key)) tree).entries.lookup key =
      ((ofTree ref tree).entries.lookup key).map (HeapValue.map f) := by
    rw [lookup_ofTree, lookup_ofTree, Option.map_map]
    congr 1
    funext child
    exact (HeapValue.map_ofTree f (ref key) child).symm
  cases tree with
  | array items =>
    simp only [own, ofTree] at hlookup ⊢
    split
    · rfl
    · exact hlookup
  | _ => exact hlookup

theorem lookup_children_array (items : List PropertyTree) (i : Nat) :
    (PropertyTree.array items).children.lookup (.index i) = items[i]? := by
  suffices h : ∀ n, ((items.zipIdx n).map fun item => (PropertyKey.index item.2, item.1)).lookup
      (.index (n + i)) = items[i]? by simpa [PropertyTree.children] using h 0
  intro n
  induction items generalizing n i with
  | nil => rfl
  | cons item rest ih =>
    cases i with
    | zero => simp
    | succ i =>
      have hbeq : (PropertyKey.index (n + (i + 1)) == PropertyKey.index n) = false := by
        simp
      simp only [List.zipIdx_cons, List.map_cons, lookup_cons_entry, hbeq]
      have := ih i (n + 1)
      rw [show n + (i + 1) = n + 1 + i from by omega, this]
      rfl

theorem lookup_children_array_name (items : List PropertyTree) (text : List Char) :
    (PropertyTree.array items).children.lookup (.name text) = none := by
  rw [List.lookup_eq_none_iff]
  intro entry hentry
  obtain ⟨item, -, rfl⟩ := List.mem_map.mp hentry
  rfl

theorem bounded_ofTree (ref : PropertyKey → ρ) (tree : PropertyTree) :
    (ofTree ref tree).Bounded := by
  cases tree with
  | array items =>
    intro n hn i hi
    obtain rfl : items.length = n := Option.some.inj hn
    rw [own_of_ne_length (by simp [lengthKey]), lookup_ofTree, lookup_children_array,
      Option.isSome_map] at hi
    simpa using hi
  | _ => exact .of_object rfl

theorem lookup_range (n : Nat) (g : Nat → HeapValue ρ) (key : PropertyKey) :
    ((List.range n).map fun i => (PropertyKey.index i, g i)).lookup key =
      match key with
      | .index i => if i < n then some (g i) else none
      | .name _ => none := by
  induction n with
  | zero => cases key <;> simp
  | succ n ih =>
    rw [List.range_succ, List.map_append, List.lookup_append, ih]
    cases key with
    | name text =>
      have hbeq : (PropertyKey.name text == PropertyKey.index n) = false := by simp
      simp [lookup_cons_entry, hbeq]
    | index i =>
      by_cases hlt : i < n
      · simp [hlt, Nat.lt_succ_of_lt hlt]
      · by_cases heq : i = n
        · simp [heq]
        · have hbeq : (PropertyKey.index i == PropertyKey.index n) = false := by simpa using heq
          simp [lookup_cons_entry, hbeq, hlt, show ¬ i < n + 1 by omega]

theorem same_spread_ofTree {ref : PropertyKey → ρ} {tree : PropertyTree}
    (h : (ofTree ref tree).isArray = true) : (ofTree ref tree).Same (ofTree ref tree).spread := by
  cases tree with
  | array items =>
    refine ⟨rfl, fun key => ?_⟩
    by_cases hkey : key = lengthKey
    · rw [hkey, own_length rfl, own_length rfl]
      rfl
    · rw [own_of_ne_length hkey, own_of_ne_length hkey]
      show ((List.range items.length).map fun i =>
        (PropertyKey.index i, (ofTree ref (.array items)).get (.index i))).lookup key = _
      rw [lookup_range, lookup_ofTree]
      cases key with
      | name text => rw [lookup_children_array_name]; rfl
      | index i =>
        rw [lookup_children_array]
        by_cases hi : i < items.length
        · simp only [hi, if_true, get]
          rw [own_of_ne_length (by simp [lengthKey]), lookup_ofTree, lookup_children_array,
            List.getElem?_eq_getElem hi]
          rfl
        · simp [hi]
  | _ => cases h

end HeapObject

end N8n.Collections
