import Mathlib.Data.List.Nodup

/-!
# Trees of properties

Values of plain JavaScript data: primitive values, arrays and objects with keyed entries. A value
is read at a path of keys, and a function on the leaves, which knows the path of each of them, is
applied to a whole tree.
-/

namespace N8n.Collections

theorem lookup_cons_entry {α β : Type} [BEq α] (entry : α × β) (rest : List (α × β)) (key : α) :
    (entry :: rest).lookup key =
      match key == entry.1 with
      | true => some entry.2
      | false => rest.lookup key :=
  List.lookup_cons

/-- The key of a property: the index of an array, or any other name. -/
inductive PropertyKey where
  | index (n : Nat)
  | name (text : List Char)
  deriving DecidableEq, Repr

/-- A value of plain data. `undefined` is the value of a property that does not exist. -/
inductive PropertyTree where
  | undefined
  | null
  | boolean (value : Bool)
  | number (value : Rat)
  | string (text : List Char)
  | array (items : List PropertyTree)
  | object (entries : List (PropertyKey × PropertyTree))

namespace PropertyTree

theorem induction {motive : PropertyTree → Prop} (undefined : motive .undefined)
    (null : motive .null) (boolean : ∀ value, motive (.boolean value))
    (number : ∀ value, motive (.number value)) (string : ∀ text, motive (.string text))
    (array : ∀ items, (∀ item ∈ items, motive item) → motive (.array items))
    (object : ∀ entries, (∀ entry ∈ entries, motive entry.2) → motive (.object entries))
    (value : PropertyTree) : motive value :=
  @PropertyTree.rec motive (fun items => ∀ item ∈ items, motive item)
    (fun entries => ∀ entry ∈ entries, motive entry.2) (fun entry => motive entry.2)
    undefined null boolean number string array object
    (fun _ hitem => absurd hitem List.not_mem_nil)
    (fun _ _ hhead htail => List.forall_mem_cons.mpr ⟨hhead, htail⟩)
    (fun _ hentry => absurd hentry List.not_mem_nil)
    (fun _ _ hhead htail => List.forall_mem_cons.mpr ⟨hhead, htail⟩)
    (fun _ _ hvalue => hvalue) value

/-- Is the value an array or an object? -/
def isContainer : PropertyTree → Bool
  | .array _ | .object _ => true
  | _ => false

/-- The value of a property: `value[key]`, and `undefined` where `value` has no properties. -/
def get : PropertyTree → PropertyKey → PropertyTree
  | .array items, .index n => items[n]?.getD .undefined
  | .array items, .name text =>
    if text = ['l', 'e', 'n', 'g', 't', 'h'] then .number items.length else .undefined
  | .object entries, key => (entries.lookup key).getD .undefined
  | _, _ => .undefined

/-- The properties of a value in their order: `Object.entries(value)`. -/
def children : PropertyTree → List (PropertyKey × PropertyTree)
  | .array items => items.zipIdx.map fun item => (.index item.2, item.1)
  | .object entries => entries
  | _ => []

/-- Replace the value of every property. -/
def mapChildren (g : PropertyKey → PropertyTree → PropertyTree) : PropertyTree → PropertyTree
  | .array items => .array (items.zipIdx.map fun item => g (.index item.2) item.1)
  | .object entries => .object (entries.map fun entry => (entry.1, g entry.1 entry.2))
  | leaf => leaf

/-- The value at a path of keys. -/
def valueAt (value : PropertyTree) : List PropertyKey → PropertyTree
  | [] => value
  | key :: path => (value.get key).valueAt path

@[simp] theorem valueAt_nil (value : PropertyTree) : value.valueAt [] = value := rfl

@[simp] theorem valueAt_cons (value : PropertyTree) (key : PropertyKey) (path : List PropertyKey) :
    value.valueAt (key :: path) = (value.get key).valueAt path := rfl

mutual

/-- Every object in the tree has distinct keys. -/
def WellFormed : PropertyTree → Prop
  | .array items => WellFormedItems items
  | .object entries => (entries.map Prod.fst).Nodup ∧ WellFormedEntries entries
  | _ => True

/-- `WellFormed` of the items of an array. -/
def WellFormedItems : List PropertyTree → Prop
  | [] => True
  | item :: rest => item.WellFormed ∧ WellFormedItems rest

/-- `WellFormed` of the values of an object. -/
def WellFormedEntries : List (PropertyKey × PropertyTree) → Prop
  | [] => True
  | (_, value) :: rest => value.WellFormed ∧ WellFormedEntries rest

end

mutual

/-- Apply a function to the leaves of a tree: the values at the ends of its paths. -/
def mapLeaves (f : List PropertyKey → PropertyTree → PropertyTree) : PropertyTree → PropertyTree
  | .array items => .array (mapLeavesItems f 0 items)
  | .object entries => .object (mapLeavesEntries f entries)
  | leaf => f [] leaf

/-- `mapLeaves` of the items of an array from an index on. -/
def mapLeavesItems (f : List PropertyKey → PropertyTree → PropertyTree) (index : Nat) :
    List PropertyTree → List PropertyTree
  | [] => []
  | item :: rest =>
    mapLeaves (fun path => f (.index index :: path)) item :: mapLeavesItems f (index + 1) rest

/-- `mapLeaves` of the values of an object. -/
def mapLeavesEntries (f : List PropertyKey → PropertyTree → PropertyTree) :
    List (PropertyKey × PropertyTree) → List (PropertyKey × PropertyTree)
  | [] => []
  | (key, value) :: rest =>
    (key, mapLeaves (fun path => f (key :: path)) value) :: mapLeavesEntries f rest

end

variable {value : PropertyTree}

theorem get_of_not_isContainer (h : value.isContainer = false) (key : PropertyKey) :
    value.get key = .undefined := by
  cases value with
  | array => cases h
  | object => cases h
  | _ => rfl

@[simp] theorem valueAt_undefined (path : List PropertyKey) :
    PropertyTree.undefined.valueAt path = .undefined := by
  induction path with
  | nil => rfl
  | cons key path ih => exact ih

theorem valueAt_of_not_isContainer (h : value.isContainer = false) (key : PropertyKey)
    (path : List PropertyKey) : value.valueAt (key :: path) = .undefined := by
  rw [valueAt_cons, get_of_not_isContainer h, valueAt_undefined]

@[simp] theorem wellFormedItems_iff (items : List PropertyTree) :
    WellFormedItems items ↔ ∀ item ∈ items, item.WellFormed := by
  induction items with
  | nil => simp [WellFormedItems]
  | cons item rest ih => simp [WellFormedItems, ih]

@[simp] theorem wellFormedEntries_iff (entries : List (PropertyKey × PropertyTree)) :
    WellFormedEntries entries ↔ ∀ entry ∈ entries, entry.2.WellFormed := by
  induction entries with
  | nil => simp [WellFormedEntries]
  | cons entry rest ih => simp [WellFormedEntries, ih]

variable {entry : PropertyKey × PropertyTree}

theorem get_of_mem {entries : List (PropertyKey × PropertyTree)}
    (hdistinct : (entries.map Prod.fst).Nodup) (hentry : entry ∈ entries) :
    (PropertyTree.object entries).get entry.1 = entry.2 := by
  induction entries with
  | nil => cases hentry
  | cons head rest ih =>
    obtain ⟨hhead, hrest⟩ := List.nodup_cons.mp hdistinct
    rcases List.mem_cons.mp hentry with rfl | hentry
    · simp [get, lookup_cons_entry]
    · have hne : ¬ entry.1 = head.1 := fun h => hhead (h ▸ List.mem_map_of_mem hentry)
      have hbeq : (entry.1 == head.1) = false := by simpa using hne
      simpa [get, lookup_cons_entry, hbeq] using ih hrest hentry

theorem induction_children {motive : PropertyTree → Prop}
    (leaf : ∀ value, value.isContainer = false → motive value)
    (container : ∀ value, value.isContainer = true → (∀ entry ∈ value.children, motive entry.2) →
      motive value)
    (value : PropertyTree) : motive value := by
  induction value using induction with
  | undefined => exact leaf _ rfl
  | null => exact leaf _ rfl
  | boolean value => exact leaf _ rfl
  | number value => exact leaf _ rfl
  | string text => exact leaf _ rfl
  | array items ih =>
    refine container _ rfl fun entry hentry => ?_
    obtain ⟨item, hitem, rfl⟩ := List.mem_map.mp hentry
    exact ih item.1 (List.fst_mem_of_mem_zipIdx hitem)
  | object entries ih => exact container _ rfl ih

theorem get_of_mem_children (hvalue : value.WellFormed) (hentry : entry ∈ value.children) :
    value.get entry.1 = entry.2 := by
  cases value with
  | array items =>
    obtain ⟨item, hitem, rfl⟩ := List.mem_map.mp hentry
    simp [get, List.mem_zipIdx_iff_getElem?.mp hitem]
  | object entries => exact get_of_mem hvalue.1 hentry
  | _ => cases hentry

theorem wellFormed_of_mem_children (hvalue : value.WellFormed) (hentry : entry ∈ value.children) :
    entry.2.WellFormed := by
  cases value with
  | array items =>
    obtain ⟨item, hitem, rfl⟩ := List.mem_map.mp hentry
    exact (wellFormedItems_iff items).mp hvalue item.1 (List.fst_mem_of_mem_zipIdx hitem)
  | object entries => exact (wellFormedEntries_iff entries).mp hvalue.2 entry hentry
  | _ => cases hentry

theorem get_cases (value : PropertyTree) (key : PropertyKey) :
    (key, value.get key) ∈ value.children ∨ value.get key = .undefined ∨
      ∃ length, value.get key = .number length := by
  cases value with
  | array items =>
    cases key with
    | index n =>
      cases hitem : items[n]? with
      | none => exact .inr (.inl (by simp [get, hitem]))
      | some item =>
        refine .inl (List.mem_map.mpr ⟨(item, n), ?_, by simp [get, hitem]⟩)
        exact List.mem_zipIdx_iff_getElem?.mpr hitem
    | name text =>
      by_cases hlength : text = ['l', 'e', 'n', 'g', 't', 'h']
      · exact .inr (.inr ⟨items.length, by simp [get, hlength]⟩)
      · exact .inr (.inl (by simp [get, hlength]))
  | object entries =>
    cases hentry : entries.lookup key with
    | none => exact .inr (.inl (by simp [get, hentry]))
    | some found =>
      obtain ⟨before, after, rfl, -⟩ := List.lookup_eq_some_iff.mp hentry
      exact .inl (by simp [get, children, hentry])
  | _ => exact .inr (.inl rfl)

theorem forall_valueAt_cons (hvalue : value.WellFormed)
    {P : PropertyKey → List PropertyKey → PropertyTree → Prop}
    (hundefined : ∀ key path, P key path .undefined)
    (hnumber : ∀ key path number, P key path (.number number)) :
    (∀ key path, P key path (value.valueAt (key :: path))) ↔
      ∀ entry ∈ value.children, ∀ path, P entry.1 path (entry.2.valueAt path) := by
  constructor
  · intro h entry hentry path
    have hat := h entry.1 path
    rwa [valueAt_cons, get_of_mem_children hvalue hentry] at hat
  · intro h key path
    rw [valueAt_cons]
    rcases get_cases value key with hentry | hnone | ⟨length, hlength⟩
    · exact h _ hentry path
    · rw [hnone, valueAt_undefined]
      exact hundefined key path
    · rw [hlength]
      cases path with
      | nil => exact hnumber key [] length
      | cons next path =>
        rw [valueAt_of_not_isContainer rfl]
        exact hundefined key (next :: path)

theorem mapChildren_id (value : PropertyTree) :
    value.mapChildren (fun _ child => child) = value := by
  cases value with
  | array items =>
    have h : items.zipIdx.map (fun item => item.1) = items := List.zipIdx_map_fst 0 items
    simp [mapChildren, h]
  | object entries => simp [mapChildren]
  | _ => rfl

theorem mapChildren_inj {g g' : PropertyKey → PropertyTree → PropertyTree} :
    value.mapChildren g = value.mapChildren g' ↔
      ∀ entry ∈ value.children, g entry.1 entry.2 = g' entry.1 entry.2 := by
  cases value with
  | array items =>
    simp only [mapChildren, children, array.injEq, List.map_inj_left, List.forall_mem_map]
  | object entries => simp [mapChildren, children]
  | _ => simp [mapChildren, children]

theorem mapChildren_eq_self {g : PropertyKey → PropertyTree → PropertyTree} :
    value.mapChildren g = value ↔ ∀ entry ∈ value.children, g entry.1 entry.2 = entry.2 := by
  conv_lhs => rhs; rw [← mapChildren_id value]
  exact mapChildren_inj

theorem mapLeavesItems_eq (f : List PropertyKey → PropertyTree → PropertyTree) (index : Nat)
    (items : List PropertyTree) :
    mapLeavesItems f index items = (items.zipIdx index).map fun item =>
      mapLeaves (fun path => f (.index item.2 :: path)) item.1 := by
  induction items generalizing index with
  | nil => rfl
  | cons item rest ih => simp [mapLeavesItems, ih]

theorem mapLeavesEntries_eq (f : List PropertyKey → PropertyTree → PropertyTree)
    (entries : List (PropertyKey × PropertyTree)) :
    mapLeavesEntries f entries = entries.map fun entry =>
      (entry.1, mapLeaves (fun path => f (entry.1 :: path)) entry.2) := by
  induction entries with
  | nil => rfl
  | cons entry rest ih => simp [mapLeavesEntries, ih]

theorem mapLeaves_container (h : value.isContainer = true)
    (f : List PropertyKey → PropertyTree → PropertyTree) :
    value.mapLeaves f =
      value.mapChildren fun key child => child.mapLeaves fun path => f (key :: path) := by
  cases value with
  | array items => simp [mapLeaves, mapChildren, mapLeavesItems_eq]
  | object entries => simp [mapLeaves, mapChildren, mapLeavesEntries_eq]
  | _ => cases h

theorem mapLeaves_leaf (h : value.isContainer = false)
    (f : List PropertyKey → PropertyTree → PropertyTree) : value.mapLeaves f = f [] value := by
  cases value with
  | array => cases h
  | object => cases h
  | _ => simp [mapLeaves]

end PropertyTree

end N8n.Collections
