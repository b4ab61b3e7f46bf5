import Mathlib.Logic.Function.Basic
import N8n.Collections.PropertyTree

/-!
# Objects by reference

JavaScript objects and arrays as nodes of a heap, so that one object can be reached on several
ways and be changed by everyone who has it. A value is read along a path of keys, and what is read
depends only on the properties on the path.
-/

namespace N8n.Collections

/-- A value: a primitive one, a built-in that objects or arrays inherit, or a reference to an object
or an array. -/
inductive HeapValue (ρ : Type) where
  | undefined
  | null
  | boolean (value : Bool)
  | number (value : Rat)
  | string (text : List Char)
  | intrinsic (ofArrays : Bool) (name : List Char)
  | object (ref : ρ)
  deriving DecidableEq

/-- The value with other references. -/
def HeapValue.map {ρ ρ' : Type} (f : ρ → ρ') : HeapValue ρ → HeapValue ρ'
  | .undefined => .undefined
  | .null => .null
  | .boolean value => .boolean value
  | .number value => .number value
  | .string text => .string text
  | .intrinsic ofArrays name => .intrinsic ofArrays name
  | .object ref => .object (f ref)

/-- An object, or an array with its length, and its own properties. -/
structure HeapObject (ρ : Type) where
  length : Option Nat := none
  entries : List (PropertyKey × HeapValue ρ) := []
  deriving DecidableEq

namespace HeapObject

variable {ρ ρ' : Type}

/-- The key `length`. -/
def lengthKey : PropertyKey := .name ['l', 'e', 'n', 'g', 't', 'h']

/-- The own property of a key. -/
def own (node : HeapObject ρ) (key : PropertyKey) : Option (HeapValue ρ) :=
  match node.length with
  | some n => if key = lengthKey then some (.number n) else node.entries.lookup key
  | none => node.entries.lookup key

/-- The value of a property, without inherited ones. -/
def get (node : HeapObject ρ) (key : PropertyKey) : HeapValue ρ := (node.own key).getD .undefined

/-- Write an entry. -/
def setEntry (entries : List (PropertyKey × HeapValue ρ)) (key : PropertyKey)
    (value : HeapValue ρ) : List (PropertyKey × HeapValue ρ) :=
  if entries.any fun entry => decide (entry.1 = key) then
    entries.map fun entry => if entry.1 = key then (key, value) else entry
  else entries ++ [(key, value)]

/-- The key is an index from this one on. -/
def isIndexFrom (length : Nat) : PropertyKey → Bool
  | .index n => length ≤ n
  | .name _ => false

/-- Write the length of an array: the indexes from there on are removed. Only a natural number is a
length. -/
def setLength (node : HeapObject ρ) : HeapValue ρ → HeapObject ρ
  | .number length =>
    if length.den = 1 ∧ 0 ≤ length.num then
      { length := some length.num.toNat
        entries := node.entries.filter fun entry => !isIndexFrom length.num.toNat entry.1 }
    else node
  | _ => node

/-- The length of an array after a write. -/
def grownLength (n : Nat) : PropertyKey → Nat
  | .index i => max n (i + 1)
  | .name _ => n

/-- Write a property: `Reflect.set(node, key, value)`. An array grows with its indexes. -/
def set (node : HeapObject ρ) (key : PropertyKey) (value : HeapValue ρ) : HeapObject ρ :=
  match node.length with
  | none => { node with entries := setEntry node.entries key value }
  | some n =>
    if key = lengthKey then node.setLength value
    else { length := some (grownLength n key), entries := setEntry node.entries key value }

/-- Delete a property: `Reflect.deleteProperty(node, key)`. -/
def delete (node : HeapObject ρ) (key : PropertyKey) : HeapObject ρ :=
  { node with entries := node.entries.filter fun entry => !decide (entry.1 = key) }

theorem lookup_setEntry (entries : List (PropertyKey × HeapValue ρ)) (key other : PropertyKey)
    (value : HeapValue ρ) :
    (setEntry entries key value).lookup other =
      if other = key then some value else entries.lookup other := by
  unfold setEntry
  split
  · next hany =>
      induction entries with
      | nil => cases hany
      | cons entry rest ih =>
        rw [List.map_cons]
        by_cases hkey : entry.1 = key
        · by_cases hother : other = key
          · simp [hkey, hother]
          · have hbeq : (other == key) = false := by simpa using hother
            have hentry : (other == entry.1) = false := by rw [hkey]; exact hbeq
            simp only [if_pos hkey, lookup_cons_entry, hbeq, hentry, if_neg hother]
            clear ih hany
            induction rest with
            | nil => rfl
            | cons next rest ih =>
              rw [List.map_cons]
              by_cases hnext : next.1 = key
              · have hbeq' : (other == next.1) = false := by rw [hnext]; exact hbeq
                simp only [if_pos hnext, lookup_cons_entry, hbeq, hbeq', ih]
              · simp only [if_neg hnext, lookup_cons_entry, ih]
        · have hrest : rest.any (fun entry => decide (entry.1 = key)) = true := by
            simpa [hkey] using hany
          simp only [if_neg hkey, lookup_cons_entry, ih hrest]
          by_cases hother : other = key
          · have hbeq : (key == entry.1) = false := by simpa using fun h => hkey h.symm
            simp [hbeq, hother]
          · simp [hother]
  · next hany =>
      rw [List.lookup_append]
      by_cases hother : other = key
      · have hnone : entries.lookup key = none := by
          rw [List.lookup_eq_none_iff]
          intro entry hentry
          have hne : ¬ entry.1 = key := fun h => hany (by
            rw [List.any_eq_true]
            exact ⟨entry, hentry, by simpa using h⟩)
          simpa using fun h => hne h.symm
        simp [hother, hnone]
      · have hbeq : (other == key) = false := by simpa using hother
        simp [lookup_cons_entry, hbeq, hother]

theorem lookup_filter_key (entries : List (PropertyKey × HeapValue ρ))
    (keep : PropertyKey → Bool) (key : PropertyKey) :
    (entries.filter fun entry => keep entry.1).lookup key =
      if keep key then entries.lookup key else none := by
  induction entries with
  | nil => simp
  | cons entry rest ih =>
    by_cases hkeep : keep entry.1 = true
    · rw [List.filter_cons_of_pos (by exact hkeep)]
      by_cases hkey : key = entry.1
      · simp [lookup_cons_entry, hkey, hkeep]
      · have hbeq : (key == entry.1) = false := by simpa using hkey
        simp only [lookup_cons_entry, hbeq, ih]
    · rw [List.filter_cons_of_neg (by exact hkeep), ih]
      by_cases hkey : key = entry.1
      · simp [hkey, hkeep]
      · have hbeq : (key == entry.1) = false := by simpa using hkey
        simp only [lookup_cons_entry, hbeq]

variable {node : HeapObject ρ}

theorem own_set_object (hnode : node.length = none) (key other : PropertyKey)
    (value : HeapValue ρ) :
    (node.set key value).own other = if other = key then some value else node.own other := by
  simp only [set, own, hnode]
  exact lookup_setEntry node.entries key other value

variable {key : PropertyKey}

theorem get_set_of_ne (hnode : node.length = none) {other : PropertyKey} (h : other ≠ key)
    (value : HeapValue ρ) : (node.set key value).get other = node.get other := by
  rw [get, get, own_set_object hnode, if_neg h]

theorem mem_setEntry {entries : List (PropertyKey × HeapValue ρ)} {value : HeapValue ρ}
    {entry : PropertyKey × HeapValue ρ} (h : entry ∈ setEntry entries key value) :
    entry ∈ entries ∨ entry = (key, value) := by
  unfold setEntry at h
  split at h
  · obtain ⟨entry', hentry', rfl⟩ := List.mem_map.mp h
    split
    · exact .inr rfl
    · exact .inl hentry'
  · simpa using h

theorem mem_entries_set {value : HeapValue ρ} {entry : PropertyKey × HeapValue ρ}
    (h : entry ∈ (node.set key value).entries) : entry ∈ node.entries ∨ entry = (key, value) := by
  unfold set at h
  split at h
  · exact mem_setEntry h
  · split at h
    · unfold setLength at h
      split at h
      · split at h
        · exact .inl (List.mem_filter.mp h).1
        · exact .inl h
      · exact .inl h
    · exact mem_setEntry h

theorem length_set_of_object (hnode : node.length = none) (key : PropertyKey)
    (value : HeapValue ρ) :
    (node.set key value).length = none := by
  simp [set, hnode]

end HeapObject

/-- A heap. An identifier that is not in use stands for an object without properties. -/
abbrev ObjectHeap := Nat → HeapObject Nat

namespace ObjectHeap

/-- The value of a property: `value[key]`, and `undefined` where `value` has no properties. -/
def property (heap : ObjectHeap) : HeapValue Nat → PropertyKey → HeapValue Nat
  | .object id, key => (heap id).get key
  | _, _ => .undefined

/-- The value at a path of keys. -/
def valueAt (heap : ObjectHeap) (value : HeapValue Nat) : List PropertyKey → HeapValue Nat
  | [] => value
  | key :: path => heap.valueAt (heap.property value key) path

/-- What a value is when references are not told apart. -/
inductive Shape where
  | leaf (value : HeapValue Nat)
  | container (length : Option Nat)
  deriving DecidableEq

/-- The shape of a value. -/
def shape (heap : ObjectHeap) : HeapValue Nat → Shape
  | .object id => .container (heap id).length
  | value => .leaf value

/-- The content of a value: the shape of what is read at each path. -/
def content (heap : ObjectHeap) (value : HeapValue Nat) (path : List PropertyKey) : Shape :=
  heap.shape (heap.valueAt value path)

variable {heap : ObjectHeap} {value : HeapValue Nat}

theorem valueAt_congr {heap' : ObjectHeap} {path : List PropertyKey}
    (h : ∀ before key after, path = before ++ key :: after →
      heap'.property (heap.valueAt value before) key =
        heap.property (heap.valueAt value before) key) :
    heap'.valueAt value path = heap.valueAt value path := by
  induction path generalizing value with
  | nil => rfl
  | cons key path ih =>
    have hhead := h [] key path rfl
    show heap'.valueAt (heap'.property value key) path = _
    rw [show heap'.property value key = heap.property value key from hhead]
    refine ih fun before key' after hpath => ?_
    exact h (key :: before) key' after (by rw [hpath]; rfl)

theorem mem_of_property {key : PropertyKey} {target : Nat}
    (h : heap.property value key = .object target) :
    ∃ owner, value = .object owner ∧ (key, .object target) ∈ (heap owner).entries := by
  cases value with
  | object owner =>
    refine ⟨owner, rfl, ?_⟩
    have hlookup : ((heap owner).entries.lookup key).getD .undefined = .object target := by
      simp only [property, HeapObject.get, HeapObject.own] at h
      split at h
      · split at h
        · cases h
        · exact h
      · exact h
    cases hfound : (heap owner).entries.lookup key with
    | none =>
      rw [hfound] at hlookup
      cases hlookup
    | some found =>
      rw [hfound] at hlookup
      obtain ⟨before, after, hentries, -⟩ := List.lookup_eq_some_iff.mp hfound
      have hvalue : found = .object target := hlookup
      simp [hentries, hvalue]
  | _ => cases h

/-- The value can be read from another one. -/
def Reaches (heap : ObjectHeap) (value : HeapValue Nat) (id : Nat) : Prop :=
  ∃ path, heap.valueAt value path = .object id

theorem valueAt_update_of_not_reaches {id : Nat} (h : ¬ heap.Reaches value id)
    (node : HeapObject Nat) (path : List PropertyKey) :
    ObjectHeap.valueAt (Function.update heap id node) value path = heap.valueAt value path := by
  refine valueAt_congr fun before key after _ => ?_
  cases hread : heap.valueAt value before with
  | object id' =>
    have hne : id' ≠ id := by
      rintro rfl
      exact h ⟨before, hread⟩
    simp [property, Function.update_of_ne hne]
  | _ => rfl

theorem content_update_of_not_reaches {id : Nat} (h : ¬ heap.Reaches value id)
    (node : HeapObject Nat) (path : List PropertyKey) :
    ObjectHeap.content (Function.update heap id node) value path = heap.content value path := by
  rw [content, content, valueAt_update_of_not_reaches h node path]
  cases hread : heap.valueAt value path with
  | object id' =>
    have hne : id' ≠ id := by
      rintro rfl
      exact h ⟨path, hread⟩
    simp [shape, Function.update_of_ne hne]
  | _ => rfl

end ObjectHeap

end N8n.Collections
