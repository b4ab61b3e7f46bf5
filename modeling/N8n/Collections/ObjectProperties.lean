import Mathlib.Data.Finset.Dedup
import N8n.Collections.ObjectHeap
import N8n.Text.Equality

/-!
# Properties of objects

The built-ins that objects and arrays inherit, the keys of an object, and objects that have the same
properties up to a map of references. The operations on objects keep this relation.
-/

namespace N8n.Collections

/-- The names of the properties of `Object.prototype`. -/
def objectPrototypeNames : List (List Char) :=
  ["constructor", "__proto__", "hasOwnProperty", "isPrototypeOf", "propertyIsEnumerable",
    "toLocaleString", "toString", "valueOf", "__defineGetter__", "__defineSetter__",
    "__lookupGetter__", "__lookupSetter__"].map String.toList

/-- The names of the properties of `Array.prototype`. Its `length` is hidden by that of an array. -/
def arrayPrototypeNames : List (List Char) :=
  ["constructor", "at", "concat", "copyWithin", "entries", "every", "fill", "filter", "find",
    "findIndex", "findLast", "findLastIndex", "flat", "flatMap", "forEach", "includes", "indexOf",
    "join", "keys", "lastIndexOf", "map", "pop", "push", "reduce", "reduceRight", "reverse",
    "shift", "slice", "some", "sort", "splice", "toLocaleString", "toReversed", "toSorted",
    "toSpliced", "toString", "unshift", "values", "with"].map String.toList

/-- Does an object or an array inherit a property of this key? -/
def isInherited (ofArrays : Bool) : PropertyKey → Bool
  | .index _ => false
  | .name text => ofArrays && decide (text ∈ arrayPrototypeNames) ||
      decide (text ∈ objectPrototypeNames)

/-- The built-in that an object or an array inherits under a key. -/
def inherited {ρ : Type} (ofArrays : Bool) : PropertyKey → HeapValue ρ
  | .index _ => .undefined
  | .name text =>
    if ofArrays ∧ text ∈ arrayPrototypeNames then .intrinsic true text
    else if text ∈ objectPrototypeNames then .intrinsic false text
    else .undefined

namespace HeapObject

variable {ρ ρ' : Type}

/-- `Array.isArray(node)`. -/
def isArray (node : HeapObject ρ) : Bool := node.length.isSome

/-- The value of a property: `Reflect.get(node, key)`. -/
def read (node : HeapObject ρ) (key : PropertyKey) : HeapValue ρ :=
  (node.own key).getD (inherited node.isArray key)

/-- Does the object have the property: `Reflect.has(node, key)`. -/
def has (node : HeapObject ρ) (key : PropertyKey) : Bool :=
  (node.own key).isSome || isInherited node.isArray key

/-- The length of an array cannot be deleted. -/
def canDelete (node : HeapObject ρ) (key : PropertyKey) : Bool :=
  !(node.isArray && decide (key = lengthKey))

/-- The keys of the properties that can be enumerated, all but the length of an array:
`Object.keys(node)`. -/
def keys (node : HeapObject ρ) : List PropertyKey :=
  (node.entries.map Prod.fst).filter node.canDelete

/-- A new array of the items: `[...node]`. -/
def spread (node : HeapObject ρ) : HeapObject ρ :=
  let n := node.length.getD 0
  { length := some n
    entries := (List.range n).map fun i => (.index i, node.get (.index i)) }

/-- The items of an array are below its length. -/
def Bounded (node : HeapObject ρ) : Prop :=
  ∀ n, node.length = some n → ∀ i, (node.own (.index i)).isSome → i < n

/-- The second object has the properties of the first one, up to a map of references. -/
structure Maps (f : ρ → ρ') (node : HeapObject ρ) (node' : HeapObject ρ') : Prop where
  length : node'.length = node.length
  own : ∀ key, node'.own key = (node.own key).map (HeapValue.map f)

/-- Two objects have the same properties. -/
structure Same (node node' : HeapObject ρ) : Prop where
  length : node'.length = node.length
  own : ∀ key, node'.own key = node.own key

variable {n : Nat}

variable {node : HeapObject ρ}

theorem own_length (h : node.length = some n) : node.own lengthKey = some (.number n) := by
  simp [own, h]

variable {key : PropertyKey}

theorem own_of_ne_length (h : key ≠ lengthKey) : node.own key = node.entries.lookup key := by
  unfold own
  split
  · rw [if_neg h]
  · rfl

theorem own_object (h : node.length = none) (key : PropertyKey) :
    node.own key = node.entries.lookup key := by
  simp [own, h]

variable {ref : ρ}

theorem ne_length_of_own (h : node.own key = some (.object ref)) :
    ¬ (node.isArray = true ∧ key = lengthKey) := by
  rintro ⟨harray, rfl⟩
  obtain ⟨n, hn⟩ := Option.isSome_iff_exists.mp harray
  rw [own_length hn] at h
  cases h

/-- What `length` becomes when it is written. -/
def writtenLength : HeapValue ρ → Option Nat
  | .number length => if length.den = 1 ∧ 0 ≤ length.num then some length.num.toNat else none
  | _ => none

theorem setLength_eq (node : HeapObject ρ) (value : HeapValue ρ) :
    node.setLength value =
      match writtenLength value with
      | some n =>
        { length := some n, entries := node.entries.filter fun entry => !isIndexFrom n entry.1 }
      | none => node := by
  cases value with
  | number length =>
    simp only [setLength, writtenLength]
    split <;> rfl
  | _ => rfl

theorem writtenLength_map (f : ρ → ρ') (value : HeapValue ρ) :
    writtenLength (value.map f) = writtenLength value := by
  cases value <;> rfl

theorem own_set_array (hn : node.length = some n) (hkey : key ≠ lengthKey) (value : HeapValue ρ)
    (other : PropertyKey) :
    (node.set key value).own other =
      if other = lengthKey then some (.number (grownLength n key))
      else if other = key then some value else node.own other := by
  simp only [set, hn, if_neg hkey, own]
  split
  · rfl
  · exact lookup_setEntry node.entries key other value

theorem length_set_array (hn : node.length = some n) (hkey : key ≠ lengthKey)
    (value : HeapValue ρ) : (node.set key value).length = some (grownLength n key) := by
  simp [set, hn, hkey]

theorem set_length (hn : node.length = some n) (value : HeapValue ρ) :
    node.set lengthKey value = node.setLength value := by
  simp [set, hn]

theorem own_truncate (node : HeapObject ρ) (n : Nat) (hn : node.isArray = true)
    (other : PropertyKey) :
    ({ length := some n, entries := node.entries.filter fun entry => !isIndexFrom n entry.1 } :
        HeapObject ρ).own other =
      if other = lengthKey then some (.number n)
      else if isIndexFrom n other then none else node.own other := by
  simp only [own]
  split
  · rfl
  · next hother =>
      rw [lookup_filter_key node.entries (fun key => !isIndexFrom n key) other]
      obtain ⟨m, hm⟩ := Option.isSome_iff_exists.mp hn
      cases isIndexFrom n other <;> simp [hm]

theorem own_delete (node : HeapObject ρ) (key other : PropertyKey) :
    (node.delete key).own other =
      if other = key ∧ node.canDelete key = true then none else node.own other := by
  have hlookup := lookup_filter_key node.entries (fun key' => !decide (key' = key)) other
  cases hlength : node.length with
  | none =>
    simp only [own, delete, hlength, canDelete, isArray, Option.isSome_none, Bool.false_and,
      Bool.not_false, and_true]
    rw [hlookup]
    by_cases hother : other = key <;> simp [hother]
  | some n =>
    simp only [own, delete, hlength, canDelete, isArray, Option.isSome_some, Bool.true_and]
    rw [hlookup]
    by_cases hother : other = key
    · by_cases hkey : key = lengthKey <;> simp [hother, hkey]
    · simp [hother]

/-- A reference that is read after a write was there before, or is what was written. -/
theorem own_set_ref {other : PropertyKey} {value : HeapValue ρ}
    (h : (node.set key value).own other = some (.object ref)) :
    (other = key ∧ value = .object ref) ∨ node.own other = some (.object ref) := by
  cases hlength : node.length with
  | none =>
    rw [own_set_object hlength] at h
    split at h
    · next hother => exact .inl ⟨hother, Option.some.inj h⟩
    · exact .inr h
  | some n =>
    by_cases hkey : key = lengthKey
    · rw [hkey, set_length hlength, setLength_eq] at h
      cases hwritten : writtenLength value with
      | none =>
        rw [hwritten] at h
        exact .inr h
      | some m =>
        simp only [hwritten] at h
        rw [own_truncate node m (by simp [isArray, hlength])] at h
        split at h
        · cases h
        · split at h
          · cases h
          · exact .inr h
    · rw [own_set_array hlength hkey] at h
      split at h
      · cases h
      · split at h
        · next hother => exact .inl ⟨hother, Option.some.inj h⟩
        · exact .inr h

theorem own_delete_ref {other : PropertyKey}
    (h : (node.delete key).own other = some (.object ref)) :
    node.own other = some (.object ref) := by
  rw [own_delete] at h
  split at h
  · cases h
  · exact h

theorem own_of_read (h : node.read key = .object ref) : node.own key = some (.object ref) := by
  rw [read] at h
  cases hown : node.own key with
  | some value => rw [hown] at h; exact congrArg some h
  | none =>
    rw [hown] at h
    cases key with
    | index n => cases h
    | name text =>
      simp only [Option.getD_none, inherited] at h
      split at h
      · cases h
      · split at h <;> cases h

theorem isArray_set (h : node.isArray = true) (key : PropertyKey) (value : HeapValue ρ) :
    (node.set key value).isArray = true := by
  obtain ⟨n, hn⟩ := Option.isSome_iff_exists.mp h
  by_cases hkey : key = lengthKey
  · rw [hkey, set_length hn, setLength_eq]
    split
    · rfl
    · exact h
  · rw [isArray, length_set_array hn hkey]
    rfl

/-! ## Bounded arrays -/

theorem Bounded.of_object (h : node.length = none) : node.Bounded := by
  intro n hn
  rw [h] at hn
  cases hn

theorem Bounded.of_same {node' : HeapObject ρ} (h : node.Bounded) (hsame : node.Same node') :
    node'.Bounded := by
  intro n hn i hi
  rw [hsame.own] at hi
  exact h n (hsame.length ▸ hn) i hi

theorem Bounded.set (h : node.Bounded) (key : PropertyKey) (value : HeapValue ρ) :
    (node.set key value).Bounded := by
  cases hlength : node.length with
  | none => exact .of_object (length_set_of_object hlength key value)
  | some n =>
    by_cases hkey : key = lengthKey
    · rw [hkey, set_length hlength, setLength_eq]
      split
      · next m _ =>
          intro m' hm' i hi
          obtain rfl : m = m' := Option.some.inj hm'
          rw [own_truncate node m (by simp [isArray, hlength])] at hi
          simp only [lengthKey, reduceCtorEq, if_false] at hi
          split at hi
          · cases hi
          · next hindex => simpa [isIndexFrom] using hindex
      · exact h
    · intro m hm i hi
      rw [length_set_array hlength hkey] at hm
      obtain rfl : grownLength n key = m := Option.some.inj hm
      rw [own_set_array hlength hkey] at hi
      simp only [lengthKey, reduceCtorEq, if_false] at hi
      split at hi
      · next hindex =>
          subst hindex
          exact Nat.lt_of_lt_of_le (Nat.lt_succ_self i) (Nat.le_max_right n (i + 1))
      · refine Nat.lt_of_lt_of_le (h n hlength i hi) ?_
        cases key with
        | index j => exact Nat.le_max_left n (j + 1)
        | name text => exact Nat.le_refl n

theorem Bounded.delete (h : node.Bounded) (key : PropertyKey) : (node.delete key).Bounded := by
  intro n hn i hi
  rw [own_delete] at hi
  split at hi
  · cases hi
  · exact h n hn i hi

theorem own_set_of_own (hbounded : node.Bounded) (hown : node.own key = some (.object ref))
    (value : HeapValue ρ) :
    (node.set key value).length = node.length ∧ ∀ other,
      (node.set key value).own other = if other = key then some value else node.own other := by
  cases hlength : node.length with
  | none =>
    exact ⟨length_set_of_object hlength key value,
      fun other => own_set_object hlength key other value⟩
  | some n =>
    have hkey : key ≠ lengthKey := fun hkey =>
      ne_length_of_own hown ⟨by simp [isArray, hlength], hkey⟩
    have hgrown : grownLength n key = n := by
      cases key with
      | index i => exact Nat.max_eq_left (hbounded n hlength i (by simp [hown]))
      | name text => rfl
    rw [length_set_array hlength hkey, hgrown]
    refine ⟨rfl, fun other => ?_⟩
    rw [own_set_array hlength hkey, hgrown]
    by_cases hother : other = lengthKey
    · rw [if_pos hother, if_neg (by rw [hother]; exact Ne.symm hkey), hother, own_length hlength]
    · rw [if_neg hother]

/-! ## Objects with the same properties -/

theorem Same.refl (node : HeapObject ρ) : node.Same node := ⟨rfl, fun _ => rfl⟩

theorem Maps.of_same {f : ρ → ρ'} {node₁ : HeapObject ρ} {node' : HeapObject ρ'}
    (h : node.Maps f node') (hsame : node.Same node₁) : node₁.Maps f node' :=
  ⟨h.length.trans hsame.length.symm, fun key => by rw [h.own, hsame.own]⟩

section Maps

variable {f : ρ → ρ'} {node : HeapObject ρ} {node' : HeapObject ρ'}

theorem Maps.isArray (h : node.Maps f node') : node'.isArray = node.isArray := by
  rw [HeapObject.isArray, HeapObject.isArray, h.length]

theorem Maps.has (h : node.Maps f node') (key : PropertyKey) : node'.has key = node.has key := by
  rw [HeapObject.has, HeapObject.has, h.own, h.isArray, Option.isSome_map]

theorem inherited_map (f : ρ → ρ') (ofArrays : Bool) (key : PropertyKey) :
    (inherited ofArrays key : HeapValue ρ).map f = inherited ofArrays key := by
  cases key with
  | index n => rfl
  | name text =>
    simp only [inherited]
    split
    · rfl
    · split <;> rfl

theorem inherited_of_not_isInherited {ofArrays : Bool} {key : PropertyKey}
    (h : isInherited ofArrays key = false) :
    (inherited ofArrays key : HeapValue ρ) = .undefined := by
  cases key with
  | index n => rfl
  | name text =>
    simp only [isInherited, Bool.or_eq_false_iff, Bool.and_eq_false_iff,
      decide_eq_false_iff_not] at h
    rw [inherited, if_neg fun h' => ?_, if_neg h.2]
    rcases h.1 with hobject | hname
    · rw [hobject] at h'
      cases h'.1
    · exact hname h'.2

theorem Maps.read (h : node.Maps f node') (key : PropertyKey) :
    node'.read key = (node.read key).map f := by
  rw [HeapObject.read, HeapObject.read, h.own, h.isArray]
  cases node.own key with
  | none => exact (inherited_map f node.isArray key).symm
  | some value => rfl

theorem Maps.canDelete (h : node.Maps f node') (key : PropertyKey) :
    node'.canDelete key = node.canDelete key := by
  rw [HeapObject.canDelete, HeapObject.canDelete, h.isArray]

theorem mem_keys (node : HeapObject ρ) (key : PropertyKey) :
    key ∈ node.keys ↔ (node.own key).isSome = true ∧ node.canDelete key = true := by
  have hlookup : (node.entries.lookup key).isSome = true ↔ key ∈ node.entries.map Prod.fst := by
    rw [← Option.not_isNone, Bool.not_eq_true', Option.isNone_eq_false_iff,
      Option.isSome_iff_ne_none, Ne, List.lookup_eq_none_iff]
    simp only [List.mem_map, not_forall]
    constructor
    · rintro ⟨entry, hentry, hkey⟩
      exact ⟨entry, hentry, by simpa using (Eq.symm (by simpa using hkey))⟩
    · rintro ⟨entry, hentry, rfl⟩
      exact ⟨entry, hentry, by simp⟩
  rw [keys, List.mem_filter, and_congr_left_iff]
  intro hdelete
  rw [← hlookup]
  cases hlength : node.length with
  | none => rw [own_object hlength]
  | some n =>
    have hkey : key ≠ lengthKey := by
      rintro rfl
      simp [HeapObject.canDelete, HeapObject.isArray, hlength] at hdelete
    rw [own_of_ne_length hkey]

theorem Maps.keys (h : node.Maps f node') : node'.keys.toFinset = node.keys.toFinset := by
  ext key
  rw [List.mem_toFinset, List.mem_toFinset, mem_keys, mem_keys, h.own, h.canDelete,
    Option.isSome_map]

theorem Maps.delete (h : node.Maps f node') (key : PropertyKey) :
    (node.delete key).Maps f (node'.delete key) := by
  refine ⟨h.length, fun other => ?_⟩
  rw [own_delete, own_delete, h.canDelete, h.own]
  split <;> rfl

theorem Maps.set (h : node.Maps f node') (key : PropertyKey) (value : HeapValue ρ) :
    (node.set key value).Maps f (node'.set key (value.map f)) := by
  cases hlength : node.length with
  | none =>
    have hlength' : node'.length = none := h.length.trans hlength
    refine ⟨?_, fun other => ?_⟩
    · rw [length_set_of_object hlength, length_set_of_object hlength']
    · rw [own_set_object hlength, own_set_object hlength', h.own]
      split <;> rfl
  | some n =>
    have hlength' : node'.length = some n := h.length.trans hlength
    by_cases hkey : key = lengthKey
    · rw [hkey, set_length hlength, set_length hlength', setLength_eq, setLength_eq,
        writtenLength_map]
      split
      · next m _ =>
          refine ⟨rfl, fun other => ?_⟩
          rw [own_truncate node m (by simp [HeapObject.isArray, hlength]),
            own_truncate node' m (by simp [HeapObject.isArray, hlength']), h.own]
          split
          · rfl
          · split <;> rfl
      · exact h
    · refine ⟨?_, fun other => ?_⟩
      · rw [length_set_array hlength hkey, length_set_array hlength' hkey]
      · rw [own_set_array hlength hkey, own_set_array hlength' hkey, h.own]
        split
        · rfl
        · split <;> rfl

end Maps

end HeapObject

end N8n.Collections
