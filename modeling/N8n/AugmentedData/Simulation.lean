import Mathlib.Data.Finset.Erase
import Mathlib.Data.Finset.Insert
import N8n.Collections.ObjectInterface
import N8n.Collections.TreeObjects

/-!
# Augmented data and a deep copy

Augmented data are compared with a deep copy, whose objects are written to directly. The objects of
both have the same names, and a proxy stands for the object that it shows: the properties of its
changes, and the others of its target. Every target has at most one proxy, since the objects that
are not augmented yet are held in the place of the original data that they come from only.
-/

namespace N8n.AugmentedData

open Collections

/-! ## Augmented data

The input data of a node are wrapped in proxies, which keep the changes that its code makes to
themselves. See `augment`, `augmentArray` and `augmentObject` of
`packages/workflow/src/augment-object.ts`. The traps are translated for plain data: dates, regular
expressions, byte arrays and values with a method `toJSON` are left out, and so are symbols as keys.
-/

/-- A reference: to an object or array itself, or to one of the proxies of an object or array. -/
inductive Reference where
  | raw (id : ObjectId)
  | proxy (target : ObjectId) (i : Nat)
  deriving DecidableEq

abbrev Value := HeapValue Reference
abbrev Node := HeapObject Reference

/-- The variables that the traps of a proxy share. -/
inductive Proxy where
  | array (newData : Option Node)
  | object (newData : Node) (deletedProperties : Finset PropertyKey)

/-- The objects and arrays, the proxies of each, and the number of trees that were loaded. -/
structure Memory where
  heap : ObjectId → Node
  proxies : ObjectId → List Proxy
  trees : Nat

namespace Memory

/-- New data. -/
def literal (s : Memory) (tree : PropertyTree) : Value × Memory :=
  (.ofTree (.raw (s.trees, [])) tree,
    { s with
      heap := fun id => if id.1 = s.trees then loadTree .raw s.trees tree id.2 else s.heap id
      trees := s.trees + 1 })

/-- `Array.isArray(ref)`, which looks through proxies. -/
def isArray (s : Memory) : Reference → Bool
  | .raw id => (s.heap id).isArray
  | .proxy target _ => (s.heap target).isArray

/-- Change the variables of a proxy. -/
def setProxy (s : Memory) (target : ObjectId) (i : Nat) (proxy : Proxy) : Memory :=
  { s with proxies := Function.update s.proxies target ((s.proxies target).set i proxy) }

/-- `new Proxy(data, …)` with the variables that the traps share. -/
def newProxy (s : Memory) (data : ObjectId) (proxy : Proxy) : Value × Memory :=
  (.object (.proxy data (s.proxies data).length),
    { s with proxies := Function.update s.proxies data (s.proxies data ++ [proxy]) })

/-- `augment(value)`. A proxy is not augmented again. -/
def augment (s : Memory) : Value → Value × Memory
  | .object (.raw id) =>
    if (s.heap id).isArray then s.newProxy id (.array none) else s.newProxy id (.object {} ∅)
  | value => (value, s)

/-- `getData()` of `augmentArray`, without the assignment to `newData`. -/
def getData (s : Memory) (data : ObjectId) (newData : Option Node) : Node :=
  newData.getD (s.heap data).spread

/-- The key `constructor`. -/
def constructorKey : PropertyKey := .name "constructor".toList

/-- The trap `get` of `augmentArray`. -/
def getArray (s : Memory) (data : ObjectId) (i : Nat) (newData : Option Node) (key : PropertyKey) :
    Value × Memory :=
  if key = constructorKey then (.intrinsic true "constructor".toList, s)
  else
    let value := (newData.getD (s.heap data)).read key
    let augmented := s.augment value
    if augmented.1 ≠ value then
      (augmented.1,
        augmented.2.setProxy data i (.array ((s.getData data newData).set key augmented.1)))
    else (value, augmented.2)

/-- The trap `get` of `augmentObject`. -/
def getObject (s : Memory) (data : ObjectId) (i : Nat) (newData : Node)
    (deletedProperties : Finset PropertyKey) (key : PropertyKey) : Value × Memory :=
  if key = constructorKey then (.intrinsic false "constructor".toList, s)
  else if key ∈ deletedProperties then (.undefined, s)
  else
    match newData.own key with
    | some value => (value, s)
    | none =>
      let value := (s.heap data).read key
      let augmented := s.augment value
      if augmented.1 ≠ value then
        (augmented.1,
          augmented.2.setProxy data i (.object (newData.set key augmented.1) deletedProperties))
      else (value, augmented.2)

/-- `ref[key]`. -/
def get (s : Memory) (ref : Reference) (key : PropertyKey) : Value × Memory :=
  match ref with
  | .raw id => ((s.heap id).read key, s)
  | .proxy data i =>
    match (s.proxies data)[i]? with
    | some (.array newData) => s.getArray data i newData key
    | some (.object newData deletedProperties) => s.getObject data i newData deletedProperties key
    | none => (.undefined, s)

/-- The trap `set` of `augmentObject`: `undefined` deletes the property. -/
def setObject (s : Memory) (data : ObjectId) (i : Nat) (newData : Node)
    (deletedProperties : Finset PropertyKey) (key : PropertyKey) (value : Value) : Memory :=
  if value = .undefined then
    s.setProxy data i (.object (if newData.has key then newData.delete key else newData)
      (if (s.heap data).has key then insert key deletedProperties else deletedProperties))
  else s.setProxy data i (.object (newData.set key value) (deletedProperties.erase key))

/-- `ref[key] = value`. An array takes augmented values only. -/
def set (s : Memory) (ref : Reference) (key : PropertyKey) (value : Value) : Memory :=
  match ref with
  | .raw id => { s with heap := Function.update s.heap id ((s.heap id).set key value) }
  | .proxy data i =>
    match (s.proxies data)[i]? with
    | some (.array newData) =>
      let augmented := s.augment value
      augmented.2.setProxy data i (.array ((s.getData data newData).set key augmented.1))
    | some (.object newData deletedProperties) =>
      s.setObject data i newData deletedProperties key value
    | none => s

/-- `delete ref[key]`. -/
def delete (s : Memory) (ref : Reference) (key : PropertyKey) : Bool × Memory :=
  match ref with
  | .raw id =>
    ((s.heap id).canDelete key,
      { s with heap := Function.update s.heap id ((s.heap id).delete key) })
  | .proxy data i =>
    match (s.proxies data)[i]? with
    | some (.array newData) =>
      ((s.getData data newData).canDelete key,
        s.setProxy data i (.array ((s.getData data newData).delete key)))
    | some (.object newData deletedProperties) =>
      (true, s.setProxy data i (.object
        (if (newData.own key).isSome then newData.delete key else newData)
        (if ((s.heap data).own key).isSome then insert key deletedProperties
          else deletedProperties)))
    | none => (true, s)

/-- `key in ref`. -/
def has (s : Memory) (ref : Reference) (key : PropertyKey) : Bool :=
  match ref with
  | .raw id => (s.heap id).has key
  | .proxy data i =>
    match (s.proxies data)[i]? with
    | some (.array newData) => (newData.getD (s.heap data)).has key
    | some (.object newData deletedProperties) =>
      if key ∈ deletedProperties then false
      else if (newData.own key).isSome then newData.has key
      else (s.heap data).has key
    | none => false

/-- `hasOwnProperty.call(ref, key)`, which asks for a property descriptor. Once an array is copied,
its trap answers with the default descriptor for every key. -/
def hasOwn (s : Memory) (ref : Reference) (key : PropertyKey) : Bool :=
  match ref with
  | .raw id => ((s.heap id).own key).isSome
  | .proxy data i =>
    match (s.proxies data)[i]? with
    | some (.array none) => ((s.heap data).own key).isSome
    | some (.array (some newData)) =>
      if key = HeapObject.lengthKey then (newData.own key).isSome else true
    | some (.object newData deletedProperties) =>
      if key ∈ deletedProperties then false
      else if (newData.own key).isSome then (newData.own key).isSome
      else ((s.heap data).own key).isSome
    | none => false

/-- `Object.keys(ref)`: the keys of the trap `ownKeys` that have a property descriptor. -/
def keys (s : Memory) (ref : Reference) : List PropertyKey :=
  match ref with
  | .raw id => (s.heap id).keys
  | .proxy data i =>
    match (s.proxies data)[i]? with
    | some (.array newData) =>
      (newData.getD (s.heap data)).keys.filter (s.hasOwn ref)
    | some (.object newData deletedProperties) =>
      (((s.heap data).keys ++ newData.keys).dedup.filter
        fun key => key ∉ deletedProperties).filter (s.hasOwn ref)
    | none => []

end Memory

/-- Objects, arrays and proxies. -/
def proxies : ObjectInterface Memory Reference where
  literal := Memory.literal
  isArray := Memory.isArray
  get := Memory.get
  set := Memory.set
  delete := Memory.delete
  has := Memory.has
  hasOwn := Memory.hasOwn
  keys := Memory.keys

/-- A memory without objects. -/
def Memory.empty : Memory := { heap := fun _ => {}, proxies := fun _ => [], trees := 0 }

/-- The augmented data: `augmentObject(data)` or `augmentArray(data)`. The original data are the
first tree in memory. -/
def augmented (data : PropertyTree) : Session Memory Reference :=
  let loaded := Memory.empty.literal data
  let value := loaded.2.augment loaded.1
  { memory := value.2, values := [value.1] }

/-! ## Augmented data and a deep copy -/

/-- The objects and arrays of a deep copy, and the number of trees that were loaded. -/
structure Copy where
  heap : ObjectId → HeapObject ObjectId
  trees : Nat

namespace Copy

/-- New data. -/
def literal (s : Copy) (tree : PropertyTree) : HeapValue ObjectId × Copy :=
  (.ofTree (s.trees, []) tree,
    { heap := fun id => if id.1 = s.trees then loadTree (fun id => id) s.trees tree id.2
        else s.heap id
      trees := s.trees + 1 })

/-- Replace an object. -/
def put (s : Copy) (id : ObjectId) (node : HeapObject ObjectId) : Copy :=
  { s with heap := Function.update s.heap id node }

end Copy

/-- Objects and arrays without proxies. -/
def copies : ObjectInterface Copy ObjectId where
  literal := Copy.literal
  isArray s id := (s.heap id).isArray
  get s id key := ((s.heap id).read key, s)
  set s id key value := s.put id ((s.heap id).set key value)
  delete s id key := ((s.heap id).canDelete key, s.put id ((s.heap id).delete key))
  has s id key := (s.heap id).has key
  hasOwn s id key := ((s.heap id).own key).isSome
  keys s id := (s.heap id).keys

/-- A deep copy of the data. -/
def copied (data : PropertyTree) : Session Copy ObjectId :=
  let loaded := Copy.literal { heap := fun _ => {}, trees := 0 } data
  { memory := loaded.2, values := [loaded.1] }

/-! ## What proxies show -/

/-- The object that a proxy shows, when its target is this one. -/
def Proxy.view (data : Node) : Proxy → Node
  | .array newData => newData.getD data
  | .object newData deletedProperties =>
    { entries := (newData.entries ++ data.entries).filter
        fun entry => decide (entry.1 ∉ deletedProperties) }

/-- The object of a name, as its proxy shows it. -/
def Memory.view (s : Memory) (id : ObjectId) : Node :=
  match s.proxies id with
  | [] => s.heap id
  | proxy :: _ => proxy.view (s.heap id)

/-- The object that a reference stands for. -/
def Reference.target : Reference → ObjectId
  | .raw id => id
  | .proxy target _ => target

theorem Proxy.own_view_object {data newData : Node} (hdata : data.length = none)
    (hnew : newData.length = none) (deletedProperties : Finset PropertyKey) (key : PropertyKey) :
    (Proxy.view data (.object newData deletedProperties)).own key =
      if key ∈ deletedProperties then none else (newData.own key).or (data.own key) := by
  rw [view, HeapObject.own_object rfl, HeapObject.own_object hdata, HeapObject.own_object hnew,
    HeapObject.lookup_filter_key _ (fun key => decide (key ∉ deletedProperties)),
    List.lookup_append]
  by_cases hdeleted : key ∈ deletedProperties <;> simp [hdeleted]

/-! ## The simulation -/

variable {pristine pristine' : Nat → Prop} {s s' : Memory} {c : Copy} {id : ObjectId}

/-- A reference that the program may have. The objects of pristine trees are known by their proxies
only. -/
def Memory.Owned (pristine : Nat → Prop) (s : Memory) : Reference → Prop
  | .raw id => ¬ pristine id.1 ∧ id.1 < s.trees
  | .proxy target i => i < (s.proxies target).length

/-- An object of a pristine tree that is not augmented yet, in the place where it was loaded. -/
def Memory.Pending (pristine : Nat → Prop) (s : Memory) (id : ObjectId) (key : PropertyKey)
    (ref : Reference) : Prop :=
  pristine id.1 ∧ ref = .raw (id.1, key :: id.2) ∧ s.proxies (id.1, key :: id.2) = []

/-- What the variables of a proxy hold. -/
def Memory.Holds (pristine : Nat → Prop) (s : Memory) (id : ObjectId) : Proxy → Prop
  | .array newData =>
    (s.heap id).isArray = true ∧ (newData.getD (s.heap id)).isArray = true ∧
      ∀ key raw, (newData.getD (s.heap id)).own key = some (.object (.raw raw)) →
        s.Pending pristine id key (.raw raw)
  | .object newData _ =>
    (s.heap id).length = none ∧ newData.length = none ∧
      ∀ key ref, newData.own key = some (.object ref) → s.Owned pristine ref

/-- The only proxy of an object of a pristine tree, whose parent was augmented before. -/
structure Memory.Proxied (pristine : Nat → Prop) (s : Memory) (id : ObjectId) (proxy : Proxy) :
    Prop where
  single : s.proxies id = [proxy]
  original : pristine id.1
  loaded : id.1 < s.trees
  parent : ∀ key path, id.2 = key :: path → s.proxies (id.1, path) ≠ []
  holds : s.Holds pristine id proxy

/-- An object as it is shown is an object of the copy. -/
structure At (pristine : Nat → Prop) (s : Memory) (id : ObjectId) (node : HeapObject ObjectId) :
    Prop where
  maps : (s.view id).Maps Reference.target node
  bounded : (s.view id).Bounded
  slots : ∀ key ref, (s.view id).own key = some (.object ref) →
    s.Owned pristine ref ∨ s.Pending pristine id key ref
  original : pristine id.1 → ∀ key ref, (s.heap id).own key = some (.object ref) →
    ref = .raw (id.1, key :: id.2)
  spread : pristine id.1 → (s.heap id).isArray = true → (s.heap id).Same (s.heap id).spread
  proxied : ∀ proxy ∈ s.proxies id, s.Proxied pristine id proxy

/-- Augmented data and a deep copy. -/
structure Sim (pristine : Nat → Prop) (s : Memory) (c : Copy) : Prop where
  trees : c.trees = s.trees
  node : ∀ id, At pristine s id (c.heap id)

theorem Memory.view_of_single {proxy : Proxy} (h : s.proxies id = [proxy]) :
    s.view id = proxy.view (s.heap id) := by
  rw [view, h]

theorem Memory.view_of_none (h : s.proxies id = []) : s.view id = s.heap id := by
  rw [view, h]

/-- The memory has changed elsewhere. -/
structure Frame (pristine pristine' : Nat → Prop) (s s' : Memory) : Prop where
  trees : s.trees ≤ s'.trees
  owned : ∀ ref, s.Owned pristine ref → s'.Owned pristine' ref
  proxied : ∀ id, s.proxies id ≠ [] → s'.proxies id ≠ []

theorem At.frame {node : HeapObject ObjectId} (h : At pristine s id node)
    (hframe : Frame pristine pristine' s s') (hpristine : pristine' id.1 ↔ pristine id.1)
    (hheap : s'.heap id = s.heap id) (hproxies : s'.proxies id = s.proxies id)
    (hpending : ∀ key, (s.view id).own key = some (.object (.raw (id.1, key :: id.2))) →
      s.proxies (id.1, key :: id.2) = [] → s'.proxies (id.1, key :: id.2) = []) :
    At pristine' s' id node := by
  have hview : s'.view id = s.view id := by rw [Memory.view, Memory.view, hproxies, hheap]
  have hmoves : ∀ key ref, (s.view id).own key = some (.object ref) →
      s.Pending pristine id key ref → s'.Pending pristine' id key ref := by
    rintro key _ hown ⟨hid, rfl, hnone⟩
    exact ⟨hpristine.mpr hid, rfl, hpending key hown hnone⟩
  refine ⟨hview ▸ h.maps, hview ▸ h.bounded, fun key ref hown => ?_, fun hid => ?_, fun hid => ?_,
    fun proxy hproxy => ?_⟩
  · rw [hview] at hown
    exact (h.slots key ref hown).imp (hframe.owned ref) (hmoves key ref hown)
  · rw [hheap]
    exact h.original (hpristine.mp hid)
  · rw [hheap]
    exact h.spread (hpristine.mp hid)
  · rw [hproxies] at hproxy
    have hold := h.proxied proxy hproxy
    refine ⟨hproxies.trans hold.single, hpristine.mpr hold.original,
      Nat.lt_of_lt_of_le hold.loaded hframe.trees,
      fun key path hpath => hframe.proxied _ (hold.parent key path hpath), ?_⟩
    have hholds := hold.holds
    cases proxy with
    | array newData =>
      simp only [Memory.Holds, hheap] at hholds ⊢
      refine ⟨hholds.1, hholds.2.1, fun key raw hown => ?_⟩
      refine hmoves key _ ?_ (hholds.2.2 key raw hown)
      rw [Memory.view_of_single hold.single]
      exact hown
    | object newData deletedProperties =>
      simp only [Memory.Holds, hheap] at hholds ⊢
      exact ⟨hholds.1, hholds.2.1, fun key ref hown => hframe.owned ref (hholds.2.2 key ref hown)⟩

theorem At.change {node node' : HeapObject ObjectId} {old new : Proxy} (h : At pristine s id node)
    (hframe : Frame pristine pristine s s') (hold : s.proxies id = [old])
    (hheap : s'.heap id = s.heap id) (hproxies : s'.proxies id = [new])
    (hmaps : (new.view (s.heap id)).Maps Reference.target node')
    (hbounded : (new.view (s.heap id)).Bounded)
    (hslots : ∀ key ref, (new.view (s.heap id)).own key = some (.object ref) →
      s'.Owned pristine ref ∨ s'.Pending pristine id key ref)
    (hholds : s'.Holds pristine id new) : At pristine s' id node' := by
  have hview : s'.view id = new.view (s.heap id) := by
    rw [Memory.view_of_single hproxies, hheap]
  have hproxied := h.proxied old (by rw [hold]; exact List.mem_singleton_self old)
  refine ⟨hview ▸ hmaps, hview ▸ hbounded, hview ▸ hslots, hheap ▸ h.original, hheap ▸ h.spread,
    fun proxy hproxy => ?_⟩
  rw [hproxies, List.mem_singleton] at hproxy
  subst hproxy
  exact ⟨hproxies, hproxied.original, Nat.lt_of_lt_of_le hproxied.loaded hframe.trees,
    fun key path hpath => hframe.proxied _ (hproxied.parent key path hpath), hholds⟩

/-- The variables of a new proxy. -/
def Proxy.fresh (data : Node) : Proxy := if data.isArray then .array none else .object {} ∅

theorem Memory.augment_raw (s : Memory) (id : ObjectId) :
    s.augment (.object (.raw id)) = s.newProxy id (.fresh (s.heap id)) := by
  simp only [augment, Proxy.fresh]
  split <;> rfl

theorem Proxy.same_view_fresh (data : Node) : data.Same ((Proxy.fresh data).view data) := by
  rw [Proxy.fresh]
  split
  · exact .refl data
  · next hobject =>
      have hlength : data.length = none := by
        simpa [HeapObject.isArray] using hobject
      refine ⟨hlength.symm, fun key => ?_⟩
      rw [Proxy.own_view_object hlength rfl, if_neg (Finset.notMem_empty key)]
      rfl

variable {node : HeapObject ObjectId}

theorem At.fresh (h : At pristine s id node) (hframe : Frame pristine pristine s s')
    (hpristine : pristine id.1) (hloaded : id.1 < s.trees) (hnone : s.proxies id = [])
    (hheap : s'.heap id = s.heap id) (hproxies : s'.proxies id = [.fresh (s.heap id)])
    (hparent : ∀ key path, id.2 = key :: path → s'.proxies (id.1, path) ≠ [])
    (hchildren : ∀ key, s'.proxies (id.1, key :: id.2) = []) : At pristine s' id node := by
  have hview := Memory.view_of_none hnone
  have hsame : (s.view id).Same (s'.view id) := by
    rw [hview, Memory.view_of_single hproxies, hheap]
    exact Proxy.same_view_fresh (s.heap id)
  have hpending : ∀ key ref, (s.heap id).own key = some (.object ref) →
      s'.Pending pristine id key ref :=
    fun key ref hown => ⟨hpristine, h.original hpristine key ref hown, hchildren key⟩
  refine ⟨h.maps.of_same hsame, h.bounded.of_same hsame, fun key ref hown => .inr ?_,
    hheap ▸ h.original, hheap ▸ h.spread, fun proxy hproxy => ?_⟩
  · rw [hsame.own, hview] at hown
    exact hpending key ref hown
  · rw [hproxies, List.mem_singleton] at hproxy
    subst hproxy
    refine ⟨hproxies, hpristine, Nat.lt_of_lt_of_le hloaded hframe.trees, hparent, ?_⟩
    rw [Proxy.fresh]
    split
    · next harray =>
        simp only [Memory.Holds, hheap, Option.getD_none]
        exact ⟨harray, harray, fun key raw hown => hpending key _ hown⟩
    · next hobject =>
        simp only [Memory.Holds, hheap]
        refine ⟨by simpa [HeapObject.isArray] using hobject, trivial, fun key ref hown => ?_⟩
        cases hown

theorem Sim.children_none (h : Sim pristine s c) (hnone : s.proxies id = []) (key : PropertyKey) :
    s.proxies (id.1, key :: id.2) = [] := by
  by_contra hsome
  obtain ⟨proxy, rest, hproxies⟩ := List.exists_cons_of_ne_nil hsome
  have hchild := (h.node (id.1, key :: id.2)).proxied proxy (by rw [hproxies]; simp)
  exact hchild.parent key id.2 rfl hnone

/-! ## Changes of a proxy -/

theorem Memory.setProxy_single {old : Proxy} (hold : s.proxies id = [old]) (new : Proxy) :
    s.setProxy id 0 new = { s with proxies := Function.update s.proxies id [new] } := by
  rw [setProxy, hold]
  rfl

theorem Sim.setProxy (h : Sim pristine s c) {old : Proxy} (new : Proxy)
    {node : HeapObject ObjectId} (hold : s.proxies id = [old])
    (hmaps : (new.view (s.heap id)).Maps Reference.target node)
    (hbounded : (new.view (s.heap id)).Bounded)
    (hslots : ∀ key ref, (new.view (s.heap id)).own key = some (.object ref) →
      s.Owned pristine ref ∨ s.Pending pristine id key ref)
    (hholds : s.Holds pristine id new) :
    Frame pristine pristine s (s.setProxy id 0 new) ∧
      Sim pristine (s.setProxy id 0 new) (c.put id node) := by
  rw [Memory.setProxy_single hold]
  generalize hs' : ({ s with proxies := Function.update s.proxies id [new] } : Memory) = s'
  have hheap : s'.heap = s.heap := by rw [← hs']
  have htrees : s'.trees = s.trees := by rw [← hs']
  have hself : s'.proxies id = [new] := by rw [← hs']; exact Function.update_self _ _ _
  have hother : ∀ id', id' ≠ id → s'.proxies id' = s.proxies id' := by
    intro id' hid
    rw [← hs']
    exact Function.update_of_ne hid _ _
  have howned : ∀ ref, s.Owned pristine ref → s'.Owned pristine ref := by
    intro ref href
    cases ref with
    | raw id' => exact ⟨href.1, htrees ▸ href.2⟩
    | proxy target i =>
      by_cases htarget : target = id
      · subst htarget
        simp only [Memory.Owned, hself, hold] at href ⊢
        exact href
      · simpa only [Memory.Owned, hother target htarget] using href
  have hpending : ∀ id', s.proxies id' = [] → s'.proxies id' = [] := by
    intro id' hnone
    by_cases hid : id' = id
    · rw [hid, hold] at hnone
      cases hnone
    · rw [hother id' hid, hnone]
  have hframe : Frame pristine pristine s s' := by
    refine ⟨Nat.le_of_eq htrees.symm, howned, fun id' hsome => ?_⟩
    by_cases hid : id' = id
    · rw [hid, hself]
      exact List.cons_ne_nil _ _
    · rw [hother id' hid]
      exact hsome
  have hmoves : ∀ key ref, s.Pending pristine id key ref → s'.Pending pristine id key ref :=
    fun key ref hpend => ⟨hpend.1, hpend.2.1, hpending _ hpend.2.2⟩
  refine ⟨hframe, h.trees.trans htrees.symm, fun id' => ?_⟩
  by_cases hid : id' = id
  · subst hid
    show At pristine s' id' (Function.update c.heap id' node id')
    rw [Function.update_self]
    refine (h.node id').change hframe hold (congrFun hheap id') hself hmaps hbounded
      (fun key ref hown => (hslots key ref hown).imp (howned ref) (hmoves key ref)) ?_
    cases new with
    | array newData =>
      simp only [Memory.Holds, hheap] at hholds ⊢
      exact ⟨hholds.1, hholds.2.1, fun key raw hown => hmoves key _ (hholds.2.2 key raw hown)⟩
    | object newData deletedProperties =>
      simp only [Memory.Holds, hheap] at hholds ⊢
      exact ⟨hholds.1, hholds.2.1, fun key ref hown => howned ref (hholds.2.2 key ref hown)⟩
  · show At pristine s' id' (Function.update c.heap id node id')
    rw [Function.update_of_ne hid]
    exact (h.node id').frame hframe Iff.rfl (congrFun hheap id') (hother id' hid)
      fun key _ hnone => hpending _ hnone

theorem Sim.newProxy (h : Sim pristine s c) {child : ObjectId} (hpristine : pristine child.1)
    (hloaded : child.1 < s.trees) (hnone : s.proxies child = [])
    (hparent : ∀ key path, child.2 = key :: path → s.proxies (child.1, path) ≠ [])
    (hunseen : ∀ id key, (s.view id).own key ≠ some (.object (.raw child))) :
    Frame pristine pristine s (s.augment (.object (.raw child))).2 ∧
      Sim pristine (s.augment (.object (.raw child))).2 c := by
  rw [Memory.augment_raw, Memory.newProxy, hnone]
  generalize hs' : Prod.snd (HeapValue.object (Reference.proxy child [].length), _) = s'
  have hheap : s'.heap = s.heap := by rw [← hs']
  have htrees : s'.trees = s.trees := by rw [← hs']
  have hself : s'.proxies child = [.fresh (s.heap child)] := by
    rw [← hs']
    exact Function.update_self _ _ _
  have hother : ∀ id, id ≠ child → s'.proxies id = s.proxies id := by
    intro id hid
    rw [← hs']
    exact Function.update_of_ne hid _ _
  have hproxied : ∀ id, s.proxies id ≠ [] → s'.proxies id ≠ [] := by
    intro id hsome
    by_cases hid : id = child
    · rw [hid, hself]
      exact List.cons_ne_nil _ _
    · rw [hother id hid]
      exact hsome
  have hframe : Frame pristine pristine s s' := by
    refine ⟨Nat.le_of_eq htrees.symm, fun ref href => ?_, hproxied⟩
    cases ref with
    | raw id => exact ⟨href.1, htrees ▸ href.2⟩
    | proxy target i =>
      have htarget : target ≠ child := by
        rintro rfl
        simp only [Memory.Owned, hnone] at href
        exact Nat.not_lt_zero i href
      simpa only [Memory.Owned, hother target htarget] using href
  refine ⟨hframe, h.trees.trans htrees.symm, fun id => ?_⟩
  by_cases hid : id = child
  · subst hid
    refine (h.node id).fresh hframe hpristine hloaded hnone (congrFun hheap id) hself
      (fun key path hpath => hproxied _ (hparent key path hpath)) fun key => ?_
    have hne : (id.1, key :: id.2) ≠ id := fun hid =>
      List.cons_ne_self key id.2 (congrArg Prod.snd hid)
    rw [hother _ hne, h.children_none hnone]
  · refine (h.node id).frame hframe Iff.rfl (congrFun hheap id) (hother id hid)
      fun key hown hpending => ?_
    rw [hother _ fun hchild => hunseen id key (hchild ▸ hown), hpending]

theorem Memory.augment_heap (s : Memory) (value : Value) : (s.augment value).2.heap = s.heap := by
  unfold augment
  split
  · split <;> rfl
  · rfl

theorem Memory.augment_eq (s : Memory) {value : Value} (h : ∀ id, value ≠ .object (.raw id)) :
    s.augment value = (value, s) := by
  unfold augment
  split
  · exact absurd rfl (h _)
  · rfl

/-! ## Reads through a proxy -/

/-- The variables of a proxy after an assignment to its own data. -/
def Proxy.assign (data : Node) (key : PropertyKey) (value : Value) : Proxy → Proxy
  | .array newData => .array (some ((newData.getD data.spread).set key value))
  | .object newData deletedProperties => .object (newData.set key value) deletedProperties

theorem At.same_getData {newData : Option Node} (h : At pristine s id node)
    (hold : s.proxies id = [.array newData]) : (s.view id).Same (s.getData id newData) := by
  have hproxied := h.proxied _ (by rw [hold]; exact List.mem_singleton_self _)
  rw [Memory.view_of_single hold]
  cases newData with
  | none => exact h.spread hproxied.original hproxied.holds.1
  | some newData => exact .refl newData

theorem At.own_assign {old : Proxy} (h : At pristine s id node) (hold : s.proxies id = [old])
    {key : PropertyKey} {ref : Reference} (hslot : (s.view id).own key = some (.object ref))
    (value : Value) :
    ((old.assign (s.heap id) key value).view (s.heap id)).length = (s.view id).length ∧
      ∀ other, ((old.assign (s.heap id) key value).view (s.heap id)).own other =
        if other = key then some value else (s.view id).own other := by
  have hholds := (h.proxied old (by rw [hold]; exact List.mem_singleton_self old)).holds
  cases old with
  | array newData =>
    have hsame := h.same_getData hold
    have hassigned := HeapObject.own_set_of_own (h.bounded.of_same hsame)
      ((hsame.own key).trans hslot) value
    refine ⟨hassigned.1.trans hsame.length, fun other => ?_⟩
    rw [← hsame.own]
    exact hassigned.2 other
  | object newData deletedProperties =>
    obtain ⟨hdata, hnew, -⟩ := hholds
    have hview := Memory.view_of_single hold
    refine ⟨by rw [hview]; rfl, fun other => ?_⟩
    have hset := HeapObject.length_set_of_object hnew key value
    rw [hview, Proxy.own_view_object hdata hnew] at hslot
    rw [hview, Proxy.assign, Proxy.own_view_object hdata hset, Proxy.own_view_object hdata hnew,
      HeapObject.own_set_object hnew]
    by_cases hother : other = key
    · have hkey : key ∉ deletedProperties := by
        intro hdeleted
        rw [if_pos hdeleted] at hslot
        cases hslot
      simp [hother, hkey]
    · simp [hother]

theorem Sim.augmentSlot (h : Sim pristine s c) {old : Proxy} {key : PropertyKey}
    (hold : s.proxies id = [old])
    (hslot : (s.view id).own key = some (.object (.raw (id.1, key :: id.2))))
    (hnone : s.proxies (id.1, key :: id.2) = []) :
    let child : ObjectId := (id.1, key :: id.2)
    let value : Value := .object (.proxy child 0)
    let s' := (s.augment (.object (.raw child))).2.setProxy id 0 (old.assign (s.heap id) key value)
    Frame pristine pristine s s' ∧ Sim pristine s' c ∧ s'.Owned pristine (.proxy child 0) := by
  intro child value s'
  have hproxied := (h.node id).proxied old (by rw [hold]; exact List.mem_singleton_self old)
  have hne : child ≠ id := fun hid => by
    have hnil : s.proxies id = [] := hid ▸ hnone
    rw [hold] at hnil
    cases hnil
  have hs' : s' = { s with proxies := Function.update (Function.update s.proxies child
      [.fresh (s.heap child)]) id [old.assign (s.heap id) key value] } := by
    simp only [s', Memory.augment_raw, Memory.newProxy]
    rw [Memory.setProxy_single (show Function.update s.proxies child _ id = [old] by
      rw [Function.update_of_ne hne.symm]; exact hold)]
    simp [child, hnone]
  have hheap : s'.heap = s.heap := by rw [hs']
  have htrees : s'.trees = s.trees := by rw [hs']
  have hself : s'.proxies id = [old.assign (s.heap id) key value] := by
    rw [hs']
    exact Function.update_self _ _ _
  have hchild : s'.proxies child = [.fresh (s.heap child)] := by
    rw [hs']
    exact (Function.update_of_ne hne _ _).trans (Function.update_self _ _ _)
  have hother : ∀ id', id' ≠ id → id' ≠ child → s'.proxies id' = s.proxies id' := by
    intro id' hid hid'
    rw [hs']
    exact (Function.update_of_ne hid _ _).trans (Function.update_of_ne hid' _ _)
  have hothers : ∀ id', id' ≠ child → s.proxies id' = [] → s'.proxies id' = [] := by
    intro id' hid' hnil
    rw [hother id' (fun hid => by rw [hid, hold] at hnil; cases hnil) hid', hnil]
  have howned : ∀ ref, s.Owned pristine ref → s'.Owned pristine ref := by
    intro ref href
    cases ref with
    | raw id' => exact ⟨href.1, htrees ▸ href.2⟩
    | proxy target i =>
      have htarget : target ≠ child := by
        rintro rfl
        simp only [Memory.Owned, child, hnone] at href
        exact Nat.not_lt_zero i href
      by_cases hid : target = id
      · subst hid
        simp only [Memory.Owned, hself, hold] at href ⊢
        exact href
      · simpa only [Memory.Owned, hother target hid htarget] using href
  have hframe : Frame pristine pristine s s' := by
    refine ⟨Nat.le_of_eq htrees.symm, howned, fun id' hsome hnil => hsome ?_⟩
    by_cases hid : id' = id
    · rw [hid, hself] at hnil
      cases hnil
    · have hid' : id' ≠ child := by
        rintro rfl
        rw [hchild] at hnil
        cases hnil
      rwa [hother id' hid hid'] at hnil
  have hvalue : s'.Owned pristine (.proxy child 0) := by
    simp only [Memory.Owned, hchild]
    exact Nat.one_pos
  -- the other properties of the object are read later
  have hpending : ∀ other ref, other ≠ key → s.Pending pristine id other ref →
      s'.Pending pristine id other ref := by
    rintro other ref hother ⟨hid, href, hnil⟩
    exact ⟨hid, href, hothers _ (by simpa [child] using hother) hnil⟩
  obtain ⟨hlength, hown⟩ := (h.node id).own_assign hold hslot value
  refine ⟨hframe, ⟨h.trees.trans htrees.symm, fun id' => ?_⟩, hvalue⟩
  by_cases hid : id' = id
  · subst hid
    refine (h.node id').change hframe hold (congrFun hheap id') hself
      ⟨(h.node id').maps.length.trans hlength.symm, fun other => ?_⟩ ?_
      (fun other ref href => ?_) ?_
    · rw [hown, (h.node id').maps.own]
      by_cases hkey : other = key
      · rw [if_pos hkey, hkey, hslot]
        rfl
      · rw [if_neg hkey]
    · intro n hn i hi
      rw [hlength] at hn
      rw [hown] at hi
      refine (h.node id').bounded n hn i ?_
      split at hi
      · next hkey => rw [hkey, hslot]; rfl
      · exact hi
    · rw [hown] at href
      split at href
      · obtain rfl : Reference.proxy child 0 = ref := HeapValue.object.inj (Option.some.inj href)
        exact .inl hvalue
      · next hkey =>
          exact ((h.node id').slots other ref href).imp (howned ref) (hpending other ref hkey)
    · have hholds := hproxied.holds
      cases old with
      | array newData =>
        have harray : (s.view id').isArray = true := by
          rw [Memory.view_of_single hold]
          exact hholds.2.1
        refine ⟨by rw [hheap]; exact hholds.1, ?_, fun other raw href => ?_⟩
        · show HeapObject.isArray _ = true
          rw [HeapObject.isArray]
          exact (congrArg Option.isSome hlength).trans harray
        · replace href := (hown other).symm.trans href
          split at href
          · cases
              (HeapValue.object.inj (Option.some.inj href) : Reference.proxy child 0 = .raw raw)
          · next hkey =>
              rw [Memory.view_of_single hold] at href
              exact hpending other _ hkey (hholds.2.2 other raw href)
      | object newData deletedProperties =>
        refine ⟨by rw [hheap]; exact hholds.1,
          HeapObject.length_set_of_object hholds.2.1 key value, fun other ref href => ?_⟩
        rw [HeapObject.own_set_object hholds.2.1] at href
        split at href
        · obtain rfl : Reference.proxy child 0 = ref :=
            HeapValue.object.inj (Option.some.inj href)
          exact hvalue
        · exact howned ref (hholds.2.2 other ref href)
  · by_cases hid' : id' = child
    · subst hid'
      refine (h.node child).fresh hframe hproxied.original hproxied.loaded hnone
        (congrFun hheap child) hchild (fun key' path hpath => ?_) fun key' => ?_
      · cases hpath
        rw [hself]
        exact List.cons_ne_nil _ _
      · refine hothers _ (fun heq => ?_) (h.children_none hnone key')
        exact List.cons_ne_self key' child.2 (congrArg Prod.snd heq)
    · refine (h.node id').frame hframe Iff.rfl (congrFun hheap id') (hother id' hid hid')
        fun key' _ hnil => hothers _ (fun heq => hid ?_) hnil
      have hparts := Prod.ext_iff.mp heq
      exact Prod.ext hparts.1 (List.cons.inj hparts.2).2

end N8n.AugmentedData
