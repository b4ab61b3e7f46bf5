import N8n.Collections.ObjectHeap
import N8n.Transition.Runs

/-!
# No missed changes

As long as changes are made through proxies, or while the data are marked anyway, and none is made
between the serialization of a save and its reset of the mark, data that differ from those in the
database are marked. The wrapped objects stay wrapped, since a proxy is all that is known of them,
and what is written to an object that the data do not hold yet is no change.
-/

namespace N8n.StaticData

open Collections Transition

/-! ## Observed static data

The static data of a workflow are wrapped so that every write marks them as changed, and changed
data are saved to the database. Objects that are assigned later are not wrapped. See `create` of
`packages/workflow/src/observable-object.ts`, `getStaticData` of `packages/workflow/src/workflow.ts`
and `saveStaticData` of `packages/cli/src/workflows/workflow-static-data.service.ts`.
-/

/-- A heap with the next identifier that is not in use. -/
structure Store where
  heap : ObjectHeap
  next : Nat

/-- Make a new object. -/
def Store.alloc (s : Store) (node : HeapObject Nat) : HeapValue Nat × Store :=
  (.object s.next, { heap := Function.update s.heap s.next node, next := s.next + 1 })

mutual

/-- The loop body of `create(target, parent, option, depth)` for one value: objects and arrays are
made observable with all their children. -/
def createValue : PropertyTree → Store → HeapValue Nat × Store
  | .undefined, s => (.undefined, s)
  | .null, s => (.null, s)
  | .boolean value, s => (.boolean value, s)
  | .number value, s => (.number value, s)
  | .string text, s => (.string text, s)
  | .array items, s =>
    let created := createItems 0 items s
    created.2.alloc { length := some items.length, entries := created.1 }
  | .object entries, s =>
    let created := createEntries entries s
    created.2.alloc { entries := created.1 }

/-- The loop of `create` over the items of an array from an index on. -/
def createItems (index : Nat) : List PropertyTree → Store →
    List (PropertyKey × HeapValue Nat) × Store
  | [], s => ([], s)
  | item :: rest, s =>
    let value := createValue item s
    let others := createItems (index + 1) rest value.2
    ((.index index, value.1) :: others.1, others.2)

/-- The loop of `create` over the entries of an object. -/
def createEntries : List (PropertyKey × PropertyTree) → Store →
    List (PropertyKey × HeapValue Nat) × Store
  | [], s => ([], s)
  | (key, child) :: rest, s =>
    let value := createValue child s
    let others := createEntries rest value.2
    ((key, value.1) :: others.1, others.2)

end

/-- What a value holds at each path. -/
abbrev Content := List PropertyKey → ObjectHeap.Shape

/-- A call of `saveStaticData`: it has begun, the data are serialized, or the database has them. -/
inductive Save where
  | started
  | serialized (data : Content)
  | written

/-- The static data of a workflow. The objects on the list `observed` are only known by their
proxies, whose parent is the root. The last two fields record what the database holds, and the
first-level keys that got an empty object since then without a mark. -/
structure State where
  heap : ObjectHeap
  next : Nat
  root : Nat
  observed : List Nat
  dataChanged : Bool
  ignoreEmptyOnFirstChild : Bool
  workflowIdValid : Bool
  saves : List Save
  saved : Content
  ignored : List PropertyKey

/-- The current content. -/
def State.content (s : State) : Content := s.heap.content (.object s.root)

/-- `create(target, undefined, { ignoreEmptyOnFirstChild })` for the data of the database. -/
def create (ignoreEmptyOnFirstChild workflowIdValid : Bool)
    (target : List (PropertyKey × PropertyTree)) : State :=
  let created := createEntries target { heap := fun _ => {}, next := 0 }
  let heap : ObjectHeap := Function.update created.2.heap created.2.next { entries := created.1 }
  { heap
    next := created.2.next + 1
    root := created.2.next
    observed := List.range (created.2.next + 1)
    dataChanged := false
    ignoreEmptyOnFirstChild
    workflowIdValid
    saves := []
    saved := ObjectHeap.content heap (.object created.2.next)
    ignored := [] }

/-- `Reflect.set(target, key, value)`. -/
def State.assign (s : State) (id : Nat) (key : PropertyKey) (value : HeapValue Nat) : State :=
  { s with heap := Function.update s.heap id ((s.heap id).set key value) }

/-- What the trap `set` does before it assigns: it marks the data, ignores the assignment of an
empty object, or fails, since `Object.keys(null)` throws. -/
inductive Mark where
  | changed
  | ignore
  | typeError
  deriving DecidableEq

/-- The check of the trap `set` for the root. -/
def State.markOfSet (s : State) (key : PropertyKey) (value : HeapValue Nat) : Mark :=
  if s.ignoreEmptyOnFirstChild ∧ (s.heap s.root).get key = .undefined then
    match value with
    | .null => .typeError
    | .object id => if (s.heap id).entries = [] then .ignore else .changed
    | _ => .changed
  else .changed

/-- `value[key] = newValue` for an object or an array that is reached through its proxy, if it has
one. -/
def State.set (s : State) (id : Nat) (key : PropertyKey) (value : HeapValue Nat) : State :=
  if id = s.root then
    match s.markOfSet key value with
    | .changed => { s with dataChanged := true }.assign id key value
    | .ignore => { s with ignored := key :: s.ignored }.assign id key value
    | .typeError => s
  else if id ∈ s.observed then { s with dataChanged := true }.assign id key value
  else s.assign id key value

/-- `delete value[key]`. -/
def State.delete (s : State) (id : Nat) (key : PropertyKey) : State :=
  { s with
    dataChanged := s.dataChanged || decide (id = s.root ∨ id ∈ s.observed)
    heap := Function.update s.heap id ((s.heap id).delete key) }

/-- A new object or array, without a proxy. -/
def State.newObject (s : State) (isArray : Bool) : State :=
  { s with
    heap := Function.update s.heap s.next { length := if isArray then some 0 else none }
    next := s.next + 1 }

/-- `getStaticData` for a key: a missing entry becomes a new object that is observed. -/
def State.getStaticData (s : State) (key : PropertyKey) : State :=
  if (s.heap s.root).get key = .undefined then
    let created := s.newObject false
    { created with observed := s.next :: s.observed }.set s.root key (.object s.next)
  else s

/-- What happens to static data. -/
inductive Event where
  | set (id : Nat) (key : PropertyKey) (value : HeapValue Nat)
  | delete (id : Nat) (key : PropertyKey)
  | newObject (isArray : Bool)
  | getStaticData (key : PropertyKey)
  | saveStaticData
  | serialize (i : Nat)
  | write (i : Nat)
  | reset (i : Nat)
  | fail (i : Nat)

/-- Is this a value that exists? -/
def State.isKnown (s : State) : HeapValue Nat → Bool
  | .object id => id < s.next
  | _ => true

/-- The static data after an event. -/
def step (s : State) : Event → Option State
  | .set id key value =>
    if id < s.next ∧ s.isKnown value then some (s.set id key value) else none
  | .delete id key => if id < s.next then some (s.delete id key) else none
  | .newObject isArray => some (s.newObject isArray)
  | .getStaticData key => some (s.getStaticData key)
  | .saveStaticData =>
    if s.dataChanged ∧ s.workflowIdValid then some { s with saves := s.saves ++ [.started] }
    else some s
  | .serialize i =>
    match s.saves[i]? with
    | some .started => some { s with saves := s.saves.set i (.serialized s.content) }
    | _ => none
  | .write i =>
    match s.saves[i]? with
    | some (.serialized data) =>
      some { s with saves := s.saves.set i .written, saved := data, ignored := [] }
    | _ => none
  | .reset i =>
    match s.saves[i]? with
    | some .written => some { s with saves := s.saves.eraseIdx i, dataChanged := false }
    | _ => none
  -- the error is caught, and the data stay marked
  | .fail i =>
    match s.saves[i]? with
    | some _ => some { s with saves := s.saves.eraseIdx i }
    | none => none

/-! ## No missed changes -/

/-- At the root, the path goes on with a key whose assignment was ignored. -/
def State.Takes (s : State) (path : List PropertyKey) : Prop :=
  ∃ before key after, path = before ++ key :: after ∧
    s.heap.valueAt (.object s.root) before = .object s.root ∧ key ∈ s.ignored

/-- Apart from the ignored assignments, the data are those in the database. -/
def State.Agrees (s : State) : Prop :=
  ∀ path, ¬ s.Takes path → s.content path = s.saved path

/-- An object that is part of the data. -/
def State.Holds (s : State) (id : Nat) : Prop :=
  s.heap.Reaches (.object s.root) id

/-- Is the object known by its proxy? -/
def State.Observes (s : State) (id : Nat) : Prop :=
  id = s.root ∨ id ∈ s.observed

/-- No save is between the serialization of the data and the reset of the mark. -/
def State.Idle (s : State) : Prop :=
  ∀ save ∈ s.saves, save = .started

/-- A write or delete that cannot be missed: the object is not part of the data, or no save has
serialized them, and the object is observed or the data are marked already. -/
def State.MayChange (s : State) (id : Nat) : Prop :=
  ¬ s.Holds id ∨ s.Idle ∧ (s.Observes id ∨ s.dataChanged = true)

/-- The events that cannot be missed. -/
def allowed (s : State) : Event → Prop
  | .set id _ _ | .delete id _ => s.MayChange id
  | .getStaticData key => (s.heap s.root).get key = .undefined → s.Idle
  | _ => True

/-- The heap has no references to identifiers that are not in use. -/
def Closed (heap : ObjectHeap) (next : Nat) : Prop :=
  ∀ id, ∀ entry ∈ (heap id).entries, ∀ id', entry.2 = .object id' → id' < next

/-- What a save that is under way relies on. -/
def Save.Fits (s : State) : Save → Prop
  | .started => True
  | .serialized data => data = s.content
  | .written => s.Agrees

/-- The invariant of static data. -/
structure Inv (s : State) : Prop where
  closed : Closed s.heap s.next
  root_lt : s.root < s.next
  root_object : (s.heap s.root).length = none
  marked : s.dataChanged = true ∨ s.Agrees
  saves : ∀ save ∈ s.saves, save.Fits s

/-! ## Creation -/

/-- The references of a store are in use. -/
def Store.Closed (s : Store) : Prop := StaticData.Closed s.heap s.next

/-- A value that refers to an object in use. -/
def Fresh (next : Nat) (value : HeapValue Nat) : Prop := ∀ id, value = .object id → id < next

variable {node : HeapObject Nat} {id next : Nat}

theorem Closed.update {heap : ObjectHeap} {next' : Nat} (h : Closed heap next)
    (hle : next ≤ next') (hnode : ∀ entry ∈ node.entries, Fresh next' entry.2) :
    Closed (Function.update heap id node) next' := by
  intro id' entry hentry target htarget
  by_cases hid : id' = id
  · rw [hid, Function.update_self] at hentry
    exact hnode entry hentry target htarget
  · rw [Function.update_of_ne hid] at hentry
    exact Nat.lt_of_lt_of_le (h id' entry hentry target htarget) hle

variable {value : HeapValue Nat}

theorem Fresh.mono {next' : Nat} (h : Fresh next value) (hle : next ≤ next') : Fresh next' value :=
  fun id hid => Nat.lt_of_lt_of_le (h id hid) hle

/-- What `create` makes of a value: a store that has grown, and a value of it. -/
structure Created (s : Store) (value : HeapValue Nat) (s' : Store) : Prop where
  closed : s'.Closed
  grows : s.next ≤ s'.next
  fresh : Fresh s'.next value

/-- What `create` makes of the entries of an object. -/
structure CreatedEntries (s : Store) (entries : List (PropertyKey × HeapValue Nat)) (s' : Store) :
    Prop where
  closed : s'.Closed
  grows : s.next ≤ s'.next
  fresh : ∀ entry ∈ entries, Fresh s'.next entry.2

theorem CreatedEntries.alloc {s s' : Store} {entries : List (PropertyKey × HeapValue Nat)}
    (h : CreatedEntries s entries s') (length : Option Nat) :
    Created s (s'.alloc { length, entries }).1 (s'.alloc { length, entries }).2 where
  closed := h.closed.update (Nat.le_succ _) fun entry hentry =>
    (h.fresh entry hentry).mono (Nat.le_succ _)
  grows := Nat.le_succ_of_le h.grows
  fresh id hid := by
    cases hid
    exact Nat.lt_succ_self _

theorem Created.cons {s s' s'' : Store} {entries : List (PropertyKey × HeapValue Nat)}
    (h : Created s value s') (hrest : CreatedEntries s' entries s'') (key : PropertyKey) :
    CreatedEntries s ((key, value) :: entries) s'' where
  closed := hrest.closed
  grows := Nat.le_trans h.grows hrest.grows
  fresh entry hentry := by
    rcases List.mem_cons.mp hentry with rfl | hentry
    · exact h.fresh.mono hrest.grows
    · exact hrest.fresh entry hentry

mutual

theorem createValue_spec (tree : PropertyTree) {s : Store} (h : s.Closed) :
    Created s (createValue tree s).1 (createValue tree s).2 := by
  cases tree with
  | array items =>
    rw [createValue]
    exact (createItems_spec items 0 h).alloc _
  | object entries =>
    rw [createValue]
    exact (createEntries_spec entries h).alloc _
  | undefined => exact ⟨h, Nat.le_refl _, fun id hid => by simp [createValue] at hid⟩
  | null => exact ⟨h, Nat.le_refl _, fun id hid => by simp [createValue] at hid⟩
  | boolean value => exact ⟨h, Nat.le_refl _, fun id hid => by simp [createValue] at hid⟩
  | number value => exact ⟨h, Nat.le_refl _, fun id hid => by simp [createValue] at hid⟩
  | string text => exact ⟨h, Nat.le_refl _, fun id hid => by simp [createValue] at hid⟩

theorem createItems_spec (items : List PropertyTree) (index : Nat) {s : Store} (h : s.Closed) :
    CreatedEntries s (createItems index items s).1 (createItems index items s).2 := by
  cases items with
  | nil => exact ⟨h, Nat.le_refl _, fun entry hentry => by cases hentry⟩
  | cons item rest =>
    rw [createItems]
    have hitem := createValue_spec item h
    exact hitem.cons (createItems_spec rest (index + 1) hitem.closed) _

theorem createEntries_spec (entries : List (PropertyKey × PropertyTree)) {s : Store}
    (h : s.Closed) : CreatedEntries s (createEntries entries s).1 (createEntries entries s).2 := by
  cases entries with
  | nil => exact ⟨h, Nat.le_refl _, fun entry hentry => by cases hentry⟩
  | cons entry rest =>
    obtain ⟨key, child⟩ := entry
    rw [createEntries]
    have hchild := createValue_spec child h
    exact hchild.cons (createEntries_spec rest hchild.closed) _

end

theorem inv_create (ignoreEmptyOnFirstChild workflowIdValid : Bool)
    (target : List (PropertyKey × PropertyTree)) :
    Inv (create ignoreEmptyOnFirstChild workflowIdValid target) := by
  have hcreated := createEntries_spec target (s := { heap := fun _ => {}, next := 0 })
    fun _ entry hentry => by cases hentry
  refine ⟨(hcreated.alloc none).closed, Nat.lt_succ_self _, ?_, .inr fun path _ => rfl,
    fun save hsave => by cases hsave⟩
  simp [create]

/-! ## Changes -/

theorem holds_root (s : State) : s.Holds s.root := ⟨[], rfl⟩

variable {s : State}

theorem Inv.lt_of_holds (h : Inv s) (hid : s.Holds id) : id < s.next := by
  obtain ⟨path, hpath⟩ := hid
  have hfresh : ∀ value, Fresh s.next value → Fresh s.next (s.heap.valueAt value path) := by
    clear hpath
    induction path with
    | nil => exact fun _ hvalue => hvalue
    | cons key path ih =>
      intro value _
      refine ih _ fun target htarget => ?_
      obtain ⟨owner, howner, hentry⟩ := ObjectHeap.mem_of_property htarget
      exact h.closed owner _ hentry target rfl
  refine hfresh (.object s.root) (fun target htarget => ?_) id hpath
  cases htarget
  exact h.root_lt

theorem Inv.unseen (h : Inv s) {dataChanged : Bool} (hid : ¬ s.Holds id)
    (hclosed : Closed (Function.update s.heap id node) next) (hnext : s.next ≤ next)
    (hmark : s.dataChanged = true → dataChanged = true) (observed : List Nat) :
    Inv { s with heap := Function.update s.heap id node, next, dataChanged, observed } := by
  have hvalue := ObjectHeap.valueAt_update_of_not_reaches hid node
  have hcontent : ∀ path, ObjectHeap.content (Function.update s.heap id node)
      (.object s.root) path = s.content path :=
    ObjectHeap.content_update_of_not_reaches hid node
  have hagrees : s.Agrees → State.Agrees
      { s with heap := Function.update s.heap id node, next, dataChanged, observed } := by
    intro hs path htakes
    show ObjectHeap.content (Function.update s.heap id node) (.object s.root) path = s.saved path
    rw [hcontent]
    refine hs path fun ⟨before, key, after, hpath, hread, hkey⟩ => htakes ?_
    exact ⟨before, key, after, hpath, (hvalue before).trans hread, hkey⟩
  refine ⟨hclosed, Nat.lt_of_lt_of_le h.root_lt hnext, ?_, h.marked.imp hmark hagrees, ?_⟩
  · have hne : s.root ≠ id := by
      rintro rfl
      exact hid (holds_root s)
    show HeapObject.length (Function.update s.heap id node s.root) = none
    rw [Function.update_of_ne hne]
    exact h.root_object
  · intro save hsave
    have hfits := h.saves save hsave
    cases save with
    | started => exact trivial
    | serialized data => exact hfits.trans (funext fun path => (hcontent path).symm)
    | written => exact hagrees hfits

theorem Inv.change (h : Inv s) (hidle : s.Idle)
    (hclosed : Closed (Function.update s.heap id node) s.next)
    (hobject : (s.heap id).length = none → node.length = none) :
    Inv { s with heap := Function.update s.heap id node, dataChanged := true } := by
  refine ⟨hclosed, h.root_lt, ?_, .inl rfl, fun save hsave => ?_⟩
  · show HeapObject.length (Function.update s.heap id node s.root) = none
    by_cases hroot : s.root = id
    · rw [hroot, Function.update_self]
      exact hobject (hroot ▸ h.root_object)
    · rw [Function.update_of_ne hroot]
      exact h.root_object
  · rw [hidle save hsave]
    exact trivial

/-- The assignment of an empty object to a new first-level key changes the data at this key
only. -/
theorem Inv.ignore (h : Inv s) (hidle : s.Idle) {key : PropertyKey}
    (hclosed : Closed (Function.update s.heap s.root ((s.heap s.root).set key value)) s.next) :
    Inv ({ s with ignored := key :: s.ignored }.assign s.root key value) := by
  generalize hs' : { s with ignored := key :: s.ignored }.assign s.root key value = s'
  have hheap : s'.heap = Function.update s.heap s.root ((s.heap s.root).set key value) := by
    rw [← hs']; rfl
  have hroot : s'.root = s.root := by rw [← hs']; rfl
  have hignored : s'.ignored = key :: s.ignored := by rw [← hs']; rfl
  have hlength : (s'.heap s.root).length = none := by
    rw [hheap, Function.update_self]
    exact HeapObject.length_set_of_object h.root_object key value
  -- a path that takes none of the ignored keys reads the same values
  have hvalue : ∀ path, ¬ s'.Takes path →
      s.heap.valueAt (.object s.root) path = s'.heap.valueAt (.object s.root) path := by
    intro path htakes
    refine ObjectHeap.valueAt_congr fun before next after hpath => ?_
    cases hread : s'.heap.valueAt (.object s.root) before with
    | object id =>
      by_cases hid : id = s.root
      · have hne : next ≠ key := by
          rintro rfl
          refine htakes ⟨before, next, after, hpath, ?_, by simp [hignored]⟩
          rw [hroot, hread, hid]
        show (s.heap id).get next = (s'.heap id).get next
        rw [hid, hheap, Function.update_self, HeapObject.get_set_of_ne h.root_object hne]
      · show (s.heap id).get next = (s'.heap id).get next
        rw [hheap, Function.update_of_ne hid]
    | _ => rfl
  have hagrees : s.Agrees → s'.Agrees := by
    intro hs path htakes
    have hread := hvalue path htakes
    have hcontent : s'.content path = s.content path := by
      rw [State.content, State.content, ObjectHeap.content, ObjectHeap.content, hroot, hread]
      cases s'.heap.valueAt (.object s.root) path with
      | object id =>
        by_cases hid : id = s.root
        · simp [ObjectHeap.shape, hid, hlength, h.root_object]
        · simp [ObjectHeap.shape, hheap, Function.update_of_ne hid]
      | _ => rfl
    have hsaved : s'.saved = s.saved := by rw [← hs']; rfl
    rw [hcontent, hsaved]
    refine hs path ?_
    rintro ⟨before, next, after, hpath, hbefore, hnext⟩
    refine htakes ⟨before, next, after, hpath, ?_, by simp [hignored, hnext]⟩
    have hprefix : ¬ s'.Takes before := by
      rintro ⟨b, k, a, hb, hr, hk⟩
      exact htakes ⟨b, k, a ++ next :: after, by simp [hpath, hb], hr, hk⟩
    rw [hroot, ← hvalue before hprefix]
    exact hbefore
  have hchanged : s'.dataChanged = s.dataChanged := by rw [← hs']; rfl
  have hnext : s'.next = s.next := by rw [← hs']; rfl
  have hsaves : s'.saves = s.saves := by rw [← hs']; rfl
  refine ⟨by rw [hheap, hnext]; exact hclosed, by rw [hroot, hnext]; exact h.root_lt,
    by rw [hroot]; exact hlength, h.marked.imp (hchanged.trans ·) hagrees, fun save hsave => ?_⟩
  rw [hsaves] at hsave
  rw [hidle save hsave]
  exact trivial

theorem Inv.set (h : Inv s) {key : PropertyKey} (hvalue : Fresh s.next value)
    (hmay : s.MayChange id) : Inv (s.set id key value) := by
  have hclosed : Closed (Function.update s.heap id ((s.heap id).set key value)) s.next := by
    refine Closed.update h.closed (Nat.le_refl _) fun entry hentry => ?_
    rcases HeapObject.mem_entries_set hentry with hold | rfl
    · exact h.closed id entry hold
    · exact hvalue
  have hobject : (s.heap id).length = none → ((s.heap id).set key value).length = none :=
    fun hlength => HeapObject.length_set_of_object hlength key value
  rcases hmay with hunheld | ⟨hidle, hmarks⟩
  · have hne : id ≠ s.root := by
      rintro rfl
      exact hunheld (holds_root s)
    rw [State.set, if_neg hne]
    split
    · exact h.unseen hunheld hclosed (Nat.le_refl _) (fun _ => rfl) s.observed
    · exact h.unseen hunheld hclosed (Nat.le_refl _) (fun hmark => hmark) s.observed
  · rw [State.set]
    split
    · next hroot =>
        subst hroot
        split
        · exact h.change hidle hclosed hobject
        · exact h.ignore hidle hclosed
        · exact h
    · next hroot =>
        split
        · exact h.change hidle hclosed hobject
        · next hobserved =>
            have hmark : s.dataChanged = true := by
              rcases hmarks with (hid | hid) | hmark
              · exact absurd hid hroot
              · exact absurd hid hobserved
              · exact hmark
            have hchange := h.change hidle hclosed hobject
            rwa [← hmark] at hchange

theorem Inv.delete (h : Inv s) (key : PropertyKey) (hmay : s.MayChange id) :
    Inv (s.delete id key) := by
  have hclosed : Closed (Function.update s.heap id ((s.heap id).delete key)) s.next :=
    Closed.update h.closed (Nat.le_refl _) fun entry hentry =>
      h.closed id entry (List.mem_filter.mp hentry).1
  rcases hmay with hunheld | ⟨hidle, hmarks⟩
  · exact h.unseen hunheld hclosed (Nat.le_refl _) (fun hmark => by simp [hmark]) s.observed
  · have hmark : (s.dataChanged || decide (id = s.root ∨ id ∈ s.observed)) = true := by
      rcases hmarks with hobserved | hmark
      · have hobserved : id = s.root ∨ id ∈ s.observed := hobserved
        rw [decide_eq_true hobserved, Bool.or_true]
      · rw [hmark, Bool.true_or]
    rw [State.delete, hmark]
    exact h.change hidle hclosed fun hlength => hlength

theorem Inv.newObject (h : Inv s) (isArray : Bool) (observed : List Nat) :
    Inv { s.newObject isArray with observed } :=
  h.unseen (fun hheld => Nat.lt_irrefl _ (h.lt_of_holds hheld))
    (Closed.update h.closed (Nat.le_succ _) fun entry hentry => by cases hentry)
    (Nat.le_succ _) (fun hmark => hmark) observed

theorem Inv.getStaticData (h : Inv s) (key : PropertyKey)
    (hidle : (s.heap s.root).get key = .undefined → s.Idle) : Inv (s.getStaticData key) := by
  rw [State.getStaticData]
  split
  · next hmissing =>
      refine (h.newObject false (s.next :: s.observed)).set ?_
        (.inr ⟨hidle hmissing, .inl (.inl rfl)⟩)
      intro id hid
      cases hid
      exact Nat.lt_succ_self _
  · exact h

/-! ## Saves -/

theorem Inv.setSaves (h : Inv s) {saves : List Save}
    (hfits : ∀ save ∈ saves, save ∈ s.saves ∨ save = .started ∨ save = .serialized s.content) :
    Inv { s with saves } := by
  refine ⟨h.closed, h.root_lt, h.root_object, h.marked, fun save hsave => ?_⟩
  rcases hfits save hsave with hold | rfl | rfl
  · have hold := h.saves save hold
    cases save with
    | started => exact trivial
    | serialized data => exact hold
    | written => exact hold
  · exact trivial
  · rfl

theorem Inv.write (h : Inv s) {i : Nat} {data : Content}
    (hi : s.saves[i]? = some (.serialized data)) :
    Inv { s with saves := s.saves.set i .written, saved := data, ignored := [] } := by
  have hdata : data = s.content := h.saves _ (List.mem_of_getElem? hi)
  have hagrees : State.Agrees
      { s with saves := s.saves.set i .written, saved := data, ignored := [] } :=
    fun path _ => by rw [hdata]; rfl
  refine ⟨h.closed, h.root_lt, h.root_object, .inr hagrees, fun save hsave => ?_⟩
  rcases List.mem_or_eq_of_mem_set hsave with hold | rfl
  · have hold := h.saves save hold
    cases save with
    | started => exact trivial
    | serialized data' => exact hold
    | written => exact hagrees
  · exact hagrees

/-- A save has ended, and the data are not marked any more. -/
theorem Inv.reset (h : Inv s) {i : Nat} (hi : s.saves[i]? = some .written) :
    Inv { s with saves := s.saves.eraseIdx i, dataChanged := false } := by
  have hagrees : s.Agrees := h.saves _ (List.mem_of_getElem? hi)
  refine ⟨h.closed, h.root_lt, h.root_object, .inr hagrees, fun save hsave => ?_⟩
  have hold := h.saves save (List.mem_of_mem_eraseIdx hsave)
  cases save with
  | started => exact trivial
  | serialized data => exact hold
  | written => exact hold

theorem Inv.step {s' : State} {e : Event} (h : Inv s) (hallowed : allowed s e)
    (hstep : step s e = some s') : Inv s' := by
  cases e with
  | set id key value =>
    simp only [StaticData.step, Option.ite_none_right_eq_some, Option.some.injEq] at hstep
    obtain ⟨⟨-, hknown⟩, rfl⟩ := hstep
    refine h.set (fun target htarget => ?_) hallowed
    rw [htarget] at hknown
    exact of_decide_eq_true hknown
  | delete id key =>
    simp only [StaticData.step, Option.ite_none_right_eq_some, Option.some.injEq] at hstep
    obtain ⟨-, rfl⟩ := hstep
    exact h.delete key hallowed
  | newObject isArray =>
    cases hstep
    exact h.newObject isArray s.observed
  | getStaticData key =>
    cases hstep
    exact h.getStaticData key hallowed
  | saveStaticData =>
    simp only [StaticData.step] at hstep
    split at hstep
    · cases hstep
      refine h.setSaves fun save hsave => ?_
      rcases List.mem_append.mp hsave with hold | hnew
      · exact .inl hold
      · exact .inr (.inl (List.mem_singleton.mp hnew))
    · cases hstep
      exact h
  | serialize i =>
    simp only [StaticData.step] at hstep
    split at hstep
    · cases hstep
      refine h.setSaves fun save hsave => ?_
      rcases List.mem_or_eq_of_mem_set hsave with hold | hnew
      · exact .inl hold
      · exact .inr (.inr hnew)
    · cases hstep
  | write i =>
    simp only [StaticData.step] at hstep
    split at hstep
    · next data hi =>
        cases hstep
        exact h.write hi
    · cases hstep
  | reset i =>
    simp only [StaticData.step] at hstep
    split at hstep
    · next hi =>
        cases hstep
        exact h.reset hi
    · cases hstep
  | fail i =>
    simp only [StaticData.step] at hstep
    split at hstep
    · cases hstep
      exact h.setSaves fun save hsave => .inl (List.mem_of_mem_eraseIdx hsave)
    · cases hstep

/-- An object is assigned as `a`, the data are saved, and the object is written to. -/
def writeToAssigned : List Event :=
  [.newObject false, .set 1 (.name ['x']) (.number 1), .set 0 (.name ['a']) (.object 1),
    .saveStaticData, .serialize 0, .write 0, .reset 0, .set 1 (.name ['x']) (.number 2)]

/-- The data are written to while a save is under way. -/
def writeDuringSave : List Event :=
  [.set 0 (.name ['a']) (.number 1), .saveStaticData, .serialize 0,
    .set 0 (.name ['a']) (.number 2), .write 0, .reset 0]

end N8n.StaticData
