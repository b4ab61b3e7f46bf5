import N8n.AugmentedData.ProxyTraps

/-!
# Augmented data are a private copy

A program cannot tell augmented data from a deep copy, as long as it makes none of the operations
that the proxies are known to hide, and the original data stay as they are.
-/

namespace N8n.AugmentedData

open Collections ObjectInterface

variable {pristine pristine' : Nat → Prop} {data : PropertyTree}
  {s s' : Session Memory Reference} {t t' : Session Copy ObjectId}

/-- A program with augmented data and one with a deep copy, whose variables hold the same. -/
structure Private (pristine : Nat → Prop) (data : PropertyTree) (s : Session Memory Reference)
    (t : Session Copy ObjectId) : Prop where
  sim : Sim pristine s.memory t.memory
  values : t.values = s.values.map (HeapValue.map Reference.target)
  owned : ∀ value ∈ s.values, ∀ ref, value = .object ref → s.memory.Owned pristine ref
  first : pristine 0
  loaded : 0 < s.memory.trees
  original : ∀ path, s.memory.heap (0, path) = loadTree .raw 0 data path

/-- A program with augmented data and one with a deep copy. -/
def PrivateCopy (data : PropertyTree) (s : Session Memory Reference)
    (t : Session Copy ObjectId) : Prop :=
  ∃ pristine, Private pristine data s t

theorem Private.next (h : Private pristine data s t)
    (hframe : Frame pristine pristine' s.memory s'.memory)
    (hsim : Sim pristine' s'.memory t'.memory) (hfirst : pristine' 0)
    (hheap : ∀ path, s'.memory.heap (0, path) = s.memory.heap (0, path))
    (hvalues : t'.values = s'.values.map (HeapValue.map Reference.target))
    (howned : ∀ value ∈ s'.values, value ∈ s.values ∨
      ∀ ref, value = .object ref → s'.memory.Owned pristine' ref) : PrivateCopy data s' t' := by
  refine ⟨pristine', hsim, hvalues, fun value hvalue ref href => ?_, hfirst,
    Nat.lt_of_lt_of_le h.loaded hframe.trees, fun path => (hheap path).trans (h.original path)⟩
  rcases howned value hvalue with hold | hnew
  · exact hframe.owned ref (h.owned value hold ref href)
  · exact hnew ref href

theorem Private.same (h : Private pristine data s t) {observation observation' : Observation}
    (hobservation : observation = observation') :
    Agree (PrivateCopy data) (observation, s) (observation', t) :=
  ⟨hobservation, pristine, h⟩

theorem Private.object (h : Private pristine data s t) (i : Nat) :
    t.object i = (s.object i).map Reference.target := by
  rw [Session.object, Session.object, h.values, List.getElem?_map]
  cases hvalue : s.values[i]? with
  | none => rfl
  | some value => cases value <;> rfl

theorem Private.owned_of_object (h : Private pristine data s t) {i : Nat} {ref : Reference}
    (hobject : s.object i = some ref) : s.memory.Owned pristine ref := by
  rw [Session.object] at hobject
  split at hobject
  · next ref' hvalue =>
      obtain rfl : ref' = ref := Option.some.inj hobject
      exact h.owned _ (List.mem_of_getElem? hvalue) _ rfl
  · cases hobject

theorem Private.rel_object (h : Private pristine data s t) (i : Nat)
    {F : Reference → Option (Observation × Session Memory Reference)}
    {G : ObjectId → Option (Observation × Session Copy ObjectId)}
    (hrel : ∀ ref, s.object i = some ref → s.memory.Owned pristine ref →
      Option.Rel (Agree (PrivateCopy data)) (F ref) (G ref.target)) :
    Option.Rel (Agree (PrivateCopy data)) ((s.object i).bind F) ((t.object i).bind G) := by
  rw [h.object]
  cases hobject : s.object i with
  | none => exact .none
  | some ref => exact hrel ref hobject (h.owned_of_object hobject)

theorem Sim.map_target_inj {s : Memory} {c : Copy} (h : Sim pristine s c) {value other : Value}
    (hvalue : ∀ ref, value = .object ref → s.Owned pristine ref)
    (hother : ∀ ref, other = .object ref → s.Owned pristine ref) :
    value.map Reference.target = other.map Reference.target ↔ value = other := by
  refine ⟨fun heq => ?_, fun heq => by rw [heq]⟩
  cases value with
  | object ref =>
    cases other with
    | object ref' =>
      have htarget : ref.target = ref'.target := HeapValue.object.inj heq
      have href := hvalue ref rfl
      have href' := hother ref' rfl
      cases ref with
      | raw id =>
        cases ref' with
        | raw id' => exact congrArg _ (congrArg _ htarget)
        | proxy id' i =>
          obtain ⟨-, proxy, -, hproxied⟩ := h.proxied_of_owned href'
          obtain rfl : id = id' := htarget
          exact absurd hproxied.original href.1
      | proxy id i =>
        obtain ⟨rfl, proxy, -, hproxied⟩ := h.proxied_of_owned href
        cases ref' with
        | raw id' =>
          obtain rfl : id = id' := htarget
          exact absurd hproxied.original href'.1
        | proxy id' i' =>
          obtain ⟨rfl, -⟩ := h.proxied_of_owned href'
          exact congrArg (fun id => HeapValue.object (Reference.proxy id 0)) htarget
    | _ => cases heq
  | _ =>
    cases other with
    | object ref' => cases heq
    | _ => cases heq <;> rfl

theorem Private.append (h : Private pristine data s t) {memory : Memory} {copy : Copy}
    {value : Value} {value' : HeapValue ObjectId}
    (hframe : Frame pristine pristine' s.memory memory) (hsim : Sim pristine' memory copy)
    (hfirst : pristine' 0) (hheap : ∀ path, memory.heap (0, path) = s.memory.heap (0, path))
    (hvalue : value.map Reference.target = value')
    (howned : ∀ ref, value = .object ref → memory.Owned pristine' ref) :
    Agree (PrivateCopy data)
      (Observation.value (value.map fun _ => ()), { memory, values := s.values ++ [value] })
      (Observation.value (value'.map fun _ => ()),
        { memory := copy, values := t.values ++ [value'] }) := by
  refine ⟨?_, h.next hframe hsim hfirst hheap ?_ fun other hother => ?_⟩
  · rw [← hvalue]
    cases value <;> rfl
  · rw [List.map_append, h.values, ← hvalue]
    rfl
  · rcases List.mem_append.mp hother with hold | hnew
    · exact .inl hold
    · rw [List.mem_singleton] at hnew
      exact .inr (hnew ▸ howned)

theorem Private.get (h : Private pristine data s t) {i : Nat} {key : PropertyKey}
    (hallowed : allowed s (.get i key) = true) :
    Option.Rel (Agree (PrivateCopy data)) (proxies.step s (.get i key))
      (copies.step t (.get i key)) := by
  simp only [step]
  split
  · exact .none
  · rw [Option.map_eq_bind, Option.map_eq_bind]
    refine h.rel_object i fun ref hobject href => .some ?_
    have hmay : s.memory.mayGet ref key = true := by simpa [allowed, hobject] using hallowed
    have hgot := h.sim.get href hmay
    exact h.append hgot.frame hgot.sim h.first (fun path => congrFun hgot.heap _) hgot.value
      hgot.owned

theorem Private.change (h : Private pristine data s t) {memory : Memory} {copy : Copy}
    (hframe : Frame pristine pristine' s.memory memory) (hsim : Sim pristine' memory copy)
    (hfirst : pristine' 0) (hheap : ∀ path, memory.heap (0, path) = s.memory.heap (0, path))
    {observation observation' : Observation} (hobservation : observation = observation') :
    Agree (PrivateCopy data) (observation, { s with memory })
      (observation', { t with memory := copy }) :=
  ⟨hobservation, h.next hframe hsim hfirst hheap h.values fun _ hvalue => .inl hvalue⟩

theorem Private.set (h : Private pristine data s t) {i : Nat} {key : PropertyKey}
    {operand : Operand} (hallowed : allowed s (.set i key operand) = true) :
    Option.Rel (Agree (PrivateCopy data)) (proxies.step s (.set i key operand))
      (copies.step t (.set i key operand)) := by
  simp only [step]
  split
  · exact .none
  · refine h.rel_object i fun ref hobject href => ?_
    have hmay : Session.maySet s ref operand = true := by simpa [allowed, hobject] using hallowed
    cases operand with
    | held j =>
      have hget : t.values[j]? = s.values[j]?.map (HeapValue.map Reference.target) := by
        rw [h.values, List.getElem?_map]
      rw [evaluate, evaluate, hget]
      cases hvalue : s.values[j]? with
      | none => exact .none
      | some value =>
        have howned := h.owned value (List.mem_of_getElem? hvalue)
        have hwrite : s.memory.MayWrite value ref := by
          cases ref with
          | raw id => trivial
          | proxy data' j' =>
            obtain ⟨rfl, proxy, hold, -⟩ := h.sim.proxied_of_owned href
            have hproxy : (s.memory.proxies data')[0]? = some proxy := by rw [hold]; rfl
            rw [Memory.MayWrite, hproxy]
            rw [Session.maySet, hproxy, hvalue] at hmay
            cases proxy with
            | array newData =>
              rintro raw rfl
              cases hmay
            | object newData deletedProperties =>
              rintro rfl
              cases hmay
        have hchanged := h.sim.set href key howned hwrite
        have hagree := h.change hchanged.frame hchanged.sim h.first
          (fun path => hchanged.heap _ h.first) (rfl : Observation.done = .done)
        cases value with
        | intrinsic ofArrays name => exact .none
        | _ => exact .some hagree
    | literal tree =>
      have htree : ∀ data' j newData deletedProperties, ref = .proxy data' j →
          (s.memory.proxies data')[j]? = some (.object newData deletedProperties) →
          tree ≠ .undefined := by
        rintro data' j newData deletedProperties rfl hproxy rfl
        simp [Session.maySet, hproxy] at hmay
      obtain ⟨pristine', hpristine, hframe, hsim, hheap⟩ := h.sim.setLiteral href key tree htree
      have hzero : 0 ≠ s.memory.trees := Nat.ne_of_lt h.loaded
      exact .some (h.change hframe hsim ((hpristine 0 hzero).mpr h.first)
        (fun path => hheap _ hzero h.first) rfl)

theorem Private.delete (h : Private pristine data s t) {i : Nat} {key : PropertyKey} :
    Option.Rel (Agree (PrivateCopy data)) (proxies.step s (.delete i key))
      (copies.step t (.delete i key)) := by
  simp only [step]
  rw [Option.map_eq_bind, Option.map_eq_bind]
  refine h.rel_object i fun ref hobject href => .some ?_
  obtain ⟨hdelete, hchanged⟩ := h.sim.delete href key
  exact h.change hchanged.frame hchanged.sim h.first (fun path => hchanged.heap _ h.first)
    (congrArg Observation.truth hdelete)

theorem Private.literal (h : Private pristine data s t) (tree : PropertyTree) :
    Option.Rel (Agree (PrivateCopy data)) (proxies.step s (.literal tree))
      (copies.step t (.literal tree)) := by
  have hpristine : ∀ n, n ≠ s.memory.trees → ((n ≠ s.memory.trees ∧ pristine n) ↔ pristine n) :=
    fun n hn => and_iff_right hn
  obtain ⟨hframe, hsim⟩ := h.sim.literal tree hpristine
  have hzero : 0 ≠ s.memory.trees := Nat.ne_of_lt h.loaded
  have hvalue : (s.memory.literal tree).1.map Reference.target = (t.memory.literal tree).1 := by
    rw [Copy.literal, h.sim.trees]
    exact HeapValue.map_ofTree Reference.target _ tree
  refine .some (h.append hframe hsim ⟨hzero, h.first⟩ (fun path => if_neg hzero) hvalue
    fun ref href => ?_)
  cases HeapValue.ofTree_eq_object href
  exact ⟨fun hid => hid.1 rfl, Nat.lt_succ_self _⟩

theorem Private.identical (h : Private pristine data s t) (i j : Nat) :
    Option.Rel (Agree (PrivateCopy data)) (proxies.step s (.same i j))
      (copies.step t (.same i j)) := by
  simp only [step, h.values, List.getElem?_map]
  cases hi : s.values[i]? with
  | none => exact .none
  | some value =>
    cases hj : s.values[j]? with
    | none => exact .none
    | some other =>
      refine .some (h.same (congrArg Observation.truth (decide_eq_decide.mpr ?_)))
      exact (h.sim.map_target_inj (h.owned value (List.mem_of_getElem? hi))
        (h.owned other (List.mem_of_getElem? hj))).symm

theorem Private.step (h : Private pristine data s t) (operation : Operation)
    (hallowed : allowed s operation = true) :
    Option.Rel (Agree (PrivateCopy data)) (proxies.step s operation)
      (copies.step t operation) := by
  cases operation with
  | get i key => exact h.get hallowed
  | set i key operand => exact h.set hallowed
  | delete i key => exact h.delete
  | literal tree => exact h.literal tree
  | same i j => exact h.identical i j
  | has i key =>
    simp only [ObjectInterface.step]
    rw [Option.map_eq_bind, Option.map_eq_bind]
    refine h.rel_object i fun ref hobject href => .some (h.same (congrArg Observation.truth ?_))
    exact h.sim.has href (by simpa [allowed, hobject] using hallowed)
  | hasOwn i key =>
    simp only [ObjectInterface.step]
    rw [Option.map_eq_bind, Option.map_eq_bind]
    refine h.rel_object i fun ref hobject href => .some (h.same (congrArg Observation.truth ?_))
    exact h.sim.hasOwn href (by simpa [allowed, hobject] using hallowed)
  | keys i =>
    simp only [ObjectInterface.step]
    rw [Option.map_eq_bind, Option.map_eq_bind]
    refine h.rel_object i fun ref hobject href => .some (h.same (congrArg Observation.keys ?_))
    exact h.sim.keys href
  | isArray i =>
    simp only [ObjectInterface.step]
    rw [Option.map_eq_bind, Option.map_eq_bind]
    refine h.rel_object i fun ref hobject href => .some (h.same (congrArg Observation.truth ?_))
    exact h.sim.isArray href

theorem sim_empty : Sim (fun _ => False) Memory.empty { heap := fun _ => {}, trees := 0 } := by
  refine ⟨rfl, fun id => ⟨⟨rfl, fun key => rfl⟩, .of_object rfl, fun key ref hown => ?_,
    fun hid => hid.elim, fun hid => hid.elim, fun proxy hproxy => ?_⟩⟩
  · cases hown
  · cases hproxy

theorem privateCopy_augmented (data : PropertyTree) :
    PrivateCopy data (augmented data) (copied data) := by
  obtain ⟨hframe, hsim, hvalue, -, howned⟩ := sim_empty.augment_literal
    data (fun n hn => iff_of_false hn id) rfl
  refine ⟨fun n => n = 0, hsim, congrArg (fun value => [value]) hvalue.symm, ?_, rfl, ?_, ?_⟩
  · intro value hmem ref href
    rw [augmented, List.mem_singleton] at hmem
    exact (howned ref (hmem ▸ href)).1
  · have htrees : ∀ (s : Memory) (value : Value), (s.augment value).2.trees = s.trees := by
      intro s value
      unfold Memory.augment
      split
      · split <;> rfl
      · rfl
    rw [augmented, htrees]
    exact Nat.one_pos
  · intro path
    rw [augmented]
    refine (congrFun (Memory.augment_heap _ _) _).trans ?_
    simp [Memory.literal, Memory.empty]

/-- Augmented data show the same as a deep copy to every sequence of allowed operations, and the
original data stay as they are. -/
theorem augmented_private_copy (data : PropertyTree) (operations : List Operation)
    (hallowed : proxies.allAllowed allowed (augmented data) operations = true) :
    (proxies.run (augmented data) operations).map Prod.fst =
        (copies.run (copied data) operations).map Prod.fst ∧
      ∀ result, proxies.run (augmented data) operations = some result →
        ∀ path, result.2.memory.heap (0, path) = loadTree .raw 0 data path := by
  have hagree := run_agree (fun s t operation ⟨_, h⟩ => h.step operation) operations
    (privateCopy_augmented data) hallowed
  refine ⟨observations_eq hagree, fun result hresult => ?_⟩
  rw [hresult] at hagree
  generalize copies.run (copied data) operations = result' at hagree
  cases hagree with
  | some hagree =>
    obtain ⟨-, pristine, hprivate⟩ := hagree
    exact hprivate.original

/-- A key of letters. -/
def nameKey (text : String) : PropertyKey := .name text.toList

/-- An object with an array of a number and an object, and with a property `toString`. -/
def sampleData : PropertyTree :=
  .object [(nameKey "a", .array [.number 1, .object [(nameKey "b", .null)]]),
    (nameKey "toString", .number 5)]

/-- The nested object is written to, and the array is changed. -/
def sampleOperations : List Operation :=
  [.get 0 (nameKey "a"), .get 1 (.index 1), .set 2 (nameKey "b") (.literal (.array [.number 3])),
    .get 1 (.index 1), .same 2 3, .get 3 (nameKey "b"), .delete 1 (.index 0), .keys 1,
    .set 1 (.index 4) (.literal (.object [])), .get 1 HeapObject.lengthKey, .keys 0]

/-- The nested object is changed, and the original is not. -/
theorem nested_private_copy :
    (proxies.run (augmented sampleData) sampleOperations).map Prod.fst =
        (copies.run (copied sampleData) sampleOperations).map Prod.fst ∧
      ∀ result, proxies.run (augmented sampleData) sampleOperations = some result →
        ∀ path, result.2.memory.heap (0, path) = loadTree .raw 0 sampleData path :=
  augmented_private_copy sampleData sampleOperations (by decide +kernel)

/-- A copied array claims to have a property that it does not have, `constructor` cannot be read, a
deleted `toString` hides the built-in, and an object that is put into an array is another one
there. -/
theorem not_private_copy :
    (proxies.run (augmented sampleData) [.get 0 (nameKey "a"), .delete 1 (.index 0),
          .hasOwn 1 (.index 0)]).map Prod.fst ≠
        (copies.run (copied sampleData) [.get 0 (nameKey "a"), .delete 1 (.index 0),
          .hasOwn 1 (.index 0)]).map Prod.fst ∧
      (proxies.run (augmented sampleData) [.set 0 Memory.constructorKey (.literal .null),
          .get 0 Memory.constructorKey]).map Prod.fst ≠
        (copies.run (copied sampleData) [.set 0 Memory.constructorKey (.literal .null),
          .get 0 Memory.constructorKey]).map Prod.fst ∧
      (proxies.run (augmented sampleData) [.delete 0 (nameKey "toString"),
          .has 0 (nameKey "toString")]).map Prod.fst ≠
        (copies.run (copied sampleData) [.delete 0 (nameKey "toString"),
          .has 0 (nameKey "toString")]).map Prod.fst ∧
      (proxies.run (augmented sampleData) [.get 0 (nameKey "a"), .literal (.object []),
          .set 1 (.index 0) (.held 2), .get 1 (.index 0), .same 2 3]).map Prod.fst ≠
        (copies.run (copied sampleData) [.get 0 (nameKey "a"), .literal (.object []),
          .set 1 (.index 0) (.held 2), .get 1 (.index 0), .same 2 3]).map Prod.fst := by
  decide +kernel

end N8n.AugmentedData
