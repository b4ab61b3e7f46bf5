import N8n.AugmentedData.Simulation

/-!
# The traps of augmented data

Each trap of a proxy does to the object that the proxy shows what the operation does to an object of
a deep copy, apart from the operations that proxies are known to hide: reads of an own property
`constructor`, deleted properties with the name of a built-in, tests for own properties of a copied
array, and objects without a proxy that are written to an array.
-/

namespace N8n.AugmentedData

open Collections

variable {pristine pristine' : Nat → Prop} {s s' : Memory} {c : Copy} {id : ObjectId}

/-! ## The operations that proxies hide -/

/-- A read through this proxy shows a property of its object: the key `constructor` is answered
without looking, and a deleted property hides the built-in of its name. -/
def Memory.mayGet (s : Memory) (ref : Reference) (key : PropertyKey) : Bool :=
  match ref with
  | .raw _ => true
  | .proxy data i =>
    match (s.proxies data)[i]? with
    | some (.object newData deletedProperties) =>
      if key = Memory.constructorKey then
        ((Proxy.view (s.heap data) (.object newData deletedProperties)).own key).isNone
      else !(decide (key ∈ deletedProperties) && isInherited false key)
    | some (.array newData) =>
      !(decide (key = Memory.constructorKey)) ||
        ((Proxy.view (s.heap data) (.array newData)).own key).isNone
    | none => true

/-- A membership test through this proxy: a deleted property hides the built-in of its name. -/
def Memory.mayTest (s : Memory) (ref : Reference) (key : PropertyKey) : Bool :=
  match ref with
  | .raw _ => true
  | .proxy data i =>
    match (s.proxies data)[i]? with
    | some (.object _ deletedProperties) =>
      !(decide (key ∈ deletedProperties) && isInherited false key)
    | _ => true

/-- A test for an own property through this proxy: a copied array claims to have every property. -/
def Memory.mayTestOwn (s : Memory) (ref : Reference) (key : PropertyKey) : Bool :=
  match ref with
  | .raw _ => true
  | .proxy data i =>
    match (s.proxies data)[i]? with
    | some (.array (some newData)) => (newData.own key).isSome
    | _ => true

/-- A write through this proxy: to an object, `undefined` is not written, and to an array, no object
that is not augmented, unless it is new. -/
def Session.maySet (s : Session Memory Reference) (ref : Reference) (operand : Operand) : Bool :=
  match ref, operand with
  | .proxy data i, .held j =>
    match (s.memory.proxies data)[i]?, s.values[j]? with
    | some (.object _ _), some .undefined => false
    | some (.array _), some (.object (.raw _)) => false
    | _, _ => true
  | .proxy data i, .literal tree =>
    match (s.memory.proxies data)[i]?, tree with
    | some (.object _ _), .undefined => false
    | _, _ => true
  | .raw _, _ => true

/-- The operations that augmented data answer like a deep copy. -/
def allowed (s : Session Memory Reference) : Operation → Bool
  | .get i key => (s.object i).all fun ref => s.memory.mayGet ref key
  | .set i _ operand => (s.object i).all fun ref => Session.maySet s ref operand
  | .has i key => (s.object i).all fun ref => s.memory.mayTest ref key
  | .hasOwn i key => (s.object i).all fun ref => s.memory.mayTestOwn ref key
  | _ => true

/-- What a read yields: the value that the copy has, and a memory that stands for the same copy. -/
structure Got (pristine : Nat → Prop) (s : Memory) (c : Copy) (id : ObjectId) (key : PropertyKey)
    (result : Value × Memory) : Prop where
  frame : Frame pristine pristine s result.2
  sim : Sim pristine result.2 c
  heap : result.2.heap = s.heap
  value : result.1.map Reference.target = (c.heap id).read key
  owned : ∀ ref, result.1 = .object ref → result.2.Owned pristine ref

theorem Frame.refl (pristine : Nat → Prop) (s : Memory) : Frame pristine pristine s s :=
  ⟨Nat.le_refl _, fun _ href => href, fun _ hsome => hsome⟩

theorem Sim.got (h : Sim pristine s c) {key : PropertyKey} {value : Value}
    (hvalue : value.map Reference.target = (c.heap id).read key)
    (howned : ∀ ref, value = .object ref → s.Owned pristine ref) :
    Got pristine s c id key (value, s) :=
  ⟨.refl pristine s, h, rfl, hvalue, howned⟩

theorem Sim.proxied_of_owned (h : Sim pristine s c) {i : Nat}
    (href : s.Owned pristine (.proxy id i)) :
    i = 0 ∧ ∃ proxy, s.proxies id = [proxy] ∧ s.Proxied pristine id proxy := by
  cases hproxies : s.proxies id with
  | nil =>
    simp only [Memory.Owned, hproxies] at href
    exact absurd href (Nat.not_lt_zero i)
  | cons proxy rest =>
    have hproxied := (h.node id).proxied proxy (by rw [hproxies]; simp)
    simp only [Memory.Owned, hproxied.single] at href
    exact ⟨Nat.lt_one_iff.mp href, proxy, hproxies ▸ hproxied.single, hproxied⟩

theorem Sim.view_of_owned (h : Sim pristine s c) (href : s.Owned pristine (.raw id)) :
    s.proxies id = [] ∧ s.view id = s.heap id := by
  have hnone : s.proxies id = [] := by
    by_contra hsome
    obtain ⟨proxy, rest, hproxies⟩ := List.exists_cons_of_ne_nil hsome
    exact href.1 ((h.node id).proxied proxy (by rw [hproxies]; simp)).original
  exact ⟨hnone, Memory.view_of_none hnone⟩

theorem inherited_constructor {ρ : Type} (ofArrays : Bool) :
    (inherited ofArrays Memory.constructorKey : HeapValue ρ) =
      .intrinsic ofArrays "constructor".toList := by
  cases ofArrays <;> rfl

theorem At.read_constructor {node : HeapObject ObjectId} (h : At pristine s id node)
    (hown : (s.view id).own Memory.constructorKey = none) :
    node.read Memory.constructorKey =
      .intrinsic (s.view id).isArray "constructor".toList := by
  rw [h.maps.read, HeapObject.read, hown, Option.getD_none, HeapObject.inherited_map,
    inherited_constructor]

theorem Sim.got_augmented (h : Sim pristine s c) {old : Proxy} {key : PropertyKey}
    {raw : ObjectId} (hold : s.proxies id = [old])
    (hslot : (s.view id).own key = some (.object (.raw raw)))
    (hpending : s.Pending pristine id key (.raw raw)) :
    let augmented := s.augment (.object (.raw raw))
    augmented.1 ≠ .object (.raw raw) ∧
      Got pristine s c id key
        (augmented.1, augmented.2.setProxy id 0 (old.assign (s.heap id) key augmented.1)) := by
  obtain ⟨-, hraw, hnone⟩ := hpending
  cases hraw
  have hvalue : (s.augment (.object (.raw (id.1, key :: id.2)))).1 =
      .object (.proxy (id.1, key :: id.2) 0) := by
    rw [Memory.augment_raw, Memory.newProxy, hnone]
    rfl
  obtain ⟨hframe, hsim, howned⟩ := h.augmentSlot hold hslot hnone
  simp only [hvalue]
  refine ⟨by simp, hframe, hsim, ?_, ?_, fun ref href => ?_⟩
  · exact Memory.augment_heap s _
  · rw [(h.node id).maps.read, HeapObject.read, hslot]
    rfl
  · cases href
    exact howned

theorem Sim.getArray (h : Sim pristine s c) {newData : Option Node}
    (hold : s.proxies id = [.array newData]) (key : PropertyKey)
    (hmay : key = Memory.constructorKey → (s.view id).own key = none) :
    Got pristine s c id key (s.getArray id 0 newData key) := by
  have hview : s.view id = newData.getD (s.heap id) := Memory.view_of_single hold
  have hholds := ((h.node id).proxied _ (by rw [hold]; exact List.mem_singleton_self _)).holds
  have hread := (h.node id).maps.read key
  rw [Memory.getArray]
  split
  · next hkey =>
      refine h.got ?_ fun ref href => by cases href
      rw [hkey, (h.node id).read_constructor (hkey ▸ hmay hkey), hview, hholds.2.1]
      rfl
  · rw [← hview]
    by_cases hraw : ∃ raw, (s.view id).read key = .object (.raw raw)
    · obtain ⟨raw, hraw⟩ := hraw
      have hslot := HeapObject.own_of_read hraw
      have hpending := hholds.2.2 key raw (hview ▸ hslot)
      obtain ⟨hne, hgot⟩ := h.got_augmented hold hslot hpending
      simp only [hraw, if_pos hne]
      exact hgot
    · have hsame := s.augment_eq fun raw hvalue => hraw ⟨raw, hvalue⟩
      simp only [hsame, ne_eq, not_true_eq_false, if_false]
      refine h.got hread.symm fun ref href => ?_
      rcases (h.node id).slots key ref (HeapObject.own_of_read href) with howned | ⟨-, rfl, -⟩
      · exact howned
      · exact absurd ⟨_, href⟩ hraw

variable {newData : Node} {deletedProperties : Finset PropertyKey}

theorem Sim.getObject (h : Sim pristine s c)
    (hold : s.proxies id = [.object newData deletedProperties]) (key : PropertyKey)
    (hconstructor : key = Memory.constructorKey → (s.view id).own key = none)
    (hdeleted : key ≠ Memory.constructorKey → key ∈ deletedProperties →
      isInherited false key = false) :
    Got pristine s c id key (s.getObject id 0 newData deletedProperties key) := by
  have hview := Memory.view_of_single hold
  have hproxied := (h.node id).proxied _ (by rw [hold]; exact List.mem_singleton_self _)
  obtain ⟨hdata, hnew, hchanges⟩ := hproxied.holds
  have hobject : (s.view id).isArray = false := by rw [hview]; rfl
  have hown := Proxy.own_view_object hdata hnew deletedProperties key
  rw [← hview] at hown
  have hread := (h.node id).maps.read key
  rw [Memory.getObject]
  split
  · next hkey =>
      refine h.got ?_ fun ref href => by cases href
      rw [hkey, (h.node id).read_constructor (hkey ▸ hconstructor hkey), hobject]
      rfl
  · next hkey =>
      split
      · next hmem =>
          refine h.got ?_ fun ref href => by cases href
          rw [hread, HeapObject.read, hown, if_pos hmem, hobject, Option.getD_none,
            HeapObject.inherited_of_not_isInherited (hdeleted hkey hmem)]
      · next hmem =>
          rw [if_neg hmem] at hown
          split
          · next value hvalue =>
              refine h.got ?_ fun ref href => hchanges key ref (href ▸ hvalue)
              rw [hread, HeapObject.read, hown, hvalue]
              rfl
          · next hvalue =>
              -- the property is the one of the target
              have htarget : (s.view id).read key = (s.heap id).read key := by
                rw [HeapObject.read, HeapObject.read, hown, hvalue, hobject, HeapObject.isArray,
                  hdata]
                rfl
              rw [← htarget]
              by_cases hraw : ∃ raw, (s.view id).read key = .object (.raw raw)
              · obtain ⟨raw, hraw⟩ := hraw
                have hslot := HeapObject.own_of_read hraw
                have hpending : s.Pending pristine id key (.raw raw) := by
                  refine ((h.node id).slots key _ hslot).resolve_left fun howned => howned.1 ?_
                  rw [hown, hvalue, Option.none_or] at hslot
                  cases (h.node id).original hproxied.original key _ hslot
                  exact hproxied.original
                obtain ⟨hne, hgot⟩ := h.got_augmented hold hslot hpending
                simp only [hraw, if_pos hne]
                exact hgot
              · have hsame := s.augment_eq fun raw hvalue => hraw ⟨raw, hvalue⟩
                simp only [hsame, ne_eq, not_true_eq_false, if_false]
                refine h.got hread.symm fun ref href => ?_
                rcases (h.node id).slots key ref (HeapObject.own_of_read href) with
                  howned | ⟨-, rfl, -⟩
                · exact howned
                · exact absurd ⟨_, href⟩ hraw

theorem Sim.get (h : Sim pristine s c) {ref : Reference} (href : s.Owned pristine ref)
    {key : PropertyKey} (hmay : s.mayGet ref key = true) :
    Got pristine s c ref.target key (s.get ref key) := by
  cases ref with
  | raw id =>
    have hview := (h.view_of_owned href).2
    have hread := (h.node id).maps.read key
    rw [hview] at hread
    refine h.got hread.symm fun ref hvalue => ?_
    refine ((h.node id).slots key ref ?_).resolve_right fun hpending => href.1 hpending.1
    rw [hview]
    exact HeapObject.own_of_read hvalue
  | proxy data i =>
    obtain ⟨rfl, proxy, hold, -⟩ := h.proxied_of_owned href
    have hproxy : (s.proxies data)[0]? = some proxy := by rw [hold]; rfl
    have hview := Memory.view_of_single hold
    rw [Memory.mayGet, hproxy] at hmay
    rw [Memory.get, hproxy]
    cases proxy with
    | array newData =>
      refine h.getArray hold key fun hkey => ?_
      simpa [hkey, ← hview] using hmay
    | object newData deletedProperties =>
      refine h.getObject hold key (fun hkey => ?_) fun hkey hmem => ?_
      · simpa [hkey, ← hview] using hmay
      · simpa [hkey, hmem] using hmay

/-! ## Writes and deletes -/

/-- What a change yields: a memory that stands for a copy with this object. -/
structure Changed (pristine : Nat → Prop) (s : Memory) (c : Copy) (id : ObjectId)
    (node : HeapObject ObjectId) (s' : Memory) : Prop where
  frame : Frame pristine pristine s s'
  sim : Sim pristine s' (c.put id node)
  heap : ∀ id', pristine id'.1 → s'.heap id' = s.heap id'

variable {node' : HeapObject ObjectId}

theorem Sim.changeRaw (h : Sim pristine s c) (href : s.Owned pristine (.raw id)) {node : Node}
    (hmaps : node.Maps Reference.target node') (hbounded : node.Bounded)
    (hslots : ∀ key ref, node.own key = some (.object ref) → s.Owned pristine ref) :
    Changed pristine s c id node' { s with heap := Function.update s.heap id node } := by
  obtain ⟨hnone, hview⟩ := h.view_of_owned href
  generalize hs' : ({ s with heap := Function.update s.heap id node } : Memory) = s'
  have hself : s'.heap id = node := by rw [← hs']; exact Function.update_self _ _ _
  have hother : ∀ id', id' ≠ id → s'.heap id' = s.heap id' := by
    intro id' hid
    rw [← hs']
    exact Function.update_of_ne hid _ _
  have hproxies : s'.proxies = s.proxies := by rw [← hs']
  have htrees : s'.trees = s.trees := by rw [← hs']
  have howned : ∀ ref, s.Owned pristine ref → s'.Owned pristine ref := by
    intro ref href
    cases ref with
    | raw id' => exact ⟨href.1, htrees ▸ href.2⟩
    | proxy target i => simpa only [Memory.Owned, hproxies] using href
  have hframe : Frame pristine pristine s s' :=
    ⟨Nat.le_of_eq htrees.symm, howned, fun id' hsome => by rwa [hproxies]⟩
  refine ⟨hframe, ⟨h.trees.trans htrees.symm, fun id' => ?_⟩, fun id' hid' => hother id' ?_⟩
  · by_cases hid : id' = id
    · subst hid
      have hview' : s'.view id' = node :=
        (Memory.view_of_none ((congrFun hproxies id').trans hnone)).trans hself
      have hnode : (c.put id' node').heap id' = node' := Function.update_self _ _ _
      rw [hnode]
      refine ⟨hview' ▸ hmaps, hview' ▸ hbounded, fun key ref hown => .inl ?_,
        fun hid => absurd hid href.1, fun hid => absurd hid href.1, fun proxy hproxy => ?_⟩
      · rw [hview'] at hown
        exact howned ref (hslots key ref hown)
      · rw [hproxies, hnone] at hproxy
        cases hproxy
    · have hnode : (c.put id node').heap id' = c.heap id' := Function.update_of_ne hid _ _
      rw [hnode]
      exact (h.node id').frame hframe Iff.rfl (hother id' hid) (congrFun hproxies id')
        fun key _ hnil => by rwa [hproxies]
  · rintro rfl
    exact href.1 hid'

theorem Sim.node_of_owned (h : Sim pristine s c) (href : s.Owned pristine (.raw id)) :
    (s.heap id).Maps Reference.target (c.heap id) ∧ (s.heap id).Bounded ∧
      ∀ key ref, (s.heap id).own key = some (.object ref) → s.Owned pristine ref := by
  have hview := (h.view_of_owned href).2
  refine ⟨hview ▸ (h.node id).maps, hview ▸ (h.node id).bounded, fun key ref hown => ?_⟩
  rw [← hview] at hown
  exact ((h.node id).slots key ref hown).resolve_right fun hpending => href.1 hpending.1

theorem Sim.changeArray (h : Sim pristine s c) {newData : Option Node}
    (hold : s.proxies id = [.array newData]) {node : Node} (harray : node.isArray = true)
    (hmaps : node.Maps Reference.target node') (hbounded : node.Bounded)
    (hslots : ∀ key ref, node.own key = some (.object ref) →
      s.Owned pristine ref ∧ (∀ raw, ref ≠ .raw raw) ∨ (s.view id).own key = some (.object ref)) :
    Changed pristine s c id node' (s.setProxy id 0 (.array node)) := by
  have hproxied := (h.node id).proxied _ (by rw [hold]; exact List.mem_singleton_self _)
  have hview : s.view id = newData.getD (s.heap id) := Memory.view_of_single hold
  obtain ⟨hdata, -, hitems⟩ := hproxied.holds
  obtain ⟨hframe, hsim⟩ := h.setProxy (.array (some node)) hold hmaps hbounded
    (fun key ref hown => (hslots key ref hown).elim (fun hnew => .inl hnew.1)
      ((h.node id).slots key ref))
    ⟨hdata, harray, fun key raw hown =>
      (hslots key _ hown).elim (fun hnew => absurd rfl (hnew.2 raw))
        fun hslot => hitems key raw (hview ▸ hslot)⟩
  exact ⟨hframe, hsim, fun _ _ => rfl⟩

theorem Sim.setArray (h : Sim pristine s c) {newData : Option Node}
    (hold : s.proxies id = [.array newData]) (key : PropertyKey) {value : Value}
    (hvalue : ∀ ref, value = .object ref → s.Owned pristine ref ∧ ∀ raw, ref ≠ .raw raw) :
    Changed pristine s c id ((c.heap id).set key (value.map Reference.target))
      (s.setProxy id 0 (.array ((s.getData id newData).set key value))) := by
  have hsame := (h.node id).same_getData hold
  have harray : (s.getData id newData).isArray = true := by
    have hholds := ((h.node id).proxied _ (by rw [hold]; exact List.mem_singleton_self _)).holds
    rw [HeapObject.isArray, hsame.length, Memory.view_of_single hold]
    exact hholds.2.1
  refine h.changeArray hold (HeapObject.isArray_set harray key value)
    (((h.node id).maps.of_same hsame).set key value)
    (((h.node id).bounded.of_same hsame).set key value) fun other ref hown => ?_
  rcases HeapObject.own_set_ref hown with ⟨-, href⟩ | hslot
  · exact .inl (hvalue ref href)
  · exact .inr ((hsame.own other).symm.trans hslot)

theorem Sim.deleteArray (h : Sim pristine s c) {newData : Option Node}
    (hold : s.proxies id = [.array newData]) (key : PropertyKey) :
    (c.heap id).canDelete key = (s.getData id newData).canDelete key ∧
      Changed pristine s c id ((c.heap id).delete key)
        (s.setProxy id 0 (.array ((s.getData id newData).delete key))) := by
  have hsame := (h.node id).same_getData hold
  have hmaps := (h.node id).maps.of_same hsame
  have harray : (s.getData id newData).isArray = true := by
    have hholds := ((h.node id).proxied _ (by rw [hold]; exact List.mem_singleton_self _)).holds
    rw [HeapObject.isArray, hsame.length, Memory.view_of_single hold]
    exact hholds.2.1
  refine ⟨hmaps.canDelete key, h.changeArray hold harray (hmaps.delete key)
    (((h.node id).bounded.of_same hsame).delete key) fun other ref hown => ?_⟩
  exact .inr ((hsame.own other).symm.trans (HeapObject.own_delete_ref hown))

theorem Sim.changeObject (h : Sim pristine s c) {newData' : Node}
    {deletedProperties' : Finset PropertyKey}
    (hold : s.proxies id = [.object newData deletedProperties]) {key : PropertyKey}
    (value : Option Value) (hnew : newData'.length = none) (hown : ∀ other,
      (Proxy.view (s.heap id) (.object newData' deletedProperties')).own other =
        if other = key then value else (s.view id).own other)
    (hvalue : ∀ ref, value = some (.object ref) → s.Owned pristine ref)
    (hchanges : ∀ other ref, newData'.own other = some (.object ref) → s.Owned pristine ref)
    (hlength : node'.length = none) (hnode : ∀ other, node'.own other =
      if other = key then value.map (HeapValue.map Reference.target)
      else (c.heap id).own other) :
    Changed pristine s c id node'
      (s.setProxy id 0 (.object newData' deletedProperties')) := by
  have hproxied := (h.node id).proxied _ (by rw [hold]; exact List.mem_singleton_self _)
  have hmaps : (Proxy.view (s.heap id) (.object newData' deletedProperties')).Maps
      Reference.target node' := by
    refine ⟨hlength, fun other => ?_⟩
    rw [hnode, hown, (h.node id).maps.own]
    split <;> rfl
  have hslots : ∀ other ref,
      (Proxy.view (s.heap id) (.object newData' deletedProperties')).own other =
        some (.object ref) → s.Owned pristine ref ∨ s.Pending pristine id other ref := by
    intro other ref href
    rw [hown] at href
    split at href
    · exact .inl (hvalue ref href)
    · exact (h.node id).slots other ref href
  obtain ⟨hframe, hsim⟩ := h.setProxy _ hold hmaps (.of_object rfl) hslots
    ⟨hproxied.holds.1, hnew, hchanges⟩
  exact ⟨hframe, hsim, fun _ _ => rfl⟩

theorem Sim.object_length (h : Sim pristine s c)
    (hold : s.proxies id = [.object newData deletedProperties]) : (c.heap id).length = none := by
  rw [(h.node id).maps.length, Memory.view_of_single hold]
  rfl

theorem Sim.setObject (h : Sim pristine s c)
    (hold : s.proxies id = [.object newData deletedProperties]) (key : PropertyKey) {value : Value}
    (hdefined : value ≠ .undefined) (hvalue : ∀ ref, value = .object ref → s.Owned pristine ref) :
    Changed pristine s c id ((c.heap id).set key (value.map Reference.target))
      (s.setObject id 0 newData deletedProperties key value) := by
  have hproxied := (h.node id).proxied _ (by rw [hold]; exact List.mem_singleton_self _)
  obtain ⟨hdata, hnew, hchanges⟩ := hproxied.holds
  have hset := HeapObject.length_set_of_object hnew key value
  have hlength := h.object_length hold
  rw [Memory.setObject, if_neg hdefined]
  refine h.changeObject hold (some value) hset (fun other => ?_)
    (fun ref href => hvalue ref (Option.some.inj href)) (fun other ref href => ?_)
    (HeapObject.length_set_of_object hlength key _)
    fun other => HeapObject.own_set_object hlength key other _
  · rw [Memory.view_of_single hold, Proxy.own_view_object hdata hset,
      Proxy.own_view_object hdata hnew, HeapObject.own_set_object hnew]
    by_cases hother : other = key <;> simp [hother]
  · rcases HeapObject.own_set_ref href with ⟨-, href⟩ | hold
    · exact hvalue ref href
    · exact hchanges other ref hold

theorem Sim.deleteObject (h : Sim pristine s c)
    (hold : s.proxies id = [.object newData deletedProperties]) (key : PropertyKey) :
    (c.heap id).canDelete key = true ∧
      Changed pristine s c id ((c.heap id).delete key) (s.setProxy id 0 (.object
        (if (newData.own key).isSome then newData.delete key else newData)
        (if ((s.heap id).own key).isSome then insert key deletedProperties
          else deletedProperties))) := by
  have hproxied := (h.node id).proxied _ (by rw [hold]; exact List.mem_singleton_self _)
  obtain ⟨hdata, hnew, hchanges⟩ := hproxied.holds
  have hlength := h.object_length hold
  have hdelete : ∀ {ρ : Type} {node : HeapObject ρ}, node.length = none → ∀ other,
      (node.delete key).own other = if other = key then none else node.own other := by
    intro ρ node hnode other
    rw [HeapObject.own_delete, HeapObject.canDelete, HeapObject.isArray, hnode]
    simp
  -- the changes do not have the property any more
  generalize hnewData : (if (newData.own key).isSome then newData.delete key else newData) =
    newData'
  have hnew' : newData'.length = none := by
    rw [← hnewData]
    split <;> exact hnew
  have hown' : ∀ other, newData'.own other = if other = key then none else newData.own other := by
    intro other
    rw [← hnewData]
    split
    · exact hdelete hnew other
    · next hnone =>
        by_cases hother : other = key
        · rw [if_pos hother, hother]
          simpa using hnone
        · rw [if_neg hother]
  refine ⟨by simp [HeapObject.canDelete, HeapObject.isArray, hlength],
    h.changeObject hold none hnew' (fun other => ?_) (fun ref href => by cases href)
      (fun other ref href => ?_) hlength fun other => hdelete hlength other⟩
  · rw [Memory.view_of_single hold, Proxy.own_view_object hdata hnew',
      Proxy.own_view_object hdata hnew, hown']
    by_cases hother : other = key
    · subst hother
      cases hkey : (s.heap id).own other <;> simp
    · cases hkey : (s.heap id).own key <;> simp [hother]
  · rw [hown'] at href
    split at href
    · cases href
    · exact hchanges other ref href

/-- The value may be written through this reference. -/
def Memory.MayWrite (s : Memory) (value : Value) : Reference → Prop
  | .raw _ => True
  | .proxy data i =>
    match (s.proxies data)[i]? with
    | some (.object _ _) => value ≠ .undefined
    | some (.array _) => ∀ raw, value ≠ .object (.raw raw)
    | none => True

theorem Sim.set (h : Sim pristine s c) {ref : Reference} (href : s.Owned pristine ref)
    (key : PropertyKey) {value : Value}
    (hvalue : ∀ ref', value = .object ref' → s.Owned pristine ref')
    (hmay : s.MayWrite value ref) :
    Changed pristine s c ref.target
      ((c.heap ref.target).set key (value.map Reference.target)) (s.set ref key value) := by
  cases ref with
  | raw id =>
    obtain ⟨hmaps, hbounded, hslots⟩ := h.node_of_owned href
    refine h.changeRaw href (hmaps.set key value) (hbounded.set key value)
      fun other ref' hown => ?_
    rcases HeapObject.own_set_ref hown with ⟨-, href'⟩ | hslot
    · exact hvalue ref' href'
    · exact hslots other ref' hslot
  | proxy data i =>
    obtain ⟨rfl, proxy, hold, -⟩ := h.proxied_of_owned href
    have hproxy : (s.proxies data)[0]? = some proxy := by rw [hold]; rfl
    rw [Memory.MayWrite, hproxy] at hmay
    rw [Memory.set, hproxy]
    cases proxy with
    | array newData =>
      simp only [s.augment_eq hmay]
      exact h.setArray hold key fun ref' href' =>
        ⟨hvalue ref' href', fun raw hraw => hmay raw (hraw ▸ href')⟩
    | object newData deletedProperties => exact h.setObject hold key hmay hvalue

theorem Sim.delete (h : Sim pristine s c) {ref : Reference} (href : s.Owned pristine ref)
    (key : PropertyKey) :
    (s.delete ref key).1 = (c.heap ref.target).canDelete key ∧
      Changed pristine s c ref.target ((c.heap ref.target).delete key) (s.delete ref key).2 := by
  cases ref with
  | raw id =>
    obtain ⟨hmaps, hbounded, hslots⟩ := h.node_of_owned href
    refine ⟨(hmaps.canDelete key).symm, h.changeRaw href (hmaps.delete key) (hbounded.delete key)
      fun other ref' hown => hslots other ref' (HeapObject.own_delete_ref hown)⟩
  | proxy data i =>
    obtain ⟨rfl, proxy, hold, -⟩ := h.proxied_of_owned href
    have hproxy : (s.proxies data)[0]? = some proxy := by rw [hold]; rfl
    rw [Memory.delete, hproxy]
    cases proxy with
    | array newData =>
      obtain ⟨hdelete, hchanged⟩ := h.deleteArray hold key
      exact ⟨hdelete.symm, hchanged⟩
    | object newData deletedProperties =>
      obtain ⟨hdelete, hchanged⟩ := h.deleteObject hold key
      exact ⟨hdelete.symm, hchanged⟩

/-! ## Tests and enumerations -/

theorem Sim.isArray (h : Sim pristine s c) {ref : Reference} (href : s.Owned pristine ref) :
    s.isArray ref = (c.heap ref.target).isArray := by
  cases ref with
  | raw id =>
    rw [Reference.target, (h.node id).maps.isArray, (h.view_of_owned href).2]
    rfl
  | proxy data i =>
    obtain ⟨-, proxy, hold, hproxied⟩ := h.proxied_of_owned href
    rw [Reference.target, (h.node data).maps.isArray, Memory.view_of_single hold, Memory.isArray]
    cases proxy with
    | array newData => rw [hproxied.holds.1]; exact hproxied.holds.2.1.symm
    | object newData deletedProperties =>
      rw [HeapObject.isArray, hproxied.holds.1]
      rfl

theorem Sim.has (h : Sim pristine s c) {ref : Reference} (href : s.Owned pristine ref)
    {key : PropertyKey} (hmay : s.mayTest ref key = true) :
    s.has ref key = (c.heap ref.target).has key := by
  cases ref with
  | raw id =>
    rw [Reference.target, (h.node id).maps.has, (h.view_of_owned href).2]
    rfl
  | proxy data i =>
    obtain ⟨rfl, proxy, hold, hproxied⟩ := h.proxied_of_owned href
    have hproxy : (s.proxies data)[0]? = some proxy := by rw [hold]; rfl
    rw [Memory.mayTest, hproxy] at hmay
    rw [Reference.target, (h.node data).maps.has, Memory.view_of_single hold, Memory.has, hproxy]
    cases proxy with
    | array newData => rfl
    | object newData deletedProperties =>
      obtain ⟨hdata, hnew, -⟩ := hproxied.holds
      have hview : (Proxy.view (s.heap data) (.object newData deletedProperties)).isArray =
          false := rfl
      simp only [HeapObject.has, Proxy.own_view_object hdata hnew, hview]
      by_cases hdeleted : key ∈ deletedProperties
      · have hinherited : isInherited false key = false := by simpa [hdeleted] using hmay
        simp [hdeleted, hinherited]
      · cases hown : newData.own key with
        | some value => simp [hdeleted]
        | none => simp [hdeleted, HeapObject.isArray, hdata]

theorem Sim.hasOwn (h : Sim pristine s c) {ref : Reference} (href : s.Owned pristine ref)
    {key : PropertyKey} (hmay : s.mayTestOwn ref key = true) :
    s.hasOwn ref key = ((c.heap ref.target).own key).isSome := by
  rw [(h.node ref.target).maps.own, Option.isSome_map]
  cases ref with
  | raw id =>
    rw [Reference.target, (h.view_of_owned href).2]
    rfl
  | proxy data i =>
    obtain ⟨rfl, proxy, hold, hproxied⟩ := h.proxied_of_owned href
    have hproxy : (s.proxies data)[0]? = some proxy := by rw [hold]; rfl
    rw [Memory.mayTestOwn, hproxy] at hmay
    rw [Reference.target, Memory.view_of_single hold, Memory.hasOwn, hproxy]
    cases proxy with
    | array newData =>
      cases newData with
      | none => rfl
      | some newData =>
        have hown : (newData.own key).isSome = true := hmay
        simp [Proxy.view, hown]
    | object newData deletedProperties =>
      obtain ⟨hdata, hnew, -⟩ := hproxied.holds
      rw [Proxy.own_view_object hdata hnew]
      by_cases hdeleted : key ∈ deletedProperties
      · simp [hdeleted]
      · cases hown : newData.own key <;> simp [hdeleted, hown]

theorem Sim.keys (h : Sim pristine s c) {ref : Reference} (href : s.Owned pristine ref) :
    (s.keys ref).toFinset = (c.heap ref.target).keys.toFinset := by
  rw [(h.node ref.target).maps.keys]
  cases ref with
  | raw id =>
    rw [Reference.target, (h.view_of_owned href).2]
    rfl
  | proxy data i =>
    obtain ⟨rfl, proxy, hold, hproxied⟩ := h.proxied_of_owned href
    have hproxy : (s.proxies data)[0]? = some proxy := by rw [hold]; rfl
    ext key
    rw [Reference.target, Memory.view_of_single hold, Memory.keys, hproxy, List.mem_toFinset,
      List.mem_toFinset]
    cases proxy with
    | array newData =>
      refine List.mem_filter.trans (and_iff_left_of_imp fun hkey => ?_)
      have hown := ((HeapObject.mem_keys _ _).mp hkey).1
      rw [Memory.hasOwn, hproxy]
      cases newData with
      | none => exact hown
      | some newData =>
        have hown : (newData.own key).isSome = true := hown
        simp [hown]
    | object newData deletedProperties =>
      obtain ⟨hdata, hnew, -⟩ := hproxied.holds
      have hdelete : ∀ {node : Node}, node.length = none → node.canDelete key = true := by
        intro node hnode
        simp [HeapObject.canDelete, HeapObject.isArray, hnode]
      rw [HeapObject.mem_keys, Proxy.own_view_object hdata hnew, hdelete rfl]
      simp only [List.mem_filter, List.mem_dedup, List.mem_append, HeapObject.mem_keys,
        hdelete hdata, hdelete hnew, Memory.hasOwn, hproxy]
      by_cases hdeleted : key ∈ deletedProperties
      · simp [hdeleted]
      · cases hown : newData.own key <;> simp [hdeleted]

/-! ## New data -/

theorem Sim.literal (h : Sim pristine s c) (tree : PropertyTree)
    (hpristine : ∀ n, n ≠ s.trees → (pristine' n ↔ pristine n)) :
    Frame pristine pristine' s (s.literal tree).2 ∧
      Sim pristine' (s.literal tree).2 (c.literal tree).2 := by
  generalize hs' : (s.literal tree).2 = s'
  have hproxies : s'.proxies = s.proxies := by rw [← hs']; rfl
  have htrees : s'.trees = s.trees + 1 := by rw [← hs']; rfl
  have hself : ∀ path, s'.heap (s.trees, path) = loadTree .raw s.trees tree path := by
    intro path
    rw [← hs']
    exact if_pos rfl
  have hother : ∀ id, id.1 ≠ s.trees → s'.heap id = s.heap id := by
    intro id hid
    rw [← hs']
    exact if_neg hid
  have howned : ∀ ref, s.Owned pristine ref → s'.Owned pristine' ref := by
    intro ref href
    cases ref with
    | raw id =>
      refine ⟨fun hid => href.1 ((hpristine id.1 (Nat.ne_of_lt href.2)).mp hid), ?_⟩
      rw [htrees]
      exact Nat.lt_succ_of_lt href.2
    | proxy target i => simpa only [Memory.Owned, hproxies] using href
  have hframe : Frame pristine pristine' s s' :=
    ⟨by rw [htrees]; exact Nat.le_succ _, howned, fun id hsome => by rwa [hproxies]⟩
  refine ⟨hframe, ?_, fun id => ?_⟩
  · rw [htrees, Copy.literal, h.trees]
  by_cases hid : id.1 = s.trees
  · obtain ⟨n, path⟩ := id
    subst hid
    have hnone : ∀ path', s'.proxies (s.trees, path') = [] := by
      intro path'
      rw [hproxies]
      by_contra hsome
      obtain ⟨proxy, rest, hlist⟩ := List.exists_cons_of_ne_nil hsome
      have hproxied := (h.node (s.trees, path')).proxied proxy (by rw [hlist]; simp)
      exact Nat.lt_irrefl _ hproxied.loaded
    have hview := (Memory.view_of_none (hnone path)).trans (hself path)
    have hnode : (c.literal tree).2.heap (s.trees, path) =
        loadTree (fun id => id) s.trees tree path := by
      rw [Copy.literal, h.trees]
      exact if_pos rfl
    have hchild : ∀ key ref, (loadTree Reference.raw s.trees tree path).own key =
        some (.object ref) → ref = .raw (s.trees, key :: path) :=
      fun key ref hown => HeapObject.own_ofTree hown
    rw [hnode]
    refine ⟨?_, ?_, fun key ref hown => ?_, fun _ => ?_, fun _ => ?_, fun proxy hproxy => ?_⟩
    · rw [hview]
      exact HeapObject.maps_ofTree Reference.target _ _
    · rw [hview]
      exact HeapObject.bounded_ofTree _ _
    · rw [hview] at hown
      cases hchild key ref hown
      by_cases htree : pristine' s.trees
      · exact .inr ⟨htree, rfl, hnone _⟩
      · exact .inl ⟨htree, by rw [htrees]; exact Nat.lt_succ_self _⟩
    · rw [hself]
      exact hchild
    · rw [hself]
      exact HeapObject.same_spread_ofTree
    · rw [hnone] at hproxy
      cases hproxy
  · have hnode : (c.literal tree).2.heap id = c.heap id := by
      rw [Copy.literal, h.trees]
      exact if_neg hid
    rw [hnode]
    exact (h.node id).frame hframe (hpristine id.1 hid) (hother id hid) (congrFun hproxies id)
      fun key _ hnil => by rwa [hproxies]

theorem Sim.augment_literal (h : Sim pristine s c) (tree : PropertyTree)
    (hpristine : ∀ n, n ≠ s.trees → (pristine' n ↔ pristine n)) (htree : pristine' s.trees) :
    let value := (s.literal tree).1
    let augmented := (s.literal tree).2.augment value
    Frame pristine pristine' s augmented.2 ∧ Sim pristine' augmented.2 (c.literal tree).2 ∧
      augmented.1.map Reference.target = (c.literal tree).1 ∧
      (∀ id, id.1 ≠ s.trees → augmented.2.proxies id = s.proxies id) ∧
      ∀ ref, augmented.1 = .object ref →
        augmented.2.Owned pristine' ref ∧ ∀ raw, ref ≠ .raw raw := by
  intro value augmented
  obtain ⟨hframe, hsim⟩ := h.literal tree hpristine
  have hvalue : value.map Reference.target = (c.literal tree).1 := by
    rw [Copy.literal, h.trees]
    exact HeapValue.map_ofTree Reference.target _ tree
  by_cases hraw : ∃ raw, value = .object (.raw raw)
  · obtain ⟨raw, hraw⟩ := hraw
    cases HeapValue.ofTree_eq_object hraw
    generalize hs₁ : (s.literal tree).2 = s₁ at hframe hsim
    have hnone : s₁.proxies (s.trees, []) = [] := by
      rw [← hs₁]
      by_contra hsome
      obtain ⟨proxy, rest, hlist⟩ := List.exists_cons_of_ne_nil hsome
      have hlist : s.proxies (s.trees, []) = proxy :: rest := hlist
      have hproxied := (h.node (s.trees, [])).proxied proxy (by rw [hlist]; simp)
      exact Nat.lt_irrefl _ hproxied.loaded
    have htrees : s.trees < s₁.trees := by rw [← hs₁]; exact Nat.lt_succ_self _
    obtain ⟨hframe', hsim'⟩ :=
      hsim.newProxy htree htrees hnone (fun key path hpath => by cases hpath)
      fun id key hown => by
        rcases (hsim.node id).slots key _ hown with howned | hpending
        · exact howned.1 htree
        · exact List.cons_ne_nil key id.2
            (Prod.ext_iff.mp (Reference.raw.inj hpending.2.1)).2.symm
    have haugmented : augmented = s₁.newProxy (s.trees, []) (.fresh (s₁.heap (s.trees, []))) := by
      show (s.literal tree).2.augment value = _
      rw [hraw, hs₁, Memory.augment_raw]
    have hfirst : augmented.1 = .object (.proxy (s.trees, []) 0) := by
      rw [haugmented, Memory.newProxy, hnone]
      rfl
    have hsecond : augmented.2 = (s₁.augment (.object (.raw (s.trees, [])))).2 := by
      rw [haugmented, Memory.augment_raw]
    refine ⟨?_, hsecond ▸ hsim', ?_, fun id hid => ?_, fun ref href => ?_⟩
    · rw [hsecond]
      exact ⟨Nat.le_trans hframe.trees hframe'.trees,
        fun ref href => hframe'.owned ref (hframe.owned ref href),
        fun id hsome => hframe'.proxied id (hframe.proxied id hsome)⟩
    · rw [hfirst, ← hvalue, hraw]
      rfl
    · have hne : id ≠ (s.trees, []) := fun heq => hid (by rw [heq])
      rw [haugmented, Memory.newProxy]
      refine (Function.update_of_ne hne _ _).trans ?_
      rw [← hs₁]
      rfl
    · rw [hfirst] at href
      cases href
      refine ⟨?_, fun raw hraw => by cases hraw⟩
      rw [haugmented, Memory.newProxy, hnone]
      simp [Memory.Owned]
  · have hsame : augmented = (value, (s.literal tree).2) :=
      Memory.augment_eq _ fun raw hvalue => hraw ⟨raw, hvalue⟩
    rw [hsame]
    refine ⟨hframe, hsim, hvalue, fun id _ => rfl, fun ref href => ?_⟩
    cases HeapValue.ofTree_eq_object href
    exact absurd ⟨_, href⟩ hraw

theorem Frame.trans {pristine₁ pristine₂ pristine₃ : Nat → Prop} {s₁ s₂ s₃ : Memory}
    (h : Frame pristine₁ pristine₂ s₁ s₂) (h' : Frame pristine₂ pristine₃ s₂ s₃) :
    Frame pristine₁ pristine₃ s₁ s₃ :=
  ⟨Nat.le_trans h.trees h'.trees, fun ref href => h'.owned ref (h.owned ref href),
    fun id hsome => h'.proxied id (h.proxied id hsome)⟩

theorem Sim.setLiteral (h : Sim pristine s c) {ref : Reference} (href : s.Owned pristine ref)
    (key : PropertyKey) (tree : PropertyTree)
    (hmay : ∀ data i newData deletedProperties, ref = .proxy data i →
      (s.proxies data)[i]? = some (.object newData deletedProperties) → tree ≠ .undefined) :
    ∃ pristine', (∀ n, n ≠ s.trees → (pristine' n ↔ pristine n)) ∧
      Frame pristine pristine' s ((s.literal tree).2.set ref key (s.literal tree).1) ∧
      Sim pristine' ((s.literal tree).2.set ref key (s.literal tree).1)
        ((c.literal tree).2.put ref.target
          (((c.literal tree).2.heap ref.target).set key (c.literal tree).1)) ∧
      ∀ id, id.1 ≠ s.trees → pristine id.1 →
        ((s.literal tree).2.set ref key (s.literal tree).1).heap id = s.heap id := by
  have hother : ∀ id, id.1 ≠ s.trees → (s.literal tree).2.heap id = s.heap id :=
    fun id hid => if_neg hid
  by_cases harray : ∃ data newData, ref = .proxy data 0 ∧ s.proxies data = [.array newData]
  · obtain ⟨data, newData, rfl, hold⟩ := harray
    have hpristine : ∀ n, n ≠ s.trees → ((n = s.trees ∨ pristine n) ↔ pristine n) :=
      fun n hn => or_iff_right hn
    obtain ⟨hframe, hsim, hvalue, hproxies, howned⟩ := h.augment_literal tree hpristine (.inl rfl)
    have hloaded := ((h.node data).proxied _ (by rw [hold]; exact List.mem_singleton_self _)).loaded
    have hold' := (hproxies data (Nat.ne_of_lt hloaded)).trans hold
    have hchanged := hsim.setArray hold' key howned
    have hset : (s.literal tree).2.set (.proxy data 0) key (s.literal tree).1 =
        ((s.literal tree).2.augment (s.literal tree).1).2.setProxy data 0
          (.array ((((s.literal tree).2.augment (s.literal tree).1).2.getData data newData).set key
            ((s.literal tree).2.augment (s.literal tree).1).1)) := by
      have hproxy : ((s.literal tree).2.proxies data)[0]? = some (.array newData) := by
        show (s.proxies data)[0]? = _
        rw [hold]
        rfl
      rw [Memory.set, hproxy]
      simp only [Memory.getData, Memory.augment_heap]
    rw [hset]
    refine ⟨_, hpristine, hframe.trans hchanged.frame, ?_, fun id hid hpristine => ?_⟩
    · rw [← hvalue]
      exact hchanged.sim
    · rw [hchanged.heap id (.inr hpristine), Memory.augment_heap, hother id hid]
  · have hpristine : ∀ n, n ≠ s.trees → ((n ≠ s.trees ∧ pristine n) ↔ pristine n) :=
      fun n hn => and_iff_right hn
    obtain ⟨hframe, hsim⟩ := h.literal tree hpristine
    have hvalue : (s.literal tree).1.map Reference.target = (c.literal tree).1 := by
      rw [Copy.literal, h.trees]
      exact HeapValue.map_ofTree Reference.target _ tree
    have hroot : ∀ ref', (s.literal tree).1 = .object ref' →
        (s.literal tree).2.Owned (fun n => n ≠ s.trees ∧ pristine n) ref' := by
      intro ref' href'
      cases HeapValue.ofTree_eq_object href'
      exact ⟨fun hid => hid.1 rfl, Nat.lt_succ_self s.trees⟩
    have hmay' : (s.literal tree).2.MayWrite (s.literal tree).1 ref := by
      cases ref with
      | raw id => trivial
      | proxy data i =>
        obtain ⟨rfl, proxy, hold, -⟩ := h.proxied_of_owned href
        have hproxy : (s.proxies data)[0]? = some proxy := by rw [hold]; rfl
        have hproxy' : ((s.literal tree).2.proxies data)[0]? = some proxy := hproxy
        rw [Memory.MayWrite, hproxy']
        cases proxy with
        | array newData => exact absurd ⟨data, newData, rfl, hold⟩ harray
        | object newData deletedProperties =>
          have hdefined := hmay data 0 newData deletedProperties rfl hproxy
          intro hvalue
          cases tree with
          | undefined => exact hdefined rfl
          | _ => cases hvalue
    have hchanged := hsim.set (hframe.owned ref href) key hroot hmay'
    refine ⟨_, hpristine, hframe.trans hchanged.frame, ?_, fun id hid hold => ?_⟩
    · rw [← hvalue]
      exact hchanged.sim
    · rw [hchanged.heap id ⟨hid, hold⟩, hother id hid]

end N8n.AugmentedData
