import N8n.Collections.Fallible
import N8n.PartialExecution.DirectedGraph

/-!
# The order in which parameters are resolved

`getParameterDependencies` and `getParameterResolveOrder` of
`packages/workflow/src/node-helpers.ts`. A property whose dependencies are missing is to be tried
again later, but the `continue` that is to leave it out goes on with its next dependency: the
property is put in the order at once, and again later. `resolve_order_iff`: the order is right when
it is that of the list.
-/

namespace N8n.ResolveOrder

open Collections
open PartialExecution.DirectedGraph (prototypeKeys)

/-- `INodeProperties`. The display options are the parameter names that each of their rules has as
keys. -/
structure INodeProperties where
  name : String
  displayOptions : Option (List (List String)) := none
  deriving DecidableEq, Repr

/-- How the functions can fail: with a `TypeError`, with the `ApplicationError` on too many
iterations, or because the model runs out of fuel. -/
inductive ResolveError where
  | typeError
  | applicationError (message : String)
  | outOfFuel
  deriving DecidableEq, Repr

/-- The message of the `ApplicationError`. -/
def maxIterationsMessage : String :=
  "Could not resolve parameter dependencies. Max iterations reached! Hint: If `displayOptions` " ++
    "are specified in any child parameter of a parent `collection` or `fixedCollection`, remove " ++
    "the `displayOptions` from the child parameter."

/-- `IParameterDependencies`. -/
abbrev IParameterDependencies := InsertionMap String (List String)

/-- `s.charAt(0)`, if the string is not empty. -/
def charAt0 (s : String) : Option Char := s.toList.head?

/-- The parameter names that the two inner loops of `getParameterDependencies` go through. -/
def INodeProperties.parameterNames (p : INodeProperties) : List String :=
  (p.displayOptions.getD []).flatten

/-- The body of the inner loops. An inherited property has no function `includes`. -/
def addDependency (name : String) (dependencies : IParameterDependencies) (parameterName : String) :
    Except ResolveError IParameterDependencies :=
  match dependencies.get? name with
  | none => .error .typeError
  | some names =>
    if parameterName ∈ names ∨ charAt0 parameterName = some '@' then .ok dependencies
    else .ok (dependencies.set name (names ++ [parameterName]))

/-- One round of the outer loop: `!dependencies[name]` also looks at inherited properties. -/
def addProperty (dependencies : IParameterDependencies) (p : INodeProperties) :
    Except ResolveError IParameterDependencies :=
  let dependencies :=
    if dependencies.has p.name ∨ p.name ∈ prototypeKeys then dependencies
    else dependencies.set p.name []
  p.parameterNames.foldlM (addDependency p.name) dependencies

/-- `getParameterDependencies(nodePropertiesArray)`. -/
def getParameterDependencies (nodePropertiesArray : List INodeProperties) :
    Except ResolveError IParameterDependencies :=
  nodePropertiesArray.foldlM addProperty .empty

/-- The inherited functions whose `length` is 0. -/
def lengthZero : List String := ["toString", "valueOf", "toLocaleString"]

/-- The dependencies that the loop reads from `parameterDependencies[name]`. What is inherited has
length 0 or cannot be iterated. -/
def dependenciesOf (parameterDependencies : IParameterDependencies) (name : String) :
    Except ResolveError (List String) :=
  match parameterDependencies.get? name with
  | some names => .ok names
  | none => if name ∈ lengthZero then .ok [] else .error .typeError

/-- The variables of the loop of `getParameterResolveOrder`. -/
structure ResolveState where
  executionOrder : List Nat
  indexToResolve : List Nat
  resolvedParameters : List String
  lastIndexLength : Nat
  lastIndexReduction : Int
  iterations : Nat
  deriving DecidableEq, Repr

/-- One round of the loop for the property `name` with the given index, where `rest` is left of
`indexToResolve` and `dependencies` are the dependencies, which are not empty. -/
def resolveDependent (length : Nat) (s : ResolveState) (index : Nat) (rest : List Nat)
    (name : String) (dependencies : List String) : Except ResolveError ResolveState :=
  let missing := dependencies.filter fun dependency =>
    dependency ∉ s.resolvedParameters ∧ charAt0 dependency ≠ some '/'
  -- the index is pushed for each missing dependency
  let indexToResolve := rest ++ missing.map fun _ => index
  let iterations := s.iterations + 1
  let lastIndexReduction :=
    if indexToResolve.length < s.lastIndexLength then (iterations : Int) else s.lastIndexReduction
  if lastIndexReduction + length < iterations then .error (.applicationError maxIterationsMessage)
  else .ok {
    executionOrder := s.executionOrder ++ [index]
    indexToResolve
    resolvedParameters := s.resolvedParameters ++ [name]
    lastIndexLength := indexToResolve.length
    lastIndexReduction
    iterations }

/-- One round of the loop. -/
def resolveNext (nodePropertiesArray : List INodeProperties)
    (parameterDependencies : IParameterDependencies) (s : ResolveState) (index : Nat)
    (rest : List Nat) : Except ResolveError ResolveState :=
  match nodePropertiesArray[index]? with
  | none => .error .typeError
  | some property => do
    let dependencies ← dependenciesOf parameterDependencies property.name
    if dependencies = [] then
      return { s with
        executionOrder := s.executionOrder ++ [index]
        indexToResolve := rest
        resolvedParameters := s.resolvedParameters ++ [property.name]
        iterations := s.iterations + 1 }
    else resolveDependent nodePropertiesArray.length s index rest property.name dependencies

/-- The `while` loop, at most `fuel` rounds of it. -/
def resolveLoop (nodePropertiesArray : List INodeProperties)
    (parameterDependencies : IParameterDependencies) :
    Nat → ResolveState → Except ResolveError (List Nat)
  | 0, _ => .error .outOfFuel
  | fuel + 1, s =>
    match s.indexToResolve with
    | [] => .ok s.executionOrder
    | index :: rest => do
      let s ← resolveNext nodePropertiesArray parameterDependencies s index rest
      resolveLoop nodePropertiesArray parameterDependencies fuel s

/-- `getParameterResolveOrder(nodePropertiesArray, parameterDependencies)`. -/
def getParameterResolveOrder (fuel : Nat) (nodePropertiesArray : List INodeProperties)
    (parameterDependencies : IParameterDependencies) : Except ResolveError (List Nat) :=
  resolveLoop nodePropertiesArray parameterDependencies fuel
    { executionOrder := []
      indexToResolve := List.range nodePropertiesArray.length
      resolvedParameters := []
      lastIndexLength := nodePropertiesArray.length
      lastIndexReduction := -1
      iterations := 0 }

/-- The order that `getNodeParameters` asks for. -/
def resolveOrder (fuel : Nat) (nodePropertiesArray : List INodeProperties) :
    Except ResolveError (List Nat) := do
  getParameterResolveOrder fuel nodePropertiesArray (← getParameterDependencies nodePropertiesArray)

/-! ## Dependencies -/

/-- A property of the name has the parameter name in its display options, and it is not a special
parameter. -/
def Mentions (properties : List INodeProperties) (name d : String) : Prop :=
  (∃ p ∈ properties, p.name = name ∧ d ∈ p.parameterNames) ∧ charAt0 d ≠ some '@'

/-- The dependencies that were collected from some properties. -/
structure Collected (properties : List INodeProperties) (dependencies : IParameterDependencies) :
    Prop where
  has : ∀ name, dependencies.has name = true ↔
    name ∉ prototypeKeys ∧ ∃ p ∈ properties, p.name = name
  mem : ∀ name names, dependencies.get? name = some names →
    ∀ d, d ∈ names ↔ Mentions properties name d
  plain : ∀ p ∈ properties, p.name ∈ prototypeKeys → p.parameterNames = []

theorem addDependencies_spec {name : String} {dependencies : IParameterDependencies}
    {names : List String} (h : dependencies.get? name = some names) (l : List String) :
    ∃ dependencies' names', l.foldlM (addDependency name) dependencies = .ok dependencies' ∧
      dependencies'.get? name = some names' ∧
      (∀ other, other ≠ name → dependencies'.get? other = dependencies.get? other) ∧
      ∀ d, d ∈ names' ↔ d ∈ names ∨ d ∈ l ∧ charAt0 d ≠ some '@' := by
  induction l generalizing dependencies names with
  | nil => exact ⟨dependencies, names, rfl, h, fun _ _ => rfl, by simp⟩
  | cons d l ih =>
    rw [List.foldlM_cons, addDependency, h]
    dsimp only
    by_cases hskip : d ∈ names ∨ charAt0 d = some '@'
    · obtain ⟨dependencies', names', hfold, hget, hother, hmem⟩ := ih h
      rw [if_pos hskip]
      refine ⟨dependencies', names', hfold, hget, hother, fun d' => ?_⟩
      rw [hmem, List.mem_cons]
      refine ⟨fun hd' => hd'.imp id (And.imp_left .inr), ?_⟩
      rintro (hd' | ⟨rfl | hd', hspecial⟩)
      · exact .inl hd'
      · exact .inl (hskip.resolve_right hspecial)
      · exact .inr ⟨hd', hspecial⟩
    · obtain ⟨dependencies', names', hfold, hget, hother, hmem⟩ :=
        ih (InsertionMap.get_set dependencies name name (names ++ [d]) ▸ if_pos rfl)
      refine ⟨dependencies', names', by rw [if_neg hskip]; exact hfold, hget,
        fun other hne => (hother other hne).trans (InsertionMap.get_set_other _ _ hne),
        fun d' => ?_⟩
      obtain ⟨-, hspecial⟩ := not_or.mp hskip
      rw [hmem, List.mem_append, List.mem_singleton, List.mem_cons, or_assoc, or_and_right]
      refine or_congr_right (or_congr_left ⟨?_, And.left⟩)
      rintro rfl
      exact ⟨rfl, hspecial⟩

section Properties

variable {properties : List INodeProperties} {p : INodeProperties}
  {dependencies : IParameterDependencies} {name d : String}

theorem mentions_snoc : Mentions (properties ++ [p]) name d ↔
    Mentions properties name d ∨ p.name = name ∧ d ∈ p.parameterNames ∧ charAt0 d ≠ some '@' := by
  simp only [Mentions, List.mem_append, List.mem_singleton, or_and_right, exists_or, exists_eq_left,
    and_assoc]

theorem collected_nil : Collected [] .empty := by
  refine ⟨fun name => ?_, fun name names hget => ?_, by simp⟩
  · simp [InsertionMap.has]
  · simp at hget

/-- The entry of a property that has no inherited name, before its own display options are looked
at. -/
theorem exists_entry (h : Collected properties dependencies) (hproto : p.name ∉ prototypeKeys) :
    ∃ start names, (if dependencies.has p.name ∨ p.name ∈ prototypeKeys then dependencies
        else dependencies.set p.name []) = start ∧ start.get? p.name = some names ∧
      (∀ other, other ≠ p.name → start.get? other = dependencies.get? other) ∧
      ∀ d, d ∈ names ↔ Mentions properties p.name d := by
  cases hhas : dependencies.has p.name with
  | true =>
    obtain ⟨names, hnames⟩ := Option.isSome_iff_exists.mp hhas
    exact ⟨dependencies, names, by simp, hnames, fun _ _ => rfl, h.mem p.name names hnames⟩
  | false =>
    refine ⟨dependencies.set p.name [], [], by simp [hproto],
      (InsertionMap.get_set ..).trans (if_pos rfl),
      fun other hne => InsertionMap.get_set_other _ _ hne, fun d => ?_⟩
    have hnone : ¬ ∃ q ∈ properties, q.name = p.name := fun hexists => by
      have htrue := (h.has p.name).mpr ⟨hproto, hexists⟩
      rw [hhas] at htrue
      cases htrue
    refine iff_of_false List.not_mem_nil fun ⟨⟨q, hq, hname, _⟩, _⟩ => hnone ⟨q, hq, hname⟩

/-- A property is collected, unless it has an inherited name and display options that name a
parameter. -/
theorem Collected.addProperty (h : Collected properties dependencies)
    (hplain : p.name ∈ prototypeKeys → p.parameterNames = []) :
    ∃ dependencies', addProperty dependencies p = .ok dependencies' ∧
      Collected (properties ++ [p]) dependencies' := by
  have hplains : ∀ q ∈ properties ++ [p], q.name ∈ prototypeKeys → q.parameterNames = [] := by
    intro q hq
    rcases List.mem_append.mp hq with hq | hq
    · exact h.plain q hq
    · rw [List.mem_singleton.mp hq]
      exact hplain
  by_cases hproto : p.name ∈ prototypeKeys
  · refine ⟨dependencies, ?_, fun name => ?_, fun name names hget d => ?_, hplains⟩
    · rw [ResolveOrder.addProperty, if_pos (.inr hproto), hplain hproto]
      rfl
    · rw [h.has]
      refine and_congr_right fun hname => ⟨fun ⟨q, hq, heq⟩ => ⟨q, by simp [hq], heq⟩, ?_⟩
      rintro ⟨q, hq, rfl⟩
      rcases List.mem_append.mp hq with hq | hq
      · exact ⟨q, hq, rfl⟩
      · rw [List.mem_singleton.mp hq] at hname
        exact absurd hproto hname
    · rw [h.mem name names hget, mentions_snoc, hplain hproto]
      simp
  · obtain ⟨start, names, hstart, hget, hother, hmem⟩ := exists_entry h hproto
    obtain ⟨dependencies', names', hfold, hget', hother', hmem'⟩ :=
      addDependencies_spec hget p.parameterNames
    refine ⟨dependencies', by rw [ResolveOrder.addProperty, hstart]; exact hfold,
      fun name => ?_, fun name found hfound d => ?_, hplains⟩
    · by_cases hname : name = p.name
      · subst hname
        refine iff_of_true (by rw [InsertionMap.has, hget']; rfl) ⟨hproto, p, by simp, rfl⟩
      · rw [InsertionMap.has, hother' name hname, hother name hname, ← InsertionMap.has, h.has]
        simp [or_and_right, exists_or, Ne.symm hname]
    · by_cases hname : name = p.name
      · subst hname
        rw [hget'] at hfound
        cases hfound
        rw [hmem', hmem, mentions_snoc]
        simp
      · rw [hother' name hname, hother name hname] at hfound
        rw [h.mem name found hfound, mentions_snoc]
        simp [Ne.symm hname]

theorem getParameterDependencies_spec (properties : List INodeProperties) :
    ((∀ p ∈ properties, p.name ∈ prototypeKeys → p.parameterNames = []) →
      ∃ dependencies, getParameterDependencies properties = .ok dependencies) ∧
    ∀ dependencies, getParameterDependencies properties = .ok dependencies →
      Collected properties dependencies := by
  induction properties using List.reverseRecOn with
  | nil =>
    refine ⟨fun _ => ⟨.empty, rfl⟩, fun dependencies h => ?_⟩
    cases h
    exact collected_nil
  | append_singleton properties p ih =>
    constructor
    · intro hplain
      obtain ⟨dependencies, hdependencies⟩ := ih.1 fun q hq => hplain q (by simp [hq])
      obtain ⟨dependencies', hadd, -⟩ :=
        (ih.2 dependencies hdependencies).addProperty (hplain p (by simp))
      exact ⟨dependencies', foldlM_snoc_eq_ok.mpr ⟨dependencies, hdependencies, hadd⟩⟩
    · intro dependencies' h
      obtain ⟨dependencies, hdependencies, hadd⟩ := foldlM_snoc_eq_ok.mp h
      have hcollected := ih.2 dependencies hdependencies
      have hplain : p.name ∈ prototypeKeys → p.parameterNames = [] := by
        intro hproto
        have hnone : dependencies.get? p.name = none := by
          refine Option.not_isSome_iff_eq_none.mp fun hsome => ?_
          exact ((hcollected.has p.name).mp hsome).1 hproto
        cases hnames : p.parameterNames with
        | nil => rfl
        | cons d rest =>
          rw [addProperty, if_pos (.inr hproto), hnames, List.foldlM_cons, addDependency,
            hnone] at hadd
          cases hadd
      obtain ⟨found, hfound, hcollected'⟩ := hcollected.addProperty hplain
      rw [hadd] at hfound
      cases hfound
      exact hcollected'

end Properties

/-! ## Orders -/

/-- A property of the name depends on the parameter, which is not at the root level. -/
def Needs (properties : List INodeProperties) (name d : String) : Prop :=
  Mentions properties name d ∧ charAt0 d ≠ some '/'

/-- Every index once, and every property after one of each name that it depends on. -/
structure IsResolveOrder (properties : List INodeProperties) (order : List Nat) : Prop where
  once : order.Perm (List.range properties.length)
  after : ∀ pre i post, order = pre ++ i :: post → ∀ p, properties[i]? = some p →
    ∀ d, Needs properties p.name d → ∃ j ∈ pre, ∃ q, properties[j]? = some q ∧ q.name = d

/-- The names of the first `k` properties. -/
def namesBefore (properties : List INodeProperties) (k : Nat) : List String :=
  (properties.take k).map (·.name)

/-- The order of the list respects the dependencies. -/
def InListOrder (properties : List INodeProperties) : Prop :=
  ∀ i p, properties[i]? = some p → ∀ d, Needs properties p.name d → d ∈ namesBefore properties i

/-- No property has the name of an inherited property, but for one that has no display options that
name a parameter and whose name is that of a function of length 0. -/
def PlainNames (properties : List INodeProperties) : Prop :=
  ∀ p ∈ properties, p.name ∈ prototypeKeys → p.name ∈ lengthZero ∧ p.parameterNames = []

section Loop

variable {properties : List INodeProperties} {dependencies : IParameterDependencies}
  {s s' : ResolveState} {k index : Nat} {rest : List Nat} {p : INodeProperties}
  {names : List String} {d : String}

theorem namesBefore_succ (h : properties[k]? = some p) :
    namesBefore properties (k + 1) = namesBefore properties k ++ [p.name] := by
  rw [namesBefore, List.take_add_one, h, List.map_append]
  rfl

theorem mem_namesBefore_iff :
    d ∈ namesBefore properties k ↔ ∃ j < k, ∃ q, properties[j]? = some q ∧ q.name = d := by
  rw [namesBefore, List.mem_map]
  constructor
  · rintro ⟨q, hq, rfl⟩
    obtain ⟨j, hj⟩ := List.mem_iff_getElem?.mp hq
    rw [List.getElem?_take] at hj
    split at hj
    · rename_i hlt
      exact ⟨j, hlt, q, hj, rfl⟩
    · cases hj
  · rintro ⟨j, hlt, q, hq, rfl⟩
    refine ⟨q, List.mem_iff_getElem?.mpr ⟨j, ?_⟩, rfl⟩
    rw [List.getElem?_take, if_pos hlt, hq]

theorem mem_dependencies_iff (h : Collected properties dependencies) (hp : p ∈ properties)
    (hnames : dependenciesOf dependencies p.name = .ok names) :
    d ∈ names ↔ Mentions properties p.name d := by
  rw [dependenciesOf] at hnames
  cases hget : dependencies.get? p.name with
  | some found =>
    rw [hget] at hnames
    cases hnames
    exact h.mem p.name names hget d
  | none =>
    rw [hget] at hnames
    dsimp only at hnames
    split at hnames
    · cases hnames
      have hproto : p.name ∈ prototypeKeys := by
        by_contra hproto
        have hhas := (h.has p.name).mpr ⟨hproto, p, hp, rfl⟩
        rw [InsertionMap.has, hget] at hhas
        cases hhas
      refine iff_of_false List.not_mem_nil fun ⟨⟨q, hq, hname, hd⟩, _⟩ => ?_
      rw [h.plain q hq (hname ▸ hproto)] at hd
      cases hd
    · cases hnames

theorem dependenciesOf_ok_iff (h : Collected properties dependencies) (hp : p ∈ properties) :
    (∃ names, dependenciesOf dependencies p.name = .ok names) ↔
      (p.name ∈ prototypeKeys → p.name ∈ lengthZero) := by
  rw [dependenciesOf]
  cases hget : dependencies.get? p.name with
  | some found =>
    refine iff_of_true ⟨found, rfl⟩ fun hproto => ?_
    have hhas : dependencies.has p.name = true := by
      rw [InsertionMap.has, hget]
      rfl
    exact absurd hproto ((h.has p.name).mp hhas).1
  | none =>
    have hproto : p.name ∈ prototypeKeys := by
      by_contra hproto
      have hhas := (h.has p.name).mpr ⟨hproto, p, hp, rfl⟩
      rw [InsertionMap.has, hget] at hhas
      cases hhas
    dsimp only
    rw [imp_iff_right hproto]
    split
    · rename_i hzero
      exact iff_of_true ⟨[], rfl⟩ hzero
    · rename_i hzero
      refine iff_of_false ?_ hzero
      rintro ⟨names, hnames⟩
      cases hnames

/-- A round puts its index in the order. What it leaves in the list to resolve is the rest, and the
index again when a dependency is missing. -/
theorem resolveNext_ok (h : resolveNext properties dependencies s index rest = .ok s') :
    ∃ p names, properties[index]? = some p ∧ dependenciesOf dependencies p.name = .ok names ∧
      s'.executionOrder = s.executionOrder ++ [index] ∧ rest ⊆ s'.indexToResolve ∧
      ((∃ d ∈ names, d ∉ s.resolvedParameters ∧ charAt0 d ≠ some '/') →
        index ∈ s'.indexToResolve) := by
  rw [resolveNext] at h
  cases hp : properties[index]? with
  | none =>
    rw [hp] at h
    cases h
  | some p =>
    rw [hp] at h
    obtain ⟨names, hnames, h⟩ := bind_eq_ok.mp h
    refine ⟨p, names, rfl, hnames, ?_⟩
    split at h
    · rename_i hempty
      cases h
      exact ⟨rfl, List.Subset.refl _, by simp [hempty]⟩
    · unfold resolveDependent at h
      extract_lets missing indexToResolve iterations lastIndexReduction at h
      split at h
      · cases h
      · cases h
        refine ⟨rfl, List.subset_append_left .., ?_⟩
        rintro ⟨d, hd, hmissing⟩
        refine List.mem_append_right _ (List.mem_map.mpr ⟨d, ?_, rfl⟩)
        exact List.mem_filter.mpr ⟨hd, by simpa using hmissing⟩

theorem resolveLoop_grows {fuel : Nat} {order : List Nat}
    (h : resolveLoop properties dependencies fuel s = .ok order) :
    ∃ tail, order = s.executionOrder ++ tail ∧ s.indexToResolve ⊆ tail := by
  induction fuel generalizing s with
  | zero => cases h
  | succ fuel ih =>
    rw [resolveLoop] at h
    cases hqueue : s.indexToResolve with
    | nil =>
      rw [hqueue] at h
      cases h
      exact ⟨[], by simp, List.Subset.refl _⟩
    | cons index rest =>
      rw [hqueue] at h
      obtain ⟨s', hnext, h⟩ := bind_eq_ok.mp h
      obtain ⟨p, names, -, -, horder, hrest, -⟩ := resolveNext_ok hnext
      obtain ⟨tail, rfl, htail⟩ := ih h
      refine ⟨index :: tail, by rw [horder, List.append_assoc]; rfl, ?_⟩
      exact List.cons_subset_cons _ (List.Subset.trans hrest htail)

/-- The state after the first `k` properties were resolved in the order of the list. -/
structure InOrder (properties : List INodeProperties) (k : Nat) (s : ResolveState) : Prop where
  order : s.executionOrder = List.range k
  rest : s.indexToResolve = List.range' k (properties.length - k)
  resolved : s.resolvedParameters = namesBefore properties k
  length : properties.length - k ≤ s.lastIndexLength

theorem InOrder.rest_cons (h : InOrder properties k s) (hk : k < properties.length) :
    s.indexToResolve = k :: List.range' (k + 1) (properties.length - (k + 1)) := by
  obtain ⟨n, hn⟩ : ∃ n, properties.length - k = n + 1 := ⟨properties.length - k - 1, by omega⟩
  rw [h.rest, hn, List.range'_succ]
  congr 2
  omega

theorem InOrder.next (h : InOrder properties k s) (hp : properties[k]? = some p)
    (hnames : dependenciesOf dependencies p.name = .ok names)
    (hresolved : ∀ d ∈ names, charAt0 d ≠ some '/' → d ∈ s.resolvedParameters) :
    ∃ s', resolveNext properties dependencies s k
        (List.range' (k + 1) (properties.length - (k + 1))) = .ok s' ∧
      InOrder properties (k + 1) s' := by
  have hlt : k < properties.length := (List.getElem?_eq_some_iff.mp hp).1
  have horder : List.range k ++ [k] = List.range (k + 1) := List.range_succ.symm
  rw [resolveNext, hp]
  simp only [hnames, bind, Except.bind]
  split
  · refine ⟨_, rfl, ?_, rfl, ?_, ?_⟩
    · rw [h.order, horder]
    · rw [h.resolved, namesBefore_succ hp]
    · have := h.length
      dsimp only
      omega
  · have hmissing : names.filter (fun dependency =>
        dependency ∉ s.resolvedParameters ∧ charAt0 dependency ≠ some '/') = [] := by
      refine List.filter_eq_nil_iff.mpr fun d hd => ?_
      rw [decide_eq_true_iff]
      exact fun ⟨hnot, hslash⟩ => hnot (hresolved d hd hslash)
    have hlength : (List.range' (k + 1) (properties.length - (k + 1)) ++ []).length <
        s.lastIndexLength := by
      have := h.length
      rw [List.append_nil, List.length_range']
      omega
    rw [resolveDependent, hmissing]
    simp only [List.map_nil]
    rw [if_pos hlength, if_neg (by omega)]
    refine ⟨_, rfl, ?_, ?_, ?_, ?_⟩
    · rw [h.order, horder]
    · rw [List.append_nil]
    · rw [h.resolved, namesBefore_succ hp]
    · simp

theorem InOrder.loop (hcollected : Collected properties dependencies)
    (hplain : PlainNames properties) (hlist : InListOrder properties)
    (h : InOrder properties k s) (hk : k ≤ properties.length) (more : Nat) :
    resolveLoop properties dependencies (properties.length - k + 1 + more) s =
      .ok (List.range properties.length) := by
  obtain ⟨n, hn⟩ : ∃ n, n = properties.length - k := ⟨_, rfl⟩
  induction n generalizing k s with
  | zero =>
    obtain rfl : k = properties.length := by omega
    rw [Nat.sub_self, Nat.add_right_comm, resolveLoop, h.rest, Nat.sub_self]
    exact congrArg _ h.order
  | succ n ih =>
    have hlt : k < properties.length := by omega
    have hp : properties[k]? = some properties[k] := List.getElem?_eq_getElem hlt
    have hmem : properties[k] ∈ properties := List.getElem_mem hlt
    obtain ⟨names, hnames⟩ := (dependenciesOf_ok_iff hcollected hmem).mpr
      fun hproto => (hplain _ hmem hproto).1
    obtain ⟨s', hnext, h'⟩ := h.next hp hnames fun d hd hslash => by
      rw [h.resolved]
      exact hlist k _ hp d ⟨(mem_dependencies_iff hcollected hmem hnames).mp hd, hslash⟩
    have hfuel : properties.length - k + 1 + more =
        properties.length - (k + 1) + 1 + more + 1 := by
      omega
    rw [hfuel, resolveLoop, h.rest_cons hlt]
    dsimp only
    rw [hnext]
    exact ih h' (by omega) (by omega)

/-- A loop that puts no index in the order twice finds every property resolvable in the order of
the list: an index with a missing dependency is both in the order and still to be resolved. -/
theorem InOrder.of_nodup {fuel : Nat} {order : List Nat}
    (hcollected : Collected properties dependencies) (h : InOrder properties k s)
    (hloop : resolveLoop properties dependencies fuel s = .ok order) (hnodup : order.Nodup)
    {i : Nat} (hi : properties[i]? = some p) (hki : k ≤ i) :
    (p.name ∈ prototypeKeys → p.name ∈ lengthZero) ∧
      ∀ d, Needs properties p.name d → d ∈ namesBefore properties i := by
  induction fuel generalizing k s with
  | zero => cases hloop
  | succ fuel ih =>
    have hlt : k < properties.length := Nat.lt_of_le_of_lt hki (List.getElem?_eq_some_iff.mp hi).1
    rw [resolveLoop, h.rest_cons hlt] at hloop
    obtain ⟨s', hnext, hloop⟩ := bind_eq_ok.mp hloop
    obtain ⟨q, names, hq, hnames, horder, -, hagain⟩ := resolveNext_ok hnext
    have hmem : q ∈ properties := List.mem_of_getElem? hq
    have hresolved : ∀ d ∈ names, charAt0 d ≠ some '/' → d ∈ s.resolvedParameters := by
      by_contra hmissing
      push Not at hmissing
      obtain ⟨d, hd, hslash, hnot⟩ := hmissing
      obtain ⟨tail, rfl, htail⟩ := resolveLoop_grows hloop
      refine (List.nodup_append.mp hnodup).2.2 k ?_ k (htail (hagain ⟨d, hd, hnot, hslash⟩)) rfl
      rw [horder]
      simp
    obtain ⟨s'', hnext', h'⟩ := h.next hq hnames hresolved
    rw [hnext] at hnext'
    cases hnext'
    rcases Nat.eq_or_lt_of_le hki with rfl | hki
    · rw [hi] at hq
      cases hq
      refine ⟨(dependenciesOf_ok_iff hcollected hmem).mp ⟨names, hnames⟩, fun d hd => ?_⟩
      rw [← h.resolved]
      exact hresolved d ((mem_dependencies_iff hcollected hmem hnames).mpr hd.1) hd.2
    · exact ih h' hloop hki

end Loop

variable {properties : List INodeProperties}

theorem InListOrder.isResolveOrder (h : InListOrder properties) :
    IsResolveOrder properties (List.range properties.length) := by
  refine ⟨List.Perm.refl _, fun pre i post hsplit p hp d hd => ?_⟩
  have hpre : (List.range properties.length).take pre.length = pre := by
    rw [hsplit, List.take_left]
  have hindex : (List.range properties.length)[pre.length]? = some i := by
    rw [hsplit]
    simp
  obtain ⟨hlt, rfl⟩ : pre.length < properties.length ∧ pre.length = i := by
    simpa [List.getElem?_range', List.getElem?_eq_some_iff] using hindex
  obtain ⟨j, hj, q, hq, hname⟩ := mem_namesBefore_iff.mp (h _ p hp d hd)
  refine ⟨j, ?_, q, hq, hname⟩
  rw [← hpre, List.take_range, List.mem_range]
  omega

theorem inOrder_start (properties : List INodeProperties) :
    InOrder properties 0
      { executionOrder := []
        indexToResolve := List.range properties.length
        resolvedParameters := []
        lastIndexLength := properties.length
        lastIndexReduction := -1
        iterations := 0 } :=
  ⟨rfl, List.range_eq_range', rfl, Nat.le_refl _⟩

theorem resolveOrder_of_inListOrder (hplain : PlainNames properties)
    (hlist : InListOrder properties) (more : Nat) :
    resolveOrder (properties.length + 1 + more) properties =
      .ok (List.range properties.length) := by
  obtain ⟨hcollect, hcollected⟩ := getParameterDependencies_spec properties
  obtain ⟨dependencies, hdependencies⟩ := hcollect fun p hp hproto => (hplain p hp hproto).2
  rw [resolveOrder, hdependencies]
  exact (inOrder_start properties).loop (hcollected _ hdependencies) hplain hlist (Nat.zero_le _)
    more

/-- No index is put in the order twice only when the order of the list respects the
dependencies. -/
theorem inListOrder_of_nodup {fuel : Nat} {order : List Nat}
    (h : resolveOrder fuel properties = .ok order) (hnodup : order.Nodup) :
    PlainNames properties ∧ InListOrder properties := by
  obtain ⟨dependencies, hdependencies, hloop⟩ := bind_eq_ok.mp h
  have hcollected := (getParameterDependencies_spec properties).2 _ hdependencies
  have hall := fun i p (hi : properties[i]? = some p) =>
    (inOrder_start properties).of_nodup hcollected hloop hnodup hi (Nat.zero_le i)
  refine ⟨fun p hp hproto => ?_, fun i p hi => (hall i p hi).2⟩
  obtain ⟨i, hi⟩ := List.mem_iff_getElem?.mp hp
  exact ⟨(hall i p hi).1 hproto, hcollected.plain p hp hproto⟩

/-- The order is right, whenever there is one, exactly when that of the list is right and no
property has the name of an inherited property. -/
theorem resolve_order_iff (properties : List INodeProperties) :
    ((∃ order, IsResolveOrder properties order) →
      ∃ fuel order, (∀ more, resolveOrder (fuel + more) properties = .ok order) ∧
        IsResolveOrder properties order) ↔
    (¬ ∃ order, IsResolveOrder properties order) ∨
      PlainNames properties ∧ InListOrder properties := by
  constructor
  · intro h
    refine or_iff_not_imp_left.mpr fun hsatisfiable => ?_
    obtain ⟨fuel, order, hloop, horder⟩ := h (not_not.mp hsatisfiable)
    exact inListOrder_of_nodup (hloop 0) (horder.once.nodup_iff.mpr List.nodup_range)
  · rintro (hnone | ⟨hplain, hlist⟩) hsatisfiable
    · exact absurd hsatisfiable hnone
    · exact ⟨properties.length + 1, List.range properties.length,
        resolveOrder_of_inListOrder hplain hlist, hlist.isResolveOrder⟩

/-- Two properties of which the first is shown depending on the second. -/
def dependentFirst : List INodeProperties :=
  [{ name := "operation", displayOptions := some [["resource"]] }, { name := "resource" }]

/-- The first property is put in the order before the one that it depends on, and once more after
it, where resolving the second one first is right. -/
theorem dependent_resolved_twice :
    (∀ more, resolveOrder (4 + more) dependentFirst = .ok [0, 1, 0]) ∧
      IsResolveOrder dependentFirst [1, 0] ∧
      ¬ ∃ fuel order, (∀ more, resolveOrder (fuel + more) dependentFirst = .ok order) ∧
        IsResolveOrder dependentFirst order := by
  have hrun : ∀ more, resolveOrder (4 + more) dependentFirst = .ok [0, 1, 0] := by
    intro more
    rw [Nat.add_comm]
    rfl
  refine ⟨hrun, ⟨by decide, ?_⟩, fun ⟨fuel, order, hloop, horder⟩ => ?_⟩
  rotate_left
  · have heq := hrun fuel
    rw [Nat.add_comm, hloop] at heq
    cases heq
    exact absurd horder.once (by decide)
  · intro pre i post hsplit p hp d ⟨⟨⟨q, hq, hname, hd⟩, _⟩, _⟩
    match pre, hsplit with
    | [], hsplit =>
      cases hsplit
      cases hp
      rcases List.mem_pair.mp hq with rfl | rfl
      · exact absurd hname (by decide)
      · cases hd
    | [_], hsplit =>
      cases hsplit
      cases hp
      rcases List.mem_pair.mp hq with rfl | rfl
      · exact ⟨1, by decide, _, rfl, (List.mem_singleton.mp hd).symm⟩
      · cases hd
    | _ :: _ :: pre, hsplit => simp at hsplit

end N8n.ResolveOrder
