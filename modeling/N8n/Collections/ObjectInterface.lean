import N8n.Collections.ObjectProperties

/-!
# Programs on objects

What a program can do with objects, however they are implemented: an implementation answers reads,
writes, deletes, membership tests and enumerations, and a program holds the values it has read or
made in variables. Two implementations whose steps simulate each other show the same to every
sequence of operations. Since the sequences are arbitrary, this covers programs that depend on what
they have observed, such as the array methods.
-/

namespace N8n.Collections

/-- An implementation of objects with memories in `μ` and references in `ρ`. -/
structure ObjectInterface (μ ρ : Type) where
  literal : μ → PropertyTree → HeapValue ρ × μ
  isArray : μ → ρ → Bool
  get : μ → ρ → PropertyKey → HeapValue ρ × μ
  set : μ → ρ → PropertyKey → HeapValue ρ → μ
  delete : μ → ρ → PropertyKey → Bool × μ
  has : μ → ρ → PropertyKey → Bool
  hasOwn : μ → ρ → PropertyKey → Bool
  keys : μ → ρ → List PropertyKey

/-- What a write assigns: the value of a variable, or new data. -/
inductive Operand where
  | held (i : Nat)
  | literal (tree : PropertyTree)

/-- An operation on the value of a variable. What is read or made is held in a new variable. -/
inductive Operation where
  | get (i : Nat) (key : PropertyKey)
  | set (i : Nat) (key : PropertyKey) (operand : Operand)
  | delete (i : Nat) (key : PropertyKey)
  | has (i : Nat) (key : PropertyKey)
  | hasOwn (i : Nat) (key : PropertyKey)
  | keys (i : Nat)
  | isArray (i : Nat)
  | same (i j : Nat)
  | literal (tree : PropertyTree)

/-- What an operation shows. Which object a value is can be seen by comparing it. -/
inductive Observation where
  | done
  | value (value : HeapValue Unit)
  | truth (value : Bool)
  | keys (keys : Finset PropertyKey)
  deriving DecidableEq

/-- A memory and the variables of a program. -/
structure Session (μ ρ : Type) where
  memory : μ
  values : List (HeapValue ρ)

/-- The key `__proto__`, whose reads and writes concern the prototype. -/
def protoKey : PropertyKey := .name "__proto__".toList

variable {μ ρ μ' ρ' : Type}

/-- The object or array that a variable holds. -/
def Session.object (s : Session μ ρ) (i : Nat) : Option ρ :=
  match s.values[i]? with
  | some (.object ref) => some ref
  | _ => none

namespace ObjectInterface

/-- The value of an operand. Built-in functions are not written. -/
def evaluate (I : ObjectInterface μ ρ) (s : Session μ ρ) : Operand → Option (HeapValue ρ × μ)
  | .held i =>
    match s.values[i]? with
    | some (.intrinsic _ _) => none
    | some value => some (value, s.memory)
    | none => none
  | .literal tree => some (I.literal s.memory tree)

/-- One operation. Reads and writes of `__proto__`, and operations on values without properties, are
not among the operations. -/
def step [DecidableEq ρ] (I : ObjectInterface μ ρ) (s : Session μ ρ) :
    Operation → Option (Observation × Session μ ρ)
  | .get i key =>
    if key = protoKey then none
    else (s.object i).map fun ref =>
      let result := I.get s.memory ref key
      (.value (result.1.map fun _ => ()),
        { memory := result.2, values := s.values ++ [result.1] })
  | .set i key operand =>
    if key = protoKey then none
    else (s.object i).bind fun ref =>
      (I.evaluate s operand).map fun value =>
        (.done, { s with memory := I.set value.2 ref key value.1 })
  | .delete i key =>
    (s.object i).map fun ref =>
      let result := I.delete s.memory ref key
      (.truth result.1, { s with memory := result.2 })
  | .has i key => (s.object i).map fun ref => (.truth (I.has s.memory ref key), s)
  | .hasOwn i key => (s.object i).map fun ref => (.truth (I.hasOwn s.memory ref key), s)
  | .keys i => (s.object i).map fun ref => (.keys (I.keys s.memory ref).toFinset, s)
  | .isArray i => (s.object i).map fun ref => (.truth (I.isArray s.memory ref), s)
  | .same i j =>
    s.values[i]?.bind fun value =>
      s.values[j]?.map fun other => (.truth (decide (value = other)), s)
  | .literal tree =>
    let result := I.literal s.memory tree
    some (.value (result.1.map fun _ => ()),
      { memory := result.2, values := s.values ++ [result.1] })

/-- A sequence of operations. -/
def run [DecidableEq ρ] (I : ObjectInterface μ ρ) (s : Session μ ρ) :
    List Operation → Option (List Observation × Session μ ρ)
  | [] => some ([], s)
  | operation :: rest =>
    (I.step s operation).bind fun result =>
      (I.run result.2 rest).map fun results => (result.1 :: results.1, results.2)

/-- Each operation of a sequence is allowed where it is made. -/
def allAllowed [DecidableEq ρ] (I : ObjectInterface μ ρ)
    (allowed : Session μ ρ → Operation → Bool) (s : Session μ ρ) : List Operation → Bool
  | [] => true
  | operation :: rest =>
    allowed s operation &&
      match I.step s operation with
      | some result => I.allAllowed allowed result.2 rest
      | none => true

/-- The same observation, and related sessions after it. -/
def Agree {α : Type} (Sim : Session μ ρ → Session μ' ρ' → Prop) (result : α × Session μ ρ)
    (result' : α × Session μ' ρ') : Prop :=
  result.1 = result'.1 ∧ Sim result.2 result'.2

/-- Two implementations, one of which simulates the other in allowed operations, show the same to
sequences of these. -/
theorem run_agree [DecidableEq ρ] [DecidableEq ρ'] {I : ObjectInterface μ ρ}
    {J : ObjectInterface μ' ρ'} {Sim : Session μ ρ → Session μ' ρ' → Prop}
    {allowed : Session μ ρ → Operation → Bool}
    (hstep : ∀ s t operation, Sim s t → allowed s operation = true →
      Option.Rel (Agree Sim) (I.step s operation) (J.step t operation))
    (operations : List Operation) {s : Session μ ρ} {t : Session μ' ρ'} (h : Sim s t)
    (hallowed : I.allAllowed allowed s operations = true) :
    Option.Rel (Agree Sim) (I.run s operations) (J.run t operations) := by
  induction operations generalizing s t with
  | nil => exact .some ⟨rfl, h⟩
  | cons operation rest ih =>
    rw [allAllowed, Bool.and_eq_true] at hallowed
    obtain ⟨hoperation, hrest⟩ := hallowed
    have hfirst := hstep s t operation h hoperation
    rw [run, run]
    generalize I.step s operation = result at hfirst hrest
    generalize J.step t operation = result' at hfirst
    cases hfirst with
    | none => exact .none
    | some hagree =>
      have hothers := ih hagree.2 hrest
      simp only [Option.bind_some]
      generalize I.run _ rest = results at hothers
      generalize J.run _ rest = results' at hothers
      cases hothers with
      | none => exact .none
      | some hagrees =>
        exact .some ⟨congrArg₂ List.cons hagree.1 hagrees.1, hagrees.2⟩

theorem observations_eq {Sim : Session μ ρ → Session μ' ρ' → Prop}
    {results : Option (List Observation × Session μ ρ)}
    {results' : Option (List Observation × Session μ' ρ')}
    (h : Option.Rel (Agree Sim) results results') :
    results.map Prod.fst = results'.map Prod.fst := by
  cases h with
  | none => rfl
  | some h => exact congrArg some h.1

end ObjectInterface

end N8n.Collections
