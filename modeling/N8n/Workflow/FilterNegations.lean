import Mathlib.Logic.Basic
import N8n.Workflow.FilterParameter

/-!
# Negated filter operators

Most operators of a filter have a negation, and `executeFilterCondition` of
`packages/workflow/src/node-parameters/filter-parameter.ts` gives each of the two its own case.
-/

namespace N8n.FilterParameter

open Collections

variable {ν ω : Type} {h : Host ν ω}

/-- The operators with their negations, as they stand in the case of each type. -/
def negations : FilterOperatorType → List (String × String)
  | .string =>
    [("exists", "notExists"), ("empty", "notEmpty"), ("equals", "notEquals"),
      ("contains", "notContains"), ("startsWith", "notStartsWith"), ("endsWith", "notEndsWith"),
      ("regex", "notRegex")]
  | .number | .dateTime =>
    [("exists", "notExists"), ("empty", "notEmpty"), ("equals", "notEquals")]
  | .boolean =>
    [("exists", "notExists"), ("empty", "notEmpty"), ("true", "false"), ("equals", "notEquals")]
  | .array =>
    [("exists", "notExists"), ("empty", "notEmpty"), ("contains", "notContains"),
      ("lengthEquals", "lengthNotEquals")]
  | .object => [("exists", "notExists"), ("empty", "notEmpty")]
  | .any => [("exists", "notExists")]

/-- The condition with another operation of its operator. -/
def FilterConditionValue.withOperation (condition : FilterConditionValue ν ω) (operation : String) :
    FilterConditionValue ν ω :=
  { condition with operator := { condition.operator with operation := operation } }

/-- Exactly one of the operator of a condition and its negation yields true. -/
def Complementary (h : Host ν ω) (condition : FilterConditionValue ν ω)
    (options : FilterOptionsValue) (metadata : FilterConditionMetadata) (negation : String) :
    Prop :=
  Xor (executeFilterCondition h condition options metadata = .ok true)
    (executeFilterCondition h (condition.withOperation negation) options metadata = .ok true)

/-- A string can be searched for the value. -/
def searchable (h : Host ν ω) : Value ν ω → Bool
  | .undefined | .null | .string _ => true
  | value => (h.searchText value).isSome

/-- The values that an operator and its negation disagree about: a string has to be searched for
something that it can be searched for, a regular expression has to be one, and dates are compared
if there are two. -/
def Decided (h : Host ν ω) (type : FilterOperatorType) (operation : String)
    (left right : Value ν ω) : Prop :=
  match type with
  | .string =>
    (operation ∈ ["contains", "startsWith", "endsWith"] → searchable h right = true) ∧
      (operation = "regex" → ∃ test, parseRegexPattern h right = .ok test)
  | .dateTime =>
    operation = "equals" → truthy h left = true ∧ truthy h right = true ∧
      (∃ millis, millisOf h left = .ok millis) ∧ ∃ millis, millisOf h right = .ok millis
  | _ => True

section Parsed

/-- The value can stand on the left of an operator of texts. -/
def isText : Value ν ω → Bool
  | .undefined | .null | .string _ => true
  | _ => false

theorem accepted_left {condition : FilterConditionValue ν ω} {options : FilterOptionsValue}
    {metadata : FilterConditionMetadata} {left right : Value ν ω}
    (haccepted : parseFilterConditionValues h condition options metadata =
      .ok (.ok (left, right))) :
    left = (parseSingleFilterValue h condition.leftValue condition.operator.type
      (decide (options.typeValidation = .strict)) (options.version.getD 1)).getD .undefined := by
  rw [parseFilterConditionValues] at haccepted
  split at haccepted
  · split_ifs at haccepted <;> simp_all
  · simp at haccepted

theorem isText_parsed (value : Value ν ω) (strict : Bool) (version : Nat) :
    isText ((parseSingleFilterValue h value .string strict version).getD .undefined) = true := by
  have hparsed (parsed : Value ν ω) (hparse : tryToParseString h value = some parsed) :
      isText parsed = true := by
    unfold tryToParseString at hparse
    split at hparse
    · cases hparse; rfl
    · cases hparse; rfl
    · obtain ⟨text, -, rfl⟩ := Option.map_eq_some_iff.mp hparse; rfl
    · split_ifs at hparse
      · obtain ⟨text, -, rfl⟩ := Option.map_eq_some_iff.mp hparse
        cases text <;> rfl
      · obtain ⟨text, -, rfl⟩ := Option.map_eq_some_iff.mp hparse; rfl
    · obtain ⟨text, -, rfl⟩ := Option.map_eq_some_iff.mp hparse; rfl
  have hvalidated : isText ((validateFieldType h strict value .string).getD .undefined) = true := by
    rw [validateFieldType]
    split_ifs
    · rfl
    · cases hparse : tryToParseString h value with
      | none => rfl
      | some parsed => exact hparsed parsed hparse
  cases value <;> first | rfl | exact hvalidated

theorem itemsOf_parsed (value : Value ν ω) (strict : Bool) (version : Nat) :
    (itemsOf h ((parseSingleFilterValue h value .array strict version).getD .undefined)).isSome =
      true := by
  have harray (parsed : Value ν ω) (hparsed : isArray h parsed = true) :
      (itemsOf h parsed).isSome = true := by
    cases parsed with
    | object object => exact hparsed
    | _ => cases hparsed
  have hparsed (parsed : Value ν ω) (hparse : tryToParseArray h value = some parsed) :
      (itemsOf h parsed).isSome = true := by
    rw [tryToParseArray] at hparse
    split_ifs at hparse with hvalue
    · cases hparse
      exact harray value hvalue
    · obtain ⟨text, -, hfiltered⟩ := Option.bind_eq_some_iff.mp hparse
      exact harray parsed (Option.filter_eq_some_iff.mp hfiltered).2
  have hvalidated : (itemsOf h ((validateFieldType h strict value .array).getD
      .undefined)).isSome = true := by
    rw [validateFieldType]
    split_ifs
    · rfl
    · cases hparse : tryToParseArray h value with
      | none => rfl
      | some parsed => exact hparsed parsed hparse
  cases value <;> first | rfl | exact hvalidated

end Parsed

section Negated

theorem xor_negated {result : Except ScriptError Bool} :
    Xor (result = .ok true) (result.map not = .ok true) ↔ ∃ value, result = .ok value := by
  cases result with
  | error exception => simp [Xor, Except.map]
  | ok value => cases value <;> simp [Xor, Except.map]

variable {left : Value ν ω}

theorem charactersOf_ok (hleft : isText left = true) :
    ∃ characters, charactersOf (orEmpty left) = .ok characters := by
  cases left with
  | undefined => exact ⟨_, rfl⟩
  | null => exact ⟨_, rfl⟩
  | string text => exact ⟨_, rfl⟩
  | _ => cases hleft

variable {right : Value ν ω}

theorem searchFor_ok_iff :
    (∃ text, searchFor h (orEmpty right) = .ok text) ↔ searchable h right = true := by
  cases right with
  | undefined => exact ⟨fun _ => rfl, fun _ => ⟨_, rfl⟩⟩
  | null => exact ⟨fun _ => rfl, fun _ => ⟨_, rfl⟩⟩
  | string text => exact ⟨fun _ => rfl, fun _ => ⟨_, rfl⟩⟩
  | boolean value | number value | object value =>
    simp only [orEmpty, searchFor, searchable]
    generalize h.searchText _ = text
    cases text <;> simp

theorem parseRegexPattern_orEmpty (right : Value ν ω) :
    parseRegexPattern h (orEmpty right) = parseRegexPattern h right := by
  cases right <;> rfl

variable {operation negation : String}

theorem stringOperation_negated (left right : Value ν ω)
    (hpair : (operation, negation) ∈ negations .string) (hexists : operation ≠ "exists") :
    stringOperation h negation left right = (stringOperation h operation left right).map not := by
  simp only [negations, List.mem_cons, Prod.mk.injEq, List.not_mem_nil, or_false] at hpair
  unfold stringOperation
  cases charactersOf (orEmpty left) with
  | error exception => rfl
  | ok characters =>
    rcases hpair with ⟨rfl, rfl⟩ | ⟨rfl, rfl⟩ | ⟨rfl, rfl⟩ | ⟨rfl, rfl⟩ | ⟨rfl, rfl⟩ |
      ⟨rfl, rfl⟩ | ⟨rfl, rfl⟩
    · exact absurd rfl hexists
    · exact congrArg Except.ok (decide_not ..)
    · rfl
    · simp only [decide_not]
      exact (map_bind_pure _ _ _).symm
    · simp only [decide_not]
      exact (map_bind_pure _ _ _).symm
    · simp only [decide_not]
      exact (map_bind_pure _ _ _).symm
    · exact (map_bind_pure _ _ _).symm

/-- A text is compared with every value, is searched for what it can be searched for, and is tested
with a regular expression that is one. -/
theorem stringOperation_ok_iff (hpair : (operation, negation) ∈ negations .string)
    (hleft : isText left = true) :
    (∃ value, stringOperation h operation left right = .ok value) ↔
      Decided h .string operation left right := by
  simp only [negations, List.mem_cons, Prod.mk.injEq, List.not_mem_nil, or_false] at hpair
  obtain ⟨characters, hcharacters⟩ := charactersOf_ok hleft
  unfold stringOperation
  rw [hcharacters]
  rcases hpair with ⟨rfl, rfl⟩ | ⟨rfl, rfl⟩ | ⟨rfl, rfl⟩ | ⟨rfl, rfl⟩ | ⟨rfl, rfl⟩ | ⟨rfl, rfl⟩ |
    ⟨rfl, rfl⟩
  · simp [Decided, bind, Except.bind, pure, Except.pure]
  · simp [Decided, bind, Except.bind, pure, Except.pure]
  · simp [Decided, bind, Except.bind, pure, Except.pure]
  · refine (bind_pure_succeeds_iff.trans searchFor_ok_iff).trans ?_
    simp [Decided]
  · refine (bind_pure_succeeds_iff.trans searchFor_ok_iff).trans ?_
    simp [Decided]
  · refine (bind_pure_succeeds_iff.trans searchFor_ok_iff).trans ?_
    simp [Decided]
  · refine bind_pure_succeeds_iff.trans ?_
    simp [Decided, parseRegexPattern_orEmpty]

theorem stringCase_negated (ignoreCase : Bool) (left right : Value ν ω)
    (hpair : (operation, negation) ∈ negations .string) (hexists : operation ≠ "exists") :
    stringCase h ignoreCase negation left right =
      (stringCase h ignoreCase operation left right).map not := by
  have hregex : (negation = "regex" ∨ negation = "notRegex") ↔
      (operation = "regex" ∨ operation = "notRegex") := by
    simp only [negations, List.mem_cons, Prod.mk.injEq, List.not_mem_nil, or_false] at hpair
    rcases hpair with ⟨rfl, rfl⟩ | ⟨rfl, rfl⟩ | ⟨rfl, rfl⟩ | ⟨rfl, rfl⟩ | ⟨rfl, rfl⟩ | ⟨rfl, rfl⟩ |
      ⟨rfl, rfl⟩ <;> decide
  simp only [stringCase, hregex]
  split
  · exact stringOperation_negated _ _ hpair hexists
  · exact stringOperation_negated _ _ hpair hexists

variable {ignoreCase : Bool}

theorem stringCase_ok_iff (hpair : (operation, negation) ∈ negations .string)
    (hleft : isText left = true) :
    (∃ value, stringCase h ignoreCase operation left right = .ok value) ↔
      Decided h .string operation left right := by
  have hlower : isText (lowerCase h left) = true := by cases left <;> first | rfl | cases hleft
  have hsearchable : searchable h (lowerCase h right) = searchable h right := by cases right <;> rfl
  rw [stringCase]
  cases ignoreCase with
  | false => exact stringOperation_ok_iff hpair hleft
  | true =>
    refine (stringOperation_ok_iff hpair hlower).trans ?_
    simp only [Decided]
    by_cases hregex : operation = "regex"
    · simp [hregex]
    · split
      · rfl
      · simp [hregex, hsearchable]

theorem dateTimeCase_negated (hpair : (operation, negation) ∈ negations .dateTime)
    (hexists : operation ≠ "exists")
    (hgiven : operation = "equals" → truthy h left = true ∧ truthy h right = true) :
    dateTimeCase h ignoreCase negation left right =
      (dateTimeCase h ignoreCase operation left right).map not := by
  simp only [negations, List.mem_cons, Prod.mk.injEq, List.not_mem_nil, or_false] at hpair
  rcases hpair with ⟨rfl, rfl⟩ | ⟨rfl, rfl⟩ | ⟨rfl, rfl⟩
  · exact absurd rfl hexists
  · simp [dateTimeCase, Except.map]
  · obtain ⟨hleft, hright⟩ := hgiven rfl
    simp only [dateTimeCase, hleft, hright]
    cases millisOf h left with
    | error exception => rfl
    | ok leftMillis => exact (map_bind_pure _ _ _).symm

theorem dateTimeCase_ok_iff (hpair : (operation, negation) ∈ negations .dateTime)
    (hexists : operation ≠ "exists")
    (hgiven : operation = "equals" → truthy h left = true ∧ truthy h right = true) :
    (∃ value, dateTimeCase h ignoreCase operation left right = .ok value) ↔
      Decided h .dateTime operation left right := by
  simp only [negations, List.mem_cons, Prod.mk.injEq, List.not_mem_nil, or_false] at hpair
  rcases hpair with ⟨rfl, rfl⟩ | ⟨rfl, rfl⟩ | ⟨rfl, rfl⟩
  · exact absurd rfl hexists
  · simp [dateTimeCase, Decided]
  · obtain ⟨hleft, hright⟩ := hgiven rfl
    simp only [dateTimeCase, Decided, hleft, hright]
    cases millisOf h left with
    | error exception => simp [bind, Except.bind]
    | ok leftMillis =>
      refine bind_pure_succeeds_iff.trans ?_
      simp

theorem applyOperator_negated {type : FilterOperatorType}
    (hpair : (operation, negation) ∈ negations type)
    (hgiven : type = .dateTime → operation = "equals" →
      truthy h left = true ∧ truthy h right = true) :
    applyOperator h type ignoreCase negation left right =
      (applyOperator h type ignoreCase operation left right).map not := by
  by_cases hexists : operation = "exists"
  · have hnegation : negation = "notExists" := by
      subst hexists
      cases type <;> simpa [negations] using hpair
    simp [applyOperator, hexists, hnegation, Except.map]
  · have hcase : negation ≠ "exists" ∧ negation ≠ "notExists" ∧ operation ≠ "notExists" := by
      cases type <;> simp [negations] at hpair <;> grind
    simp only [applyOperator, hexists, hcase, if_false]
    cases type with
    | string => exact stringCase_negated ignoreCase left right hpair hexists
    | dateTime => exact dateTimeCase_negated hpair hexists (hgiven rfl)
    | number =>
      rcases (by simpa [negations, hexists] using hpair) with ⟨rfl, rfl⟩ | ⟨rfl, rfl⟩ <;>
        simp [numberCase, Except.map]
    | boolean =>
      rcases (by simpa [negations, hexists] using hpair) with
        ⟨rfl, rfl⟩ | ⟨rfl, rfl⟩ | ⟨rfl, rfl⟩ <;>
        simp [booleanCase, Except.map]
    | array =>
      rcases (by simpa [negations, hexists] using hpair) with
        ⟨rfl, rfl⟩ | ⟨rfl, rfl⟩ | ⟨rfl, rfl⟩ <;>
        simp [arrayCase, Except.map]
    | object =>
      obtain ⟨rfl, rfl⟩ := by simpa [negations, hexists] using hpair
      simp [objectCase, Except.map]
    | any => exact absurd hpair (by simp [negations, hexists])

theorem applyOperator_ok_iff {type : FilterOperatorType}
    (hpair : (operation, negation) ∈ negations type) (htext : type = .string → isText left = true)
    (harray : type = .array → (itemsOf h left).isSome = true)
    (hgiven : type = .dateTime → operation = "equals" →
      truthy h left = true ∧ truthy h right = true) :
    (∃ value, applyOperator h type ignoreCase operation left right = .ok value) ↔
      Decided h type operation left right := by
  by_cases hexists : operation = "exists"
  · cases type <;> simp [applyOperator, hexists, Decided]
  · have hcase : operation ≠ "notExists" := by
      cases type <;> simp [negations] at hpair <;> grind
    simp only [applyOperator, hexists, hcase, if_false]
    cases type with
    | string => exact stringCase_ok_iff hpair (htext rfl)
    | dateTime => exact dateTimeCase_ok_iff hpair hexists (hgiven rfl)
    | number =>
      rcases (by simpa [negations, hexists] using hpair) with ⟨rfl, rfl⟩ | ⟨rfl, rfl⟩ <;>
        simp [numberCase, Decided]
    | boolean =>
      rcases (by simpa [negations, hexists] using hpair) with
        ⟨rfl, rfl⟩ | ⟨rfl, rfl⟩ | ⟨rfl, rfl⟩ <;>
        simp [booleanCase, Decided]
    | array =>
      obtain ⟨items, hitems⟩ := Option.isSome_iff_exists.mp (harray rfl)
      have hcontains : ∃ value, arrayContainsValue h left right ignoreCase = .ok value := by
        simp only [arrayContainsValue, hitems]
        split <;> exact ⟨_, rfl⟩
      rcases (by simpa [negations, hexists] using hpair) with
        ⟨rfl, rfl⟩ | ⟨rfl, rfl⟩ | ⟨rfl, rfl⟩
      · simp [arrayCase, Decided]
      · exact iff_of_true hcontains trivial
      · simp [arrayCase, Decided]
    | object =>
      obtain ⟨rfl, rfl⟩ := by simpa [negations, hexists] using hpair
      simp [objectCase, Decided]
    | any => exact absurd hpair (by simp [negations, hexists])

theorem missing_date {operation : String} {ignoreCase : Bool} {left right : Value ν ω}
    (hoperation : operation = "equals" ∨ operation = "notEquals")
    (hmissing : ¬ (truthy h left = true ∧ truthy h right = true)) :
    applyOperator h .dateTime ignoreCase operation left right = .ok false := by
  have hguard : truthy h left = false ∨ truthy h right = false := by
    cases hleft : truthy h left with
    | false => exact .inl rfl
    | true => exact .inr (by simpa [hleft] using hmissing)
  rcases hoperation with rfl | rfl <;> simp [applyOperator, dateTimeCase, hguard]

end Negated

section Complements

theorem execute_accepted {condition : FilterConditionValue ν ω} {options : FilterOptionsValue}
    {metadata : FilterConditionMetadata} {left right : Value ν ω}
    (haccepted : parseFilterConditionValues h condition options metadata =
      .ok (.ok (left, right))) :
    executeFilterCondition h condition options metadata = .ok true ↔
      applyOperator h condition.operator.type (!options.caseSensitive)
        condition.operator.operation left right = .ok true := by
  rw [executeFilterCondition, haccepted]
  change Except.mapError _ (applyOperator ..) = _ ↔ _
  cases applyOperator h condition.operator.type (!options.caseSensitive)
    condition.operator.operation left right <;> simp [Except.mapError]

/-- Exactly one of an operator and its negation yields true exactly for the values that the two
disagree about. -/
theorem complementary_iff {condition : FilterConditionValue ν ω} {options : FilterOptionsValue}
    {metadata : FilterConditionMetadata} {negation : String} {left right : Value ν ω}
    (hpair : (condition.operator.operation, negation) ∈ negations condition.operator.type)
    (haccepted : parseFilterConditionValues h condition options metadata =
      .ok (.ok (left, right))) :
    Complementary h condition options metadata negation ↔
      Decided h condition.operator.type condition.operator.operation left right := by
  have hnegation : parseFilterConditionValues h (condition.withOperation negation) options
      metadata = .ok (.ok (left, right)) := haccepted
  rw [Complementary, execute_accepted haccepted, execute_accepted hnegation]
  change Xor _ (applyOperator h condition.operator.type _ negation left right = _) ↔ _
  have hleft := accepted_left haccepted
  generalize condition.operator.operation = operation at hpair ⊢
  generalize condition.operator.type = type at hpair hleft ⊢
  by_cases hgiven : type = .dateTime → operation = "equals" →
      truthy h left = true ∧ truthy h right = true
  · rw [applyOperator_negated hpair hgiven, xor_negated]
    refine applyOperator_ok_iff hpair ?_ ?_ hgiven
    · rintro rfl
      exact hleft ▸ isText_parsed _ _ _
    · rintro rfl
      exact hleft ▸ itemsOf_parsed _ _ _
  · obtain ⟨rfl, rfl, hmissing⟩ : type = .dateTime ∧ operation = "equals" ∧
        ¬ (truthy h left = true ∧ truthy h right = true) := by simpa using hgiven
    have hnot : ¬ Decided h .dateTime "equals" left right :=
      fun hdecided => hmissing ⟨(hdecided rfl).1, (hdecided rfl).2.1⟩
    obtain rfl : negation = "notEquals" := by simpa [negations] using hpair
    rw [missing_date (Or.inl rfl) hmissing, missing_date (Or.inr rfl) hmissing]
    simpa [Xor] using hnot

/-- A text is searched in a missing one. -/
def searchCondition : FilterConditionValue (Option Nat) Nat where
  leftValue := .null
  operator := { type := .string, operation := "contains" }
  rightValue := .string "a"

/-- A missing text does not contain the other one. -/
theorem missing_text_complementary :
    Complementary dateHost searchCondition looseOptions { } "notContains" := by
  have haccepted : parseFilterConditionValues dateHost searchCondition looseOptions { } =
      .ok (.ok (.null, .string "a")) := rfl
  refine (complementary_iff (by decide) haccepted).mpr ⟨fun _ => rfl, fun hregex => ?_⟩
  exact absurd hregex (by decide)

/-- A missing date is compared with a date. -/
def missingDateCondition : FilterConditionValue (Option Nat) Nat where
  leftValue := .null
  operator := { type := .dateTime, operation := "equals" }
  rightValue := .object 5

/-- A missing date neither equals the other one nor does it not. -/
theorem missing_date_undecided :
    ("equals", "notEquals") ∈ negations .dateTime ∧
    parseFilterConditionValues dateHost missingDateCondition looseOptions { } =
      .ok (.ok (.null, .object 5)) ∧
    executeFilterCondition dateHost missingDateCondition looseOptions { } = .ok false ∧
    executeFilterCondition dateHost (missingDateCondition.withOperation "notEquals") looseOptions
      { } = .ok false ∧
    ¬ Complementary dateHost missingDateCondition looseOptions { } "notEquals" := by
  have hequals : executeFilterCondition dateHost missingDateCondition looseOptions { } =
      .ok false := by decide +kernel
  have hnotEquals : executeFilterCondition dateHost
      (missingDateCondition.withOperation "notEquals") looseOptions { } = .ok false := by
    decide +kernel
  refine ⟨by decide, by decide +kernel, hequals, hnotEquals, ?_⟩
  rw [Complementary, hequals, hnotEquals]
  simp [Xor]

end Complements

end N8n.FilterParameter
