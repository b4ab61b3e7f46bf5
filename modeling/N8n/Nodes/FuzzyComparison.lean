import N8n.Collections.DeepEquality

/-!
# Fuzzy comparison

`fuzzyCompare` of `packages/nodes-base/utils/utilities.ts`: rules for pairs of values of different
types, the first of which that applies decides. `fuzzyCompare_comm`: the answer does not depend on
the order of the two values, since no rule depends on it.
-/

namespace N8n.FuzzyComparison

open Collections

/-- What the language and `lodash` do with values: `isEqual`, the value that `JSON.parse` reads, if
there is one, the text of a number, and `toLocaleLowerCase`. -/
structure Host where
  isEqual : PropertyTree → PropertyTree → Bool
  jsonParse : List Char → Option PropertyTree
  numberText : Rat → List Char
  toLocaleLowerCase : List Char → List Char

/-- The results of `typeof`. -/
inductive TypeName where
  | undefined
  | object
  | boolean
  | number
  | string
  deriving DecidableEq

def typeOf : PropertyTree → TypeName
  | .undefined => .undefined
  | .null | .array _ | .object _ => .object
  | .boolean _ => .boolean
  | .number _ => .number
  | .string _ => .string

def isNull : PropertyTree → Bool
  | .null => true
  | _ => false

def isUndefined : PropertyTree → Bool
  | .undefined => true
  | _ => false

/-- `value === 0 || value === '0'`. -/
def isZero : PropertyTree → Bool
  | .number value => decide (value = 0)
  | .string text => decide (text = ['0'])
  | _ => false

def isFalsy : PropertyTree → Bool
  | .null => true
  | .string text => text.isEmpty
  | .array items => items.isEmpty
  | _ => false

/-- The texts of a boolean value: its name, and its digit. -/
def booleanName : Bool → List Char
  | true => ['t', 'r', 'u', 'e']
  | false => ['f', 'a', 'l', 's', 'e']

def booleanDigit : Bool → List Char
  | true => ['1']
  | false => ['0']

/-- What a group of tests returns for two values, `none` when none of the tests holds. -/
abbrev Rule := PropertyTree → PropertyTree → Option Bool

/-- Both values are null, or one is null and the other one zero. -/
def nullAndZero : Rule := fun item1 item2 =>
  if isNull item1 && (isNull item2 || isZero item2) then some true
  else if isNull item2 && (isNull item1 || isZero item1) then some true
  else none

def bothFalsy : Rule := fun item1 item2 =>
  if isFalsy item1 && isFalsy item2 then some true else none

/-- A value is missing where the other one is falsy. -/
def missingAndFalsy : Rule := fun item1 item2 =>
  if isFalsy item1 && isUndefined item2 then some true
  else if isUndefined item1 && isFalsy item2 then some true
  else none

/-- Booleans and the numbers 0 and 1. -/
def booleanAndNumber : Rule
  | .boolean value, .number number | .number number, .boolean value =>
      if number = (if value then 1 else 0) then some true else none
  | _, _ => none

/-- Booleans and the texts of 0 and 1. -/
def booleanAndDigit : Rule
  | .boolean value, .string text | .string text, .boolean value =>
      if text = booleanDigit value then some true else none
  | _, _ => none

section Rules

variable (h : Host)

/-- Values of one type are compared strictly. -/
def sameType : Rule := fun item1 item2 =>
  if !isNull item1 && !isNull item2 && decide (typeOf item1 = typeOf item2) then
    some (h.isEqual item1 item2)
  else none

/-- Numbers and the texts of numbers. -/
def numberAndText : Rule
  | .number number, .string text => some (decide (h.numberText number = text))
  | .string text, .number number => some (decide (text = h.numberText number))
  | _, _ => none

/-- `parseStringAndCompareToObject(str, arr)`. -/
def parseStringAndCompareToObject (str : List Char) (arr : PropertyTree) : Bool :=
  match h.jsonParse str with
  | some parsedArray => h.isEqual parsedArray arr
  | none => false

/-- Objects and arrays, and their texts. -/
def objectAndText : Rule
  | .array items, .string text | .string text, .array items =>
      some (parseStringAndCompareToObject h text (.array items))
  | .object entries, .string text | .string text, .object entries =>
      some (parseStringAndCompareToObject h text (.object entries))
  | _, _ => none

/-- Booleans and their names, in any case. -/
def booleanAndName : Rule
  | .boolean value, .string text | .string text, .boolean value =>
      if h.toLocaleLowerCase text = booleanName value then some true else none
  | _, _ => none

/-- The tests of a fuzzy comparison in their order. -/
def rules (compareVersion : Nat) : List Rule :=
  sameType h :: (if 2 ≤ compareVersion then [nullAndZero] else []) ++
    [bothFalsy, missingAndFalsy, numberAndText h, objectAndText h, booleanAndName h,
      booleanAndNumber, booleanAndDigit]

/-- `fuzzyCompare(useFuzzyCompare, compareVersion)(item1, item2)`. -/
def fuzzyCompare (useFuzzyCompare : Bool) (compareVersion : Nat) (item1 item2 : PropertyTree) :
    Bool :=
  if useFuzzyCompare then
    ((rules h compareVersion).findSome? fun rule => rule item1 item2).getD (h.isEqual item1 item2)
  else h.isEqual item1 item2

end Rules

/-- The rule does not tell which value comes first. -/
def Rule.Commutes (rule : Rule) (item1 item2 : PropertyTree) : Prop :=
  rule item1 item2 = rule item2 item1

section Commutes

variable (item1 item2 : PropertyTree)

/-- Two tests of which the second one is the first one with the values exchanged. -/
theorem commutes_twins (test : PropertyTree → PropertyTree → Bool) :
    Rule.Commutes (fun item1 item2 =>
      if test item1 item2 then some true else if test item2 item1 then some true else none)
      item1 item2 := by
  show (if test item1 item2 then some true else if test item2 item1 then some true else none) =
    if test item2 item1 then some true else if test item1 item2 then some true else none
  cases test item1 item2 <;> cases test item2 item1 <;> rfl

theorem nullAndZero_commutes : nullAndZero.Commutes item1 item2 :=
  commutes_twins item1 item2 fun item1 item2 => isNull item1 && (isNull item2 || isZero item2)

theorem bothFalsy_commutes : bothFalsy.Commutes item1 item2 := by
  unfold Rule.Commutes bothFalsy
  rw [Bool.and_comm]

theorem missingAndFalsy_commutes : missingAndFalsy.Commutes item1 item2 := by
  have htwins : missingAndFalsy = fun item1 item2 =>
      if isFalsy item1 && isUndefined item2 then some true
      else if isFalsy item2 && isUndefined item1 then some true else none := by
    funext item1 item2
    rw [missingAndFalsy, Bool.and_comm (isUndefined item1)]
  rw [htwins]
  exact commutes_twins item1 item2 fun item1 item2 => isFalsy item1 && isUndefined item2

theorem booleanAndNumber_commutes : booleanAndNumber.Commutes item1 item2 := by
  cases item1 <;> cases item2 <;> rfl

theorem booleanAndDigit_commutes : booleanAndDigit.Commutes item1 item2 := by
  cases item1 <;> cases item2 <;> rfl

variable (h : Host)

theorem numberAndText_commutes : (numberAndText h).Commutes item1 item2 := by
  cases item1 with
  | number number =>
      cases item2 with
      | string text => exact congrArg some (decide_eq_decide.mpr eq_comm)
      | _ => rfl
  | string text =>
      cases item2 with
      | number number => exact congrArg some (decide_eq_decide.mpr eq_comm)
      | _ => rfl
  | _ => cases item2 <;> rfl

theorem objectAndText_commutes : (objectAndText h).Commutes item1 item2 := by
  cases item1 <;> cases item2 <;> rfl

theorem booleanAndName_commutes : (booleanAndName h).Commutes item1 item2 := by
  cases item1 <;> cases item2 <;> rfl

variable {item1 item2 h}

theorem sameType_commutes (hequal : h.isEqual item1 item2 = h.isEqual item2 item1) :
    (sameType h).Commutes item1 item2 := by
  unfold Rule.Commutes sameType
  rw [hequal, Bool.and_comm (!isNull item1), decide_eq_decide.mpr (eq_comm (a := typeOf item1))]

theorem rules_commute (hequal : h.isEqual item1 item2 = h.isEqual item2 item1)
    (compareVersion : Nat) : ∀ rule ∈ rules h compareVersion, rule.Commutes item1 item2 := by
  intro rule hrule
  have hcases : rule = sameType h ∨ rule = nullAndZero ∨ rule = bothFalsy ∨
      rule = missingAndFalsy ∨ rule = numberAndText h ∨ rule = objectAndText h ∨
      rule = booleanAndName h ∨ rule = booleanAndNumber ∨ rule = booleanAndDigit := by
    unfold rules at hrule
    split at hrule <;> simp at hrule <;> tauto
  obtain rfl | rfl | rfl | rfl | rfl | rfl | rfl | rfl | rfl := hcases
  · exact sameType_commutes hequal
  · exact nullAndZero_commutes item1 item2
  · exact bothFalsy_commutes item1 item2
  · exact missingAndFalsy_commutes item1 item2
  · exact numberAndText_commutes item1 item2 h
  · exact objectAndText_commutes item1 item2 h
  · exact booleanAndName_commutes item1 item2 h
  · exact booleanAndNumber_commutes item1 item2
  · exact booleanAndDigit_commutes item1 item2

theorem findSome_commutes {rules : List Rule} (h : ∀ rule ∈ rules, rule.Commutes item1 item2) :
    (rules.findSome? fun rule => rule item1 item2) =
      rules.findSome? fun rule => rule item2 item1 := by
  induction rules with
  | nil => rfl
  | cons rule rest ih =>
      obtain ⟨hrule, hrest⟩ := List.forall_mem_cons.mp h
      unfold Rule.Commutes at hrule
      rw [List.findSome?_cons, List.findSome?_cons, hrule, ih hrest]

end Commutes

/-- `isEqual` compares deeply, whatever the order of the keys. -/
def Host.ComparesDeeply (h : Host) : Prop :=
  ∀ value other : PropertyTree, value.WellFormed → other.WellFormed →
    (h.isEqual value other = true ↔ value.DeepEqual other)

/-- The comparison gives the same answer with its values exchanged. -/
theorem fuzzyCompare_comm {h : Host} (hdeep : h.ComparesDeeply) (useFuzzyCompare : Bool)
    (compareVersion : Nat) {item1 item2 : PropertyTree} (hitem1 : item1.WellFormed)
    (hitem2 : item2.WellFormed) :
    fuzzyCompare h useFuzzyCompare compareVersion item1 item2 =
      fuzzyCompare h useFuzzyCompare compareVersion item2 item1 := by
  have hequal : h.isEqual item1 item2 = h.isEqual item2 item1 := by
    rw [Bool.eq_iff_iff, hdeep item1 item2 hitem1 hitem2, hdeep item2 item1 hitem2 hitem1]
    exact ⟨PropertyTree.DeepEqual.symm, PropertyTree.DeepEqual.symm⟩
  unfold fuzzyCompare
  rw [findSome_commutes (rules_commute hequal compareVersion), hequal]

/-- A host for the values of one example. -/
def exampleHost : Host where
  isEqual := PropertyTree.deepEqual
  jsonParse text := if text = ['[', ']'] then some (.array []) else none
  numberText _ := ['1']
  toLocaleLowerCase text := text.map Char.toLower

/-- An empty array equals its text, whichever comes first. -/
theorem fuzzyCompare_comm_array :
    exampleHost.ComparesDeeply ∧
      fuzzyCompare exampleHost true 2 (.array []) (.string ['[', ']']) = true ∧
      fuzzyCompare exampleHost true 2 (.array []) (.string ['[', ']']) =
        fuzzyCompare exampleHost true 2 (.string ['[', ']']) (.array []) :=
  have hdeep : exampleHost.ComparesDeeply := PropertyTree.deepEqual_iff
  ⟨hdeep, rfl, fuzzyCompare_comm hdeep true 2 trivial trivial⟩

end N8n.FuzzyComparison
