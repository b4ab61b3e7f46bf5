import Mathlib.Data.List.Infix
import N8n.Collections.Fallible
import N8n.Collections.InsertionMap

/-!
# Filter parameters

The conditions of a filter, after `packages/workflow/src/node-parameters/filter-parameter.ts`: their
values are parsed for the type of the operator, which is `validateFieldType` of
`packages/workflow/src/type-validation.ts`, and the operator is applied to what was parsed. What
the language and `luxon` do with numbers, dates and other objects is a parameter.
-/

namespace N8n.FilterParameter

open Collections

/-- A JavaScript value. Numbers are of some type, and so are objects, with everything else that is
no primitive value below. -/
inductive Value (ν ω : Type) where
  | undefined
  | null
  | boolean (value : Bool)
  | number (value : ν)
  | string (text : String)
  | object (value : ω)
  deriving DecidableEq

/-- The types that an operator can have. -/
inductive FilterOperatorType where
  | string
  | number
  | boolean
  | array
  | object
  | dateTime
  | any
  deriving DecidableEq

/-- The comparisons of two values. -/
inductive Comparison where
  | greater
  | less
  | greaterOrEqual
  | lessOrEqual

/-- What the language and its libraries do with values. An operation that throws gives `none`. -/
structure Host (ν ω : Type) where
  isNaN : ν → Bool
  /-- `===` of two numbers. -/
  sameNumber : ν → ν → Bool
  truthyNumber : ν → Bool
  natural : Nat → ν
  /-- `===` of two objects. -/
  sameObject : ω → ω → Bool
  truthyObject : ω → Bool
  typeofObject : ω → String
  /-- The items of an array, none for other objects. -/
  items : ω → Option (List (Value ν ω))
  /-- The property `length` of an object. -/
  lengthProperty : ω → Value ν ω
  /-- `Object.keys(value).length`. -/
  keyCount : ω → Nat
  compare : Comparison → Value ν ω → Value ν ω → Option Bool
  /-- `Number(value)`. -/
  toNumber : Value ν ω → Option ν
  /-- `String(value)`. -/
  toText : Value ν ω → Option String
  /-- The text that a string is searched for, for a value that is no string. -/
  searchText : Value ν ω → Option String
  /-- `JSON.stringify(value)`, a text or `undefined`. -/
  stringify : ω → Option (Option String)
  /-- `JSON.parse(text)`. -/
  parseJSON : String → Option (Value ν ω)
  /-- `parseJSObject(text)`. -/
  parseJSObject : String → Option (Value ν ω)
  toLowerCase : String → String
  toLocaleLowerCase : String → String
  trim : String → String
  /-- `DateTime.isDateTime(value) && value.isValid`. -/
  isDateTime : ω → Bool
  /-- `DateTime.fromJSDate(value)`, if the object is a `Date` and the result is valid. -/
  fromJSDate : ω → Option ω
  /-- `DateTime.fromISO`, `fromHTTP`, `fromRFC2822` and `fromSQL`, and `fromMillis` after
  `Date.parse`, where the result is valid. -/
  dateTimeFormats : List (String → Option ω)
  /-- `value.toMillis()`. -/
  toMillis : ω → Option ν
  /-- The test of `new RegExp(pattern, flags)`. -/
  regExp : String → String → Option (String → Bool)

variable {ν ω : Type} (h : Host ν ω)

section Values

/-- `typeof value`. -/
def typeOf : Value ν ω → String
  | .undefined => "undefined"
  | .null => "object"
  | .boolean _ => "boolean"
  | .number _ => "number"
  | .string _ => "string"
  | .object value => h.typeofObject value

/-- Is the value truthy? -/
def truthy : Value ν ω → Bool
  | .undefined | .null => false
  | .boolean value => value
  | .number value => h.truthyNumber value
  | .string text => text ≠ ""
  | .object value => h.truthyObject value

/-- `left === right`. -/
def strictEquals : Value ν ω → Value ν ω → Bool
  | .undefined, .undefined => true
  | .null, .null => true
  | .boolean left, .boolean right => left = right
  | .number left, .number right => h.sameNumber left right
  | .string left, .string right => left = right
  | .object left, .object right => h.sameObject left right
  | _, _ => false

/-- The equality of `array.includes`, for which `NaN` is the same as itself. -/
def sameValueZero : Value ν ω → Value ν ω → Bool
  | .number left, .number right => h.sameNumber left right || (h.isNaN left && h.isNaN right)
  | left, right => strictEquals h left right

end Values

section Parsing

/-- `tryToParseString(value)`. -/
def tryToParseString (value : Value ν ω) : Option (Value ν ω) :=
  match value with
  | .undefined => some (.string "")
  | .string text => some (.string text)
  | .null => (h.toText value).map .string
  | .object object =>
    if h.typeofObject object = "object" then
      (h.stringify object).map fun text => text.elim .undefined .string
    else (h.toText value).map .string
  | _ => (h.toText value).map .string

/-- `tryToParseNumber(value)`. -/
def tryToParseNumber (value : Value ν ω) : Option (Value ν ω) :=
  ((h.toNumber value).filter fun number => !h.isNaN number).map .number

/-- The part of `tryToParseBoolean` that parses the value to a number. -/
def tryToParseBit (value : Value ν ω) : Option (Value ν ω) := do
  let number ← h.toNumber value
  if h.sameNumber number (h.natural 0) then return .boolean false
  if h.sameNumber number (h.natural 1) then return .boolean true
  none

/-- `tryToParseBoolean(value)`. -/
def tryToParseBoolean (value : Value ν ω) : Option (Value ν ω) :=
  match value with
  | .boolean value => some (.boolean value)
  | .string text =>
    if h.toLowerCase text = "true" then some (.boolean true)
    else if h.toLowerCase text = "false" then some (.boolean false)
    else if h.trim text = "" then none
    else tryToParseBit h value
  | _ => tryToParseBit h value

/-- The part of `tryToParseDateTime` that parses the text of the value. -/
def tryToParseDate (value : Value ν ω) : Option (Value ν ω) := do
  let text ← h.toText value
  (h.dateTimeFormats.findSome? fun format => format (h.trim text)).map .object

/-- `tryToParseDateTime(value)`. -/
def tryToParseDateTime (value : Value ν ω) : Option (Value ν ω) :=
  match value with
  | .object object =>
    if h.isDateTime object then some value
    else match h.fromJSDate object with
      | some dateTime => some (.object dateTime)
      | none => tryToParseDate h value
  | _ => tryToParseDate h value

/-- `Array.isArray(value)`. -/
def isArray : Value ν ω → Bool
  | .object value => (h.items value).isSome
  | _ => false

/-- `text.replace(/'/g, '"')`. -/
def replaceQuotes (text : String) : String :=
  .ofList (text.toList.map fun c => if c = '\'' then '"' else c)

/-- `tryToParseArray(value)`. -/
def tryToParseArray (value : Value ν ω) : Option (Value ν ω) :=
  if isArray h value then some value
  else do
    let text ← h.toText value
    ((h.parseJSON text).or (h.parseJSON (replaceQuotes text))).filter (isArray h)

/-- `tryToParseObject(value)`. The text `null` is parsed to `null`, whose type is `object`. -/
def tryToParseObject (value : Value ν ω) : Option (Value ν ω) :=
  if truthy h value ∧ typeOf h value = "object" ∧ isArray h value = false then some value
  else do
    let text ← h.toText value
    ((h.parseJSON text).or (h.parseJSObject text)).filter fun parsed =>
      typeOf h parsed = "object" ∧ isArray h parsed = false

/-- `isObject(value)` of `lodash`. -/
def isObject (value : Value ν ω) : Bool :=
  match value with
  | .object object => h.typeofObject object = "object" ∨ h.typeofObject object = "function"
  | _ => false

/-- `validateFieldType('filter', value, type, { strict, parseStrings: true })` for a value that is
neither `null` nor `undefined`: the new value, if the value is valid. -/
def validateFieldType (strict : Bool) (value : Value ν ω) :
    FilterOperatorType → Option (Value ν ω)
  | .string => if strict ∧ typeOf h value ≠ "string" then none else tryToParseString h value
  | .number => if strict ∧ typeOf h value ≠ "number" then none else tryToParseNumber h value
  | .boolean => if strict ∧ typeOf h value ≠ "boolean" then none else tryToParseBoolean h value
  | .dateTime => tryToParseDateTime h value
  | .object => if strict ∧ isObject h value = false then none else tryToParseObject h value
  | .array => if strict ∧ isArray h value = false then none else tryToParseArray h value
  | .any => some value

/-- `Number.isNaN(value)`. -/
def isNaN : Value ν ω → Bool
  | .number value => h.isNaN value
  | _ => false

/-- `parseSingleFilterValue(value, type, strict, version)`: the new value, if the value is valid. -/
def parseSingleFilterValue (value : Value ν ω) (type : FilterOperatorType) (strict : Bool)
    (version : Nat) : Option (Value ν ω) :=
  if type = .any then some value
  else match value with
    | .undefined | .null => some value
    | _ =>
      if type = .boolean ∧ strict = false then
        match (if 2 ≤ version then validateFieldType h false value .boolean else none) with
        | some newValue => some newValue
        | none => some (.boolean (truthy h value))
      else if type = .number ∧ isNaN h value then some value
      else validateFieldType h strict value type

end Parsing

/-- The strictness of the types. -/
inductive TypeValidation where
  | strict
  | loose
  deriving DecidableEq

/-- How the place of an error is given. -/
inductive ErrorFormat where
  | full
  | inline
  deriving DecidableEq

structure FilterOperatorValue where
  type : FilterOperatorType
  operation : String
  rightType : Option FilterOperatorType := none
  singleValue : Bool := false

structure FilterConditionValue (ν ω : Type) where
  leftValue : Value ν ω
  operator : FilterOperatorValue
  rightValue : Value ν ω

structure FilterOptionsValue where
  caseSensitive : Bool
  typeValidation : TypeValidation
  version : Option Nat := none

/-- The conditions of a filter with their options. -/
structure FilterValue (ν ω : Type) where
  options : FilterOptionsValue
  conditions : List (FilterConditionValue ν ω)

structure FilterConditionMetadata where
  index : Option Nat := none
  itemIndex : Option Nat := none
  unresolvedExpressions : Bool := false
  errorFormat : Option ErrorFormat := none

/-- A `FilterError`. -/
structure FilterError where
  message : String
  description : String
  deriving DecidableEq

/-- The errors of the language. -/
inductive ScriptError where
  | typeError
  | syntaxError
  deriving DecidableEq

/-- What the evaluation of a condition can throw. -/
inductive FilterException where
  | filterError (error : FilterError)
  | scriptError (error : ScriptError)
  deriving DecidableEq

section Conditions

/-- The string that stands for an operator type. -/
def FilterOperatorType.toString : FilterOperatorType → String
  | string => "string"
  | number => "number"
  | boolean => "boolean"
  | array => "array"
  | object => "object"
  | dateTime => "dateTime"
  | any => "any"

/-- `withIndefiniteArticle(noun)`. -/
def withIndefiniteArticle (noun : String) : String :=
  let article := match noun.toList with
    | [] => "an"
    | c :: _ => if c ∈ ['a', 'e', 'i', 'o', 'u'] then "an" else "a"
  article ++ " " ++ noun

/-- `getTypeDescription(isStrict)`. -/
def getTypeDescription (isStrict : Bool) : String :=
  if isStrict then "Try changing the type of comparison. Alternatively you can enable " ++
    "'Convert types where required'."
  else "Try changing the type of the comparison."

/-- `composeInvalidTypeMessage(type, fromType, value)`. -/
def composeInvalidTypeMessage (strict : Bool) (suffix type fromType value : String) : String :=
  let fromType := h.toLocaleLowerCase fromType
  if strict then
    "Wrong type: '" ++ value ++ "' is " ++ withIndefiniteArticle fromType ++
      " but was expecting " ++ withIndefiniteArticle type ++ " " ++ suffix
  else
    "Conversion error: the " ++ fromType ++ " '" ++ value ++ "' can't be converted to " ++
      withIndefiniteArticle type ++ " " ++ suffix

/-- `composeInvalidTypeDescription(type, fromType, valuePosition)`. -/
def composeInvalidTypeDescription (strict : Bool) (type : FilterOperatorType)
    (valuePosition : String) : String :=
  let convertionFunction := match type with
    | .string => ".toString()"
    | .number => ".toNumber()"
    | .boolean => ".toBoolean()"
    | _ => ""
  if strict ∧ convertionFunction ≠ "" then
    "\n<p>Try either:</p>\n<ol>\n  <li>Enabling 'Convert types where required'</li>\n" ++
      "  <li>Converting the " ++ valuePosition ++ " field to " ++
      withIndefiniteArticle type.toString ++ " by adding <code>" ++ convertionFunction ++
      "</code></li>\n</ol>\n\t\t\t"
  else getTypeDescription strict

/-- The value is an expression that is still to be resolved. -/
def isUnresolved (metadata : FilterConditionMetadata) (value : Value ν ω) : Bool :=
  match value with
  | .string text => metadata.unresolvedExpressions && "=".toList.isPrefixOf text.toList
  | _ => false

/-- `parseFilterConditionValues(condition, options, metadata)`: the parsed values, or the error that
is returned with `ok: false`. -/
def parseFilterConditionValues (condition : FilterConditionValue ν ω) (options : FilterOptionsValue)
    (metadata : FilterConditionMetadata) :
    Except FilterException (Except FilterError (Value ν ω × Value ν ω)) :=
  let index := metadata.index.getD 0
  let itemIndex := metadata.itemIndex.getD 0
  let strict : Bool := options.typeValidation = .strict
  let version := options.version.getD 1
  let operator := condition.operator
  let rightType := operator.rightType.getD operator.type
  let parsedLeft := parseSingleFilterValue h condition.leftValue operator.type strict version
  let parsedRight := parseSingleFilterValue h condition.rightValue rightType strict version
  let leftValid := parsedLeft.isSome || isUnresolved metadata condition.leftValue
  let rightValid := parsedRight.isSome || operator.singleValue ||
    isUnresolved metadata condition.rightValue
  let leftType := typeOf h condition.leftValue
  let rightValueType := typeOf h condition.rightValue
  match h.toText condition.leftValue, h.toText condition.rightValue with
  | some leftValueString, some rightValueString =>
    let suffix := if metadata.errorFormat.getD .full = .full then
        "[condition " ++ toString index ++ ", item " ++ toString itemIndex ++ "]"
      else "[item " ++ toString itemIndex ++ "]"
    if leftValid = false ∧ rightValid = false ∧ leftType = rightValueType then
      .ok (.error
        { message := "Comparison type expects " ++
            withIndefiniteArticle operator.type.toString ++ " but both fields are " ++
            withIndefiniteArticle leftType
          description := getTypeDescription strict })
    else if leftValid = false then
      .ok (.error
        { message := composeInvalidTypeMessage h strict suffix operator.type.toString leftType
            leftValueString
          description := composeInvalidTypeDescription strict operator.type "first" })
    else if rightValid = false then
      .ok (.error
        { message := composeInvalidTypeMessage h strict suffix rightType.toString rightValueType
            rightValueString
          description := composeInvalidTypeDescription strict rightType "second" })
    else .ok (.ok (parsedLeft.getD .undefined, parsedRight.getD .undefined))
  | _, _ => .error (.scriptError .typeError)

end Conditions

section Operators

/-- The characters that `.` in a regular expression does not match. -/
def isLineTerminator (c : Char) : Bool :=
  c = '\n' || c = '\r' || c = Char.ofNat 0x2028 || c = Char.ofNat 0x2029

/-- The match of `^/(.*?)/([gimusy]*)$`: the pattern between the slashes, and the flags. -/
def regexMatch (pattern : List Char) : Option (List Char × List Char) :=
  match pattern with
  | '/' :: rest =>
    (List.range rest.length).findSome? fun n =>
      match rest.drop n with
      | '/' :: flags =>
        if (rest.take n).all (!isLineTerminator ·) ∧
            flags.all (· ∈ ['g', 'i', 'm', 'u', 's', 'y']) then
          some (rest.take n, flags)
        else none
      | _ => none
  | _ => none

/-- `parseRegexPattern(pattern)`, as the test of the regular expression. -/
def parseRegexPattern (pattern : Value ν ω) : Except ScriptError (String → Bool) := do
  let text ← match pattern with
    | .string text => Except.ok text
    | pattern => if truthy h pattern then .error .typeError else .ok ""
  let regex := match regexMatch text.toList with
    | none => h.regExp text ""
    | some (body, flags) => h.regExp (.ofList body) (.ofList flags)
  match regex with
  | none => .error .syntaxError
  | some test => return test

/-- The items of an array with a missing value as an empty array. -/
def itemsOf : Value ν ω → Option (List (Value ν ω))
  | .undefined | .null => some []
  | .object value => h.items value
  | _ => none

/-- `arrayContainsValue(array, value, ignoreCase)`. -/
def arrayContainsValue (array value : Value ν ω) (ignoreCase : Bool) :
    Except ScriptError Bool :=
  match itemsOf h array with
  | none => .error .typeError
  | some items =>
    match ignoreCase, value with
    | true, .string text =>
      .ok (items.any fun item => match item with
        | .string other => h.toLocaleLowerCase other = h.toLocaleLowerCase text
        | _ => false)
    | _, value => .ok (items.any fun item => sameValueZero h item value)

/-- `exists`. -/
def isPresent : Value ν ω → Bool
  | .undefined | .null => false
  | .number value => !h.isNaN value
  | _ => true

/-- A comparison by `<`, `>`, `<=` or `>=`. -/
def compareValues (comparison : Comparison) (left right : Value ν ω) :
    Except ScriptError Bool :=
  match h.compare comparison left right with
  | none => .error .typeError
  | some result => .ok result

/-- The text that a string is searched for. -/
def searchFor : Value ν ω → Except ScriptError (List Char)
  | .string text => .ok text.toList
  | value => match h.searchText value with
    | none => .error .typeError
    | some text => .ok text.toList

/-- `value ?? ''`. -/
def orEmpty : Value ν ω → Value ν ω
  | .undefined | .null => .string ""
  | value => value

/-- The characters of a string. -/
def charactersOf : Value ν ω → Except ScriptError (List Char)
  | .string text => .ok text.toList
  | _ => .error .typeError

/-- The operators of texts. -/
def stringOperation (operation : String) (leftValue rightValue : Value ν ω) :
    Except ScriptError Bool := do
  let left ← charactersOf (orEmpty leftValue)
  let right := orEmpty rightValue
  match operation with
  | "empty" => return left.length = 0
  | "notEmpty" => return left.length ≠ 0
  | "equals" => return strictEquals h (.string (.ofList left)) right
  | "notEquals" => return !strictEquals h (.string (.ofList left)) right
  | "contains" => return (← searchFor h right) <:+: left
  | "notContains" => return ¬ (← searchFor h right) <:+: left
  | "startsWith" => return (← searchFor h right) <+: left
  | "notStartsWith" => return ¬ (← searchFor h right) <+: left
  | "endsWith" => return (← searchFor h right) <:+ left
  | "notEndsWith" => return ¬ (← searchFor h right) <:+ left
  | "regex" => return (← parseRegexPattern h right) (.ofList left)
  | "notRegex" => return !(← parseRegexPattern h right) (.ofList left)
  | _ => return false

/-- The lower case of a text, and other values as they are. -/
def lowerCase : Value ν ω → Value ν ω
  | .string text => .string (h.toLocaleLowerCase text)
  | value => value

/-- The case `string`. -/
def stringCase (ignoreCase : Bool) (operation : String) (leftValue rightValue : Value ν ω) :
    Except ScriptError Bool :=
  if ignoreCase then
    stringOperation h operation (lowerCase h leftValue)
      (if operation = "regex" ∨ operation = "notRegex" then rightValue else lowerCase h rightValue)
  else stringOperation h operation leftValue rightValue

/-- The case `object`, and the end of the switch. -/
def objectCase (operation : String) (left : Value ν ω) : Except ScriptError Bool :=
  let keys := match left with
    | .string text => text.length
    | .object value => h.keyCount value
    | _ => 0
  match operation with
  | "empty" => .ok (!truthy h left || keys = 0)
  | "notEmpty" => .ok (truthy h left && keys ≠ 0)
  | _ => .ok false

/-- `left.length`. -/
def lengthOf : Value ν ω → Value ν ω
  | .undefined | .null => .number (h.natural 0)
  | .string text => .number (h.natural text.length)
  | .object value => match h.items value with
    | some items => .number (h.natural items.length)
    | none => h.lengthProperty value
  | _ => .undefined

/-- The case `array`, which falls through to the next one. -/
def arrayCase (ignoreCase : Bool) (operation : String) (left right : Value ν ω) :
    Except ScriptError Bool :=
  match operation with
  | "contains" => arrayContainsValue h left right ignoreCase
  | "notContains" => (arrayContainsValue h left right ignoreCase).map not
  | "lengthEquals" => .ok (strictEquals h (lengthOf h left) right)
  | "lengthNotEquals" => .ok (!strictEquals h (lengthOf h left) right)
  | "lengthGt" => compareValues h .greater (lengthOf h left) right
  | "lengthLt" => compareValues h .less (lengthOf h left) right
  | "lengthGte" => compareValues h .greaterOrEqual (lengthOf h left) right
  | "lengthLte" => compareValues h .lessOrEqual (lengthOf h left) right
  | "empty" => .ok (strictEquals h (lengthOf h left) (.number (h.natural 0)))
  | "notEmpty" => .ok (!strictEquals h (lengthOf h left) (.number (h.natural 0)))
  | _ => objectCase h operation left

/-- The case `boolean`, which falls through to the next one. -/
def booleanCase (ignoreCase : Bool) (operation : String) (left right : Value ν ω) :
    Except ScriptError Bool :=
  match operation with
  | "empty" => .ok (!isPresent h left)
  | "notEmpty" => .ok (isPresent h left)
  | "true" => .ok (truthy h left)
  | "false" => .ok (!truthy h left)
  | "equals" => .ok (strictEquals h left right)
  | "notEquals" => .ok (!strictEquals h left right)
  | _ => arrayCase h ignoreCase operation left right

/-- `value.toMillis()`. -/
def millisOf : Value ν ω → Except ScriptError (Value ν ω)
  | .object value => match h.toMillis value with
    | some millis => .ok (.number millis)
    | none => .error .typeError
  | _ => .error .typeError

/-- The case `dateTime`, which falls through to the next one. -/
def dateTimeCase (ignoreCase : Bool) (operation : String) (left right : Value ν ω) :
    Except ScriptError Bool :=
  if operation = "empty" then .ok (!isPresent h left)
  else if operation = "notEmpty" then .ok (isPresent h left)
  else if truthy h left = false ∨ truthy h right = false then .ok false
  else match operation with
    | "equals" => return strictEquals h (← millisOf h left) (← millisOf h right)
    | "notEquals" => return !strictEquals h (← millisOf h left) (← millisOf h right)
    | "after" => do compareValues h .greater (← millisOf h left) (← millisOf h right)
    | "before" => do compareValues h .less (← millisOf h left) (← millisOf h right)
    | "afterOrEquals" => do
      compareValues h .greaterOrEqual (← millisOf h left) (← millisOf h right)
    | "beforeOrEquals" => do compareValues h .lessOrEqual (← millisOf h left) (← millisOf h right)
    | _ => booleanCase h ignoreCase operation left right

/-- The case `number`, which falls through to the next one. -/
def numberCase (ignoreCase : Bool) (operation : String) (left right : Value ν ω) :
    Except ScriptError Bool :=
  match operation with
  | "empty" => .ok (!isPresent h left)
  | "notEmpty" => .ok (isPresent h left)
  | "equals" => .ok (strictEquals h left right)
  | "notEquals" => .ok (!strictEquals h left right)
  | "gt" => compareValues h .greater left right
  | "lt" => compareValues h .less left right
  | "gte" => compareValues h .greaterOrEqual left right
  | "lte" => compareValues h .lessOrEqual left right
  | _ => dateTimeCase h ignoreCase operation left right

/-- The switch over the types of operators. -/
def applyOperator (type : FilterOperatorType) (ignoreCase : Bool) (operation : String)
    (left right : Value ν ω) : Except ScriptError Bool :=
  if operation = "exists" then .ok (isPresent h left)
  else if operation = "notExists" then .ok (!isPresent h left)
  else match type with
    | .string => stringCase h ignoreCase operation left right
    | .number => numberCase h ignoreCase operation left right
    | .dateTime => dateTimeCase h ignoreCase operation left right
    | .boolean => booleanCase h ignoreCase operation left right
    | .array => arrayCase h ignoreCase operation left right
    | .object => objectCase h operation left
    | .any => .ok false

/-- `executeFilterCondition(condition, filterOptions, metadata)`. -/
def executeFilterCondition (condition : FilterConditionValue ν ω)
    (filterOptions : FilterOptionsValue) (metadata : FilterConditionMetadata) :
    Except FilterException Bool := do
  match ← parseFilterConditionValues h condition filterOptions metadata with
  | .error error => .error (.filterError error)
  | .ok (left, right) =>
    (applyOperator h condition.operator.type (!filterOptions.caseSensitive)
      condition.operator.operation left right).mapError .scriptError

/-- One round of the loop of `validateFilterParameter`. -/
def validateCondition (name : String) (options : FilterOptionsValue)
    (issues : InsertionMap String (List String)) (condition : FilterConditionValue ν ω)
    (index : Nat) : Except FilterException (InsertionMap String (List String)) :=
  match parseFilterConditionValues h condition options
      { index := some index, unresolvedExpressions := true, errorFormat := some .inline } with
  | .error (.filterError error) =>
    let key := name ++ "." ++ toString index
    match issues.get? key with
    | none => .error (.scriptError .typeError)
    | some messages => .ok (issues.set key (messages ++ [error.message]))
  | _ => .ok issues

/-- `validateFilterParameter(nodeProperties, value)`, for properties with the name `name`. -/
def validateFilterParameter (name : String) (value : FilterValue ν ω) :
    Except FilterException (InsertionMap String (List String)) :=
  value.conditions.zipIdx.foldlM (fun issues (condition, index) =>
    validateCondition h name value.options issues condition index) .empty

end Operators

section Validation

variable {h}

/-- The parser rejects the values of a condition: both have a text, and the left one is not valid,
or the right one is not and the operator needs it. -/
def Rejected (h : Host ν ω) (options : FilterOptionsValue) (condition : FilterConditionValue ν ω) :
    Prop :=
  let operator := condition.operator
  let strict : Bool := options.typeValidation = .strict
  let version := options.version.getD 1
  (h.toText condition.leftValue).isSome ∧ (h.toText condition.rightValue).isSome ∧
    (parseSingleFilterValue h condition.leftValue operator.type strict version = none ∨
      parseSingleFilterValue h condition.rightValue (operator.rightType.getD operator.type) strict
        version = none ∧ operator.singleValue = false)

/-- The issue that the validation reports for a condition. -/
def ReportsIssue (h : Host ν ω) (name : String) (value : FilterValue ν ω) (index : Nat) : Prop :=
  ∃ issues messages, validateFilterParameter h name value = .ok issues ∧
    issues.get? (name ++ "." ++ toString index) = some messages ∧ messages ≠ []

/-- The evaluation of a condition raises a `FilterError`. -/
def RaisesFilterError (h : Host ν ω) (condition : FilterConditionValue ν ω)
    (options : FilterOptionsValue) (index : Nat) (itemIndex : Option Nat) : Prop :=
  ∃ error, executeFilterCondition h condition options
    { index := some index, itemIndex := itemIndex } = .error (.filterError error)

/-- The validation reports an issue for exactly those conditions whose evaluation raises a
`FilterError`. -/
def PredictsExecution (h : Host ν ω) (name : String) (value : FilterValue ν ω)
    (itemIndex : Option Nat) : Prop :=
  ∀ index condition, value.conditions[index]? = some condition →
    (ReportsIssue h name value index ↔
      RaisesFilterError h condition value.options index itemIndex)

variable {condition : FilterConditionValue ν ω} {options : FilterOptionsValue}

theorem parse_throws_no_filterError {metadata : FilterConditionMetadata} {error : FilterError} :
    parseFilterConditionValues h condition options metadata ≠ .error (.filterError error) := by
  rw [parseFilterConditionValues]
  split
  · split_ifs <;> simp
  · simp

/-- The parser returns a `FilterError` exactly when it rejects the values, unless expressions may be
left unresolved. -/
theorem parse_rejects_iff {metadata : FilterConditionMetadata}
    (hresolved : metadata.unresolvedExpressions = false) :
    (∃ error, parseFilterConditionValues h condition options metadata = .ok (.error error)) ↔
      Rejected h options condition := by
  have hunresolved (value : Value ν ω) : isUnresolved metadata value = false := by
    cases value <;> simp [isUnresolved, hresolved]
  rw [parseFilterConditionValues, Rejected]
  simp only [hunresolved, Bool.or_false]
  generalize parseSingleFilterValue h condition.leftValue _ _ _ = parsedLeft
  generalize parseSingleFilterValue h condition.rightValue _ _ _ = parsedRight
  cases h.toText condition.leftValue with
  | none => simp
  | some leftText =>
    cases h.toText condition.rightValue with
    | none => simp
    | some rightText =>
      cases parsedLeft <;> cases parsedRight <;>
        cases condition.operator.singleValue <;> simp
      all_goals split_ifs <;> simp

/-- The evaluation of a condition raises a `FilterError` exactly when the parser rejects its
values. -/
theorem raises_iff {index : Nat} {itemIndex : Option Nat} :
    RaisesFilterError h condition options index itemIndex ↔ Rejected h options condition := by
  have hresolved : FilterConditionMetadata.unresolvedExpressions
      { index := some index, itemIndex := itemIndex } = false := rfl
  rw [← parse_rejects_iff hresolved, RaisesFilterError]
  refine exists_congr fun error => ?_
  rw [executeFilterCondition]
  cases hparse : parseFilterConditionValues h condition options
      { index := some index, itemIndex := itemIndex } with
  | error exception =>
    have hne : exception ≠ .filterError error := by
      rintro rfl
      exact parse_throws_no_filterError hparse
    simp [bind, Except.bind, hne]
  | ok result =>
    cases result with
    | error returned => simp [bind, Except.bind]
    | ok values =>
      simp only [bind, Except.bind, Except.ok.injEq, reduceCtorEq, iff_false]
      cases applyOperator h condition.operator.type (!options.caseSensitive)
        condition.operator.operation values.1 values.2 <;> simp [Except.mapError]

/-- The validation reports no issue for any condition: the parser does not throw the errors that it
waits for. -/
theorem validate_reports_nothing (name : String) (value : FilterValue ν ω) :
    validateFilterParameter h name value = .ok .empty := by
  have hround (issues : InsertionMap String (List String)) (condition : FilterConditionValue ν ω)
      (index : Nat) : validateCondition h name value.options issues condition index =
        .ok issues := by
    rw [validateCondition]
    split
    · rename_i hthrows
      exact absurd hthrows parse_throws_no_filterError
    · rfl
  have hkept := foldlM_eq_ok (f := fun issues (condition : FilterConditionValue ν ω × Nat) =>
      validateCondition h name value.options issues condition.1 condition.2)
    (g := fun issues _ => issues) (l := value.conditions.zipIdx)
    (fun issues condition _ => hround issues condition.1 condition.2) .empty
  rw [validateFilterParameter]
  refine hkept.trans ?_
  rw [List.foldl_fixed]

/-- The validation of a filter predicts its execution exactly when the parser rejects the values of
none of its conditions. -/
theorem predicts_execution_iff (h : Host ν ω) (name : String) (value : FilterValue ν ω)
    (itemIndex : Option Nat) :
    PredictsExecution h name value itemIndex ↔
      ∀ condition ∈ value.conditions, ¬ Rejected h value.options condition := by
  have hnone (index : Nat) : ¬ ReportsIssue h name value index := by
    rintro ⟨issues, messages, hvalidate, hissues, -⟩
    rw [validate_reports_nothing] at hvalidate
    cases hvalidate
    cases hissues
  constructor
  · intro hpredicts condition hcondition hrejected
    obtain ⟨index, hindex⟩ := List.mem_iff_getElem?.mp hcondition
    exact hnone index ((hpredicts index condition hindex).mpr (raises_iff.mpr hrejected))
  · intro hnot index condition hindex
    have hmem := List.mem_of_getElem? hindex
    exact ⟨fun hreports => absurd hreports (hnone index),
      fun hraises => absurd (raises_iff.mp hraises) (hnot condition hmem)⟩

end Validation

section Example

/-- A language whose only objects are valid dates, given by their milliseconds. A number without a
value is `NaN`. -/
def dateHost : Host (Option Nat) Nat where
  isNaN := Option.isNone
  sameNumber left right := left.isSome && left = right
  truthyNumber value := value.isSome && value ≠ some 0
  natural := some
  sameObject left right := left = right
  truthyObject _ := true
  typeofObject _ := "object"
  items _ := none
  lengthProperty _ := .undefined
  keyCount _ := 0
  compare _ _ _ := some false
  toNumber
    | .number value => some value
    | .null => some (some 0)
    | .boolean value => some (some value.toNat)
    | .object value => some (some value)
    | .undefined | .string _ => some none
  toText
    | .undefined => some "undefined"
    | .null => some "null"
    | .boolean value => some (toString value)
    | .number none => some "NaN"
    | .number (some value) => some (toString value)
    | .string text => some text
    | .object _ => some "[DateTime]"
  searchText _ := none
  stringify _ := some (some "date")
  parseJSON _ := none
  parseJSObject _ := none
  toLowerCase text := text
  toLocaleLowerCase text := text
  trim text := text
  isDateTime _ := true
  fromJSDate _ := none
  dateTimeFormats := []
  toMillis value := some (some value)
  regExp _ _ := none

/-- A text is compared with a number. -/
def textCondition : FilterConditionValue (Option Nat) Nat where
  leftValue := .string "abc"
  operator := { type := .number, operation := "equals" }
  rightValue := .number (some 5)

def looseOptions : FilterOptionsValue where
  caseSensitive := true
  typeValidation := .loose

/-- The evaluation of the condition raises an error that the validation does not report. -/
theorem unpredicted_conversion_error :
    executeFilterCondition dateHost textCondition looseOptions { index := some 0 } =
      .error (.filterError
        { message := "Conversion error: the string 'abc' can't be converted to a number " ++
            "[condition 0, item 0]"
          description := "Try changing the type of the comparison." }) ∧
    ¬ PredictsExecution dateHost "conditions"
      { options := looseOptions, conditions := [textCondition] } none := by
  have hraises : executeFilterCondition dateHost textCondition looseOptions { index := some 0 } =
      .error (.filterError
        { message := "Conversion error: the string 'abc' can't be converted to a number " ++
            "[condition 0, item 0]"
          description := "Try changing the type of the comparison." }) := by decide +kernel
  refine ⟨hraises, fun hpredicts => ?_⟩
  obtain ⟨issues, messages, hvalidate, hissues, -⟩ :=
    (hpredicts 0 textCondition rfl).mpr ⟨_, hraises⟩
  rw [validate_reports_nothing] at hvalidate
  cases hvalidate
  cases hissues

end Example

end N8n.FilterParameter
