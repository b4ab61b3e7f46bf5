import Mathlib.Data.List.Basic
import N8n.Transition.Computation

/-!
# Evaluation of sandboxed expressions

How JavaScript evaluates an expression, with every property that its member expressions read or
write: the key is the value of the computed property, converted to a property key. What the
objects and functions of the data do is a parameter, and so is their state.
-/

namespace N8n.Sandboxing

open Transition

/-! ## The prototype sanitizer

Expressions are rewritten before they are evaluated: static property names and literals are
checked, and the value of any other computed property is passed through the sanitizer at run time.
See `packages/workflow/src/expression-sandboxing.ts`, and `isSafeObjectProperty` of
`packages/workflow/src/utils.ts`.
-/

/-- Is this how a number is written as a text: with digits, signs, a point and an exponent, or as
`NaN` or `Infinity`? -/
def isNumberText (text : List Char) : Bool :=
  text = "NaN".toList || text = "Infinity".toList || text = "-Infinity".toList ||
    text.all fun c => decide (c ∈ "0123456789.+-e".toList)

/-- A number, by its text. -/
structure JsNumber where
  text : List Char
  valid : isNumberText text = true

/-- JavaScript expressions. `member`, `computed` and `call` with `optional` are followed by `?.`,
and `chain` ends an optional chain. `sanitized` is the call `data.__sanitize(value)` that the
sanitizer puts in, `data` being the object that the expression is evaluated on. -/
inductive Expression where
  | identifier (name : List Char)
  | stringLiteral (value : List Char)
  | numericLiteral (value : JsNumber)
  | templateLiteral (head : List Char) (parts : List (Expression × List Char))
  | array (elements : List Expression)
  | chain (expression : Expression)
  | member (object : Expression) (name : List Char) (optional : Bool)
  | computed (object property : Expression) (optional : Bool)
  | call (callee : Expression) (arguments : List Expression) (optional : Bool)
  | assignMember (object : Expression) (name : List Char) (value : Expression)
  | assignComputed (object property value : Expression)
  | sanitized (value : Expression)

/-- `unsafeObjectProperties`. -/
def unsafeObjectProperties : List (List Char) :=
  ["__proto__".toList, "prototype".toList, "constructor".toList, "getPrototypeOf".toList]

/-- `isSafeObjectProperty(property)`. -/
def isSafeObjectProperty (property : List Char) : Bool :=
  !unsafeObjectProperties.contains property

/-- The `ExpressionError` that a property causes. -/
inductive ExpressionError where
  | cannotAccess (property : List Char)

/-- What `visitMemberExpression` makes of a computed property. The value of a number is none of
the unsafe names, and the type of a template ends with `Literal` too. -/
def sanitizeComputed (object property : Expression) (optional : Bool) :
    Except ExpressionError Expression :=
  match property with
  | .stringLiteral value =>
    if isSafeObjectProperty value then .ok (.computed object property optional)
    else .error (.cannotAccess value)
  | .numericLiteral _ | .templateLiteral _ _ => .ok (.computed object property optional)
  -- the new member expression is not an optional one
  | _ => .ok (.computed object (.sanitized property) false)

/-- What becomes of a computed property that is assigned. -/
def sanitizeAssigned (object property value : Expression) : Except ExpressionError Expression :=
  match property with
  | .stringLiteral name =>
    if isSafeObjectProperty name then .ok (.assignComputed object property value)
    else .error (.cannotAccess name)
  | .numericLiteral _ | .templateLiteral _ _ => .ok (.assignComputed object property value)
  | _ => .ok (.assignComputed object (.sanitized property) value)

mutual

/-- `PrototypeSanitizer` on an expression. The parts of a member expression are visited first. -/
def sanitize : Expression → Except ExpressionError Expression
  | .identifier name => .ok (.identifier name)
  | .stringLiteral value => .ok (.stringLiteral value)
  | .numericLiteral value => .ok (.numericLiteral value)
  | .templateLiteral head parts => do
    let parts ← sanitizeParts parts
    .ok (.templateLiteral head parts)
  | .array elements => do
    let elements ← sanitizeAll elements
    .ok (.array elements)
  | .chain expression => do
    let expression ← sanitize expression
    .ok (.chain expression)
  | .member object name optional => do
    let object ← sanitize object
    if isSafeObjectProperty name then .ok (.member object name optional)
    else .error (.cannotAccess name)
  | .computed object property optional => do
    let object ← sanitize object
    let property ← sanitize property
    sanitizeComputed object property optional
  | .call callee arguments optional => do
    let callee ← sanitize callee
    let arguments ← sanitizeAll arguments
    .ok (.call callee arguments optional)
  | .assignMember object name value => do
    let object ← sanitize object
    let value ← sanitize value
    if isSafeObjectProperty name then .ok (.assignMember object name value)
    else .error (.cannotAccess name)
  | .assignComputed object property value => do
    let object ← sanitize object
    let property ← sanitize property
    let value ← sanitize value
    sanitizeAssigned object property value
  | .sanitized value => do
    let value ← sanitize value
    .ok (.sanitized value)

/-- `PrototypeSanitizer` on the expressions of a template. -/
def sanitizeParts : List (Expression × List Char) →
    Except ExpressionError (List (Expression × List Char))
  | [] => .ok []
  | (expression, text) :: rest => do
    let expression ← sanitize expression
    let rest ← sanitizeParts rest
    .ok ((expression, text) :: rest)

/-- `PrototypeSanitizer` on the elements of an array or the arguments of a call. -/
def sanitizeAll : List Expression → Except ExpressionError (List Expression)
  | [] => .ok []
  | expression :: rest => do
    let expression ← sanitize expression
    let rest ← sanitizeAll rest
    .ok (expression :: rest)

end

/-! ## Evaluation of sandboxed expressions -/

/-- JavaScript values. Objects and functions are references. -/
inductive JsValue where
  | undefined
  | null
  | boolean (value : Bool)
  | number (value : JsNumber)
  | string (text : List Char)
  | symbol (id : Nat)
  | object (reference : Nat)

/-- Property keys. -/
inductive Key where
  | string (text : List Char)
  | symbol (id : Nat)
  deriving DecidableEq

/-- What an evaluation throws. -/
inductive JsError where
  | expressionError (property : List Char)
  | typeError
  | thrown (value : JsValue)

/-- The data and the objects that an expression is evaluated on. `toKey` is the conversion of an
object to a property key, with the methods of the object. -/
structure Host (σ : Type) where
  lookup : List Char → Computation σ JsError JsValue
  newArray : List JsValue → σ → JsValue × σ
  toKey : Nat → Computation σ JsError Key
  get : JsValue → Key → Computation σ JsError JsValue
  set : JsValue → Key → JsValue → Computation σ JsError Unit
  call : JsValue → JsValue → List JsValue → Computation σ JsError JsValue

/-- How a member expression gives the property. -/
inductive PropertyForm where
  | name
  | literal
  | template
  | computed
  deriving DecidableEq

/-- A property that a member expression reads or writes: its form, its value and its key. -/
structure Access where
  form : PropertyForm
  value : JsValue
  key : Key

/-- The state of an evaluation: the state of the host, and the accesses up to now. -/
structure World (σ : Type) where
  host : σ
  accesses : List Access

/-- An evaluation. -/
abbrev Evaluation (σ α : Type) := Computation (World σ) JsError α

variable {σ : Type}

/-- What the host does leaves the accesses as they are: they are those of the expression. -/
def onHost {α : Type} (x : Computation σ JsError α) : Evaluation σ α := fun w =>
  ((x w.host).1, { w with host := (x w.host).2 })

/-- Record an access. -/
def record (access : Access) : Evaluation σ Unit := fun w =>
  (.ok (), { w with accesses := w.accesses ++ [access] })

/-- Is the value `null` or `undefined`? -/
def JsValue.isNullish : JsValue → Bool
  | .undefined | .null => true
  | _ => false

/-- Is the value an object or a function? -/
def JsValue.isObject : JsValue → Bool
  | .object _ => true
  | _ => false

variable (host : Host σ)

/-- `ToPropertyKey(value)`. -/
def toPropertyKey : JsValue → Evaluation σ Key
  | .undefined => pure (.string "undefined".toList)
  | .null => pure (.string "null".toList)
  | .boolean value => pure (.string (if value then "true".toList else "false".toList))
  | .number value => pure (.string value.text)
  | .string text => pure (.string text)
  | .symbol id => pure (.symbol id)
  | .object reference => onHost (host.toKey reference)

/-- The text of a value in a template, which a symbol does not have. -/
def toText (value : JsValue) : Evaluation σ (List Char) := do
  let key ← toPropertyKey host value
  match key with
  | .string text => pure text
  | .symbol _ => .fail .typeError

/-- The access of a member expression to a property of `base`, before it reads or writes it. -/
def accessKey (form : PropertyForm) (base value : JsValue) : Evaluation σ Key :=
  if base.isNullish then .fail .typeError
  else do
    let key ← toPropertyKey host value
    record { form, value, key }
    pure key

/-- Read a property. -/
def getMember (form : PropertyForm) (base value : JsValue) : Evaluation σ JsValue := do
  let key ← accessKey host form base value
  onHost (host.get base key)

/-- Write a property. -/
def setMember (form : PropertyForm) (base value newValue : JsValue) : Evaluation σ JsValue := do
  let key ← accessKey host form base value
  onHost (host.set base key newValue)
  pure newValue

/-- `sanitizer(value)`: it throws for a text that is unsafe, and returns any other value. -/
def sanitizer : JsValue → Evaluation σ JsValue
  | .string text =>
    if isSafeObjectProperty text then pure (.string text) else .fail (.expressionError text)
  | value => pure value

/-- The form of a computed property. -/
def formOf : Expression → PropertyForm
  | .stringLiteral _ | .numericLiteral _ => .literal
  | .templateLiteral _ _ => .template
  | _ => .computed

/-- The value of an expression, with the object that it is a property of. -/
structure Reference where
  value : JsValue
  thisValue : JsValue := .undefined

/-- The value outside of an optional chain: `undefined` if the chain was left. -/
def valueOf (result : Option Reference) : JsValue :=
  match result with
  | none => .undefined
  | some reference => reference.value

mutual

/-- The value of an expression. It is `none` if an optional chain is left at a value that is `null`
or `undefined`. -/
def evaluate : Expression → Evaluation σ (Option Reference)
  | .identifier name => do
    let value ← onHost (host.lookup name)
    pure (some { value })
  | .stringLiteral value => pure (some { value := .string value })
  | .numericLiteral value => pure (some { value := .number value })
  | .templateLiteral head parts => do
    let text ← evaluateParts parts
    pure (some { value := .string (head ++ text) })
  | .array elements => do
    let values ← evaluateAll elements
    let value ← onHost fun s => (.ok (host.newArray values s).1, (host.newArray values s).2)
    pure (some { value })
  | .chain expression => do
    let result ← evaluate expression
    pure (some (result.getD { value := .undefined }))
  | .member object name optional => do
    let result ← evaluate object
    match result with
    | none => pure none
    | some base =>
      if optional && base.value.isNullish then pure none
      else do
        let value ← getMember host .name base.value (.string name)
        pure (some { value, thisValue := base.value })
  | .computed object property optional => do
    let result ← evaluate object
    match result with
    | none => pure none
    | some base =>
      if optional && base.value.isNullish then pure none
      else do
        let key ← evaluate property
        let value ← getMember host (formOf property) base.value (valueOf key)
        pure (some { value, thisValue := base.value })
  | .call callee arguments optional => do
    let result ← evaluate callee
    match result with
    | none => pure none
    | some function =>
      if optional && function.value.isNullish then pure none
      else do
        let values ← evaluateAll arguments
        let value ← onHost (host.call function.value function.thisValue values)
        pure (some { value })
  | .assignMember object name value => do
    let base ← evaluate object
    let newValue ← evaluate value
    let value ← setMember host .name (valueOf base) (.string name) (valueOf newValue)
    pure (some { value })
  | .assignComputed object property value => do
    let base ← evaluate object
    let key ← evaluate property
    let newValue ← evaluate value
    let value ← setMember host (formOf property) (valueOf base) (valueOf key) (valueOf newValue)
    pure (some { value })
  | .sanitized value => do
    let result ← evaluate value
    let value ← sanitizer (valueOf result)
    pure (some { value })

/-- The text of a template after its head. -/
def evaluateParts : List (Expression × List Char) → Evaluation σ (List Char)
  | [] => pure []
  | (expression, text) :: rest => do
    let result ← evaluate expression
    let value ← toText host (valueOf result)
    let rest ← evaluateParts rest
    pure (value ++ text ++ rest)

/-- The values of the elements of an array or the arguments of a call. -/
def evaluateAll : List Expression → Evaluation σ (List JsValue)
  | [] => pure []
  | expression :: rest => do
    let result ← evaluate expression
    let rest ← evaluateAll rest
    pure (valueOf result :: rest)

end

/-- The properties that the member expressions of an expression read and write. -/
def accesses (expression : Expression) (s : σ) : List Access :=
  (evaluate host expression ⟨s, []⟩).2.accesses

/-- The key is one of the forbidden names. -/
def Key.isForbidden : Key → Bool
  | .string text => !isSafeObjectProperty text
  | .symbol _ => false

end N8n.Sandboxing
