import N8n.Activation.ScheduledTasks
import N8n.Text.Matches
import N8n.Text.ReplaceAll

/-!
# The `$fromAI` calls of a text

`parseDefaultValue`, `parseArguments` and `extractFromAICalls` of
`packages/workflow/src/from-ai-parse-utils.ts`. Texts are lists of characters.
-/

namespace N8n.FromAI

open Text
open Activation (isWhitespace trim)

def backslash : Char := '\\'

def singleQuote : Char := '\x27'

def doubleQuote : Char := '\x22'

def backQuote : Char := '\x60'

/-- The characters of `['"', "'", '`']`. -/
def IsQuote (c : Char) : Prop := c = doubleQuote ∨ c = singleQuote ∨ c = backQuote

instance (c : Char) : Decidable (IsQuote c) := inferInstanceAs (Decidable (_ ∨ _))

/-- A default value, for the numbers and the JSON values of the language. -/
inductive DefaultValue (Number Json : Type) where
  | text (value : List Char)
  | number (value : Number)
  | boolean (value : Bool)
  | json (value : Json)
  deriving DecidableEq, Repr

/-- What the language does with a text: `Number`, unless the result is not a number, and the JSON
value of it, unless it has none. -/
structure Conversions (Number Json : Type) where
  toNumber : List Char → Option Number
  jsonParse : List Char → Option Json

/-- `FromAIArgument`. -/
structure FromAIArgument (Number Json : Type) where
  key : List Char
  description : Option (List Char)
  type : List Char
  defaultValue : Option (DefaultValue Number Json)
  deriving DecidableEq, Repr

/-- `ParseError`. -/
structure ParseError where
  message : List Char
  deriving DecidableEq, Repr

/-- `toLowerCase`, as far as it gives letters of the alphabet without `k`: no other characters
become one of these. -/
def toLowerCase (text : List Char) : List Char := text.map Char.toLower

section Parsing

variable {Number Json : Type} (conversions : Conversions Number Json)

/-- `parseDefaultValue(value)`. -/
def parseDefaultValue (value : Option (List Char)) : Option (DefaultValue Number Json) :=
  match value with
  | none => none
  | some [] => none
  | some value =>
    if toLowerCase value = "true".toList then some (.boolean true)
    else if toLowerCase value = "false".toList then some (.boolean false)
    else
      match conversions.toNumber value with
      | some number => some (.number number)
      | none =>
        match conversions.jsonParse value with
        | some json => some (.json json)
        | none => some (.text value)

/-- The variables of the loop of `parseArguments`. The quote character is the one of the quotes that
are open, if any are. -/
structure SplitState where
  args : List (List Char) := []
  currentArg : List Char := []
  quoteChar : Option Char := none
  escapeNext : Bool := false
  deriving DecidableEq, Repr

/-- One round of the loop. -/
def splitNext (s : SplitState) (char : Char) : SplitState :=
  if s.escapeNext then { s with currentArg := s.currentArg ++ [char], escapeNext := false }
  else if char = backslash then { s with escapeNext := true }
  else if IsQuote char then
    { s with
      currentArg := s.currentArg ++ [char]
      quoteChar :=
        match s.quoteChar with
        | none => some char
        | some quoteChar => if char = quoteChar then none else some quoteChar }
  else if char = ',' ∧ s.quoteChar = none then
    { s with args := s.args ++ [trim s.currentArg], currentArg := [] }
  else { s with currentArg := s.currentArg ++ [char] }

/-- The arguments after the loop. -/
def SplitState.result (s : SplitState) : List (List Char) :=
  if s.currentArg = [] then s.args else s.args ++ [trim s.currentArg]

/-- The arguments, split at the commas that are not inside quotes. -/
def splitArguments (argsString : List Char) : List (List Char) :=
  (argsString.foldl splitNext {}).result

/-- The pattern of a backslash and a character, which the character takes the place of. -/
def unescape (c : Char) : Rule Char
  | d :: e :: _ => if d = backslash ∧ e = c then some ([c], 1) else none
  | _ => none

/-- The four calls of `replace` on the text inside the quotes. -/
def replaceEscapes (text : List Char) : List Char :=
  replaceAll (unescape backslash) (replaceAll (unescape doubleQuote)
    (replaceAll (unescape backQuote) (replaceAll (unescape singleQuote) text)))

/-- The text starts and ends with the character. -/
def Surrounds (c : Char) (text : List Char) : Prop := text.head? = some c ∧ text.getLast? = some c

instance (c : Char) (text : List Char) : Decidable (Surrounds c text) :=
  inferInstanceAs (Decidable (_ ∧ _))

/-- An argument without the quotes around it. -/
def cleanArg (arg : List Char) : List Char :=
  let trimmed := trim arg
  if Surrounds singleQuote trimmed ∨ Surrounds backQuote trimmed ∨
      Surrounds doubleQuote trimmed then
    replaceEscapes trimmed.tail.dropLast
  else trimmed

/-- The types that are allowed. -/
def argumentTypes : List (List Char) :=
  ["string".toList, "number".toList, "boolean".toList, "json".toList]

instance lawfulBEqChars : LawfulBEq (List Char) := inferInstance

/-- `parseArguments(argsString)`. -/
def parseArguments (argsString : List Char) : Except ParseError (FromAIArgument Number Json) :=
  let cleanArgs := (splitArguments argsString).map cleanArg
  let type := (cleanArgs[2]?.filter (· ≠ [])).getD "string".toList
  if toLowerCase type ∈ argumentTypes then
    .ok {
      key := cleanArgs[0]?.getD []
      description := cleanArgs[1]?
      type := cleanArgs[2]?.getD "string".toList
      defaultValue := parseDefaultValue conversions cleanArgs[3]? }
  else .error ⟨"Invalid type: ".toList ++ type⟩

/-- What is behind the name at the start of the text, where case is ignored. -/
def dropName : List Char → Pattern Char
  | [], str => some str
  | _ :: _, [] => none
  | n :: name, c :: str => if c.toLower = n.toLower then dropName name str else none

/-- The parenthesis of a call, with the white space around it. -/
def dropParenthesis : Pattern Char := fun str =>
  match str.dropWhile isWhitespace with
  | [] => none
  | c :: rest => if c = '(' then some (rest.dropWhile isWhitespace) else none

/-- `/\$fromAI\s*\(\s*/gi`: what is behind a match at the start of the text. -/
def matchCall : Pattern Char := fun str => (dropName "$fromAI".toList str).bind dropParenthesis

/-- The inner loop of `extractFromAICalls`: the arguments, unless the text ends before the
parentheses are balanced. -/
def scanArguments : (str : List Char) → (quoteChar : Option Char) → (parenthesesCount : Nat) →
    (argsString : List Char) → Option (List Char)
  | _, _, 0, argsString => some argsString
  | [], _, _ + 1, _ => none
  | char :: rest, some quote, n + 1, argsString =>
    let quoteChar := if char = quote then none else some quote
    match rest with
    | [] => scanArguments [] quoteChar (n + 1) (argsString ++ [char])
    | next :: rest' =>
      if char = backslash then
        scanArguments rest' (some quote) (n + 1) (argsString ++ [char, next])
      else scanArguments (next :: rest') quoteChar (n + 1) (argsString ++ [char])
  | char :: rest, none, n + 1, argsString =>
    if IsQuote char then scanArguments rest (some char) (n + 1) (argsString ++ [char])
    else if char = '(' then scanArguments rest none (n + 2) (argsString ++ [char])
    else if char = ')' then
      scanArguments rest none n (if 0 < n then argsString ++ [char] else argsString)
    else scanArguments rest none (n + 1) (argsString ++ [char])

/-- What `extractFromAICalls` does for a match, with the text behind it. -/
def parseCall (rest : List Char) : Except ParseError (FromAIArgument Number Json) :=
  match scanArguments rest none 1 [] with
  | none => .error ⟨"Unbalanced parentheses while parsing $fromAI call: ".toList ++ rest⟩
  | some argsString =>
    (parseArguments conversions argsString).mapError fun error =>
      ⟨"Failed to parse $fromAI arguments: ".toList ++ argsString ++ ": Error: ".toList ++
        error.message⟩

/-- `extractFromAICalls(str)`. -/
def extractFromAICalls (str : List Char) : Except ParseError (List (FromAIArgument Number Json)) :=
  (behindAll matchCall str).mapM (parseCall conversions)

end Parsing

end N8n.FromAI
