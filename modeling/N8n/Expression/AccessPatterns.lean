import N8n.Text.ReplaceAll

/-!
# Access patterns

`applyAccessPatterns` of `packages/workflow/src/node-reference-parser-utils.ts`, which renames a
node in the text of an expression. Each of the four `ACCESS_PATTERNS` is a global regular
expression around the name of the node, with the text before and behind the name as its groups;
the third has a callback that rewrites its result once more. The names are escaped in the
patterns and in the replacements, so that they stand for themselves.
-/

namespace N8n.Expression

open Text

/-! ## References to nodes

How the text of an expression refers to nodes: `$('name')`, `$node['name']`, `$node.name` and
`$items('name')`, each with either quote. `pieces` reads a text from the left into references and
single characters, and `pieces_text` says that reading loses nothing. What a string literal
denotes and which characters make up a name after a dot is left to a `Grammar`.
-/

section

/-- The rules of JavaScript on which the reading of references depends: the characters of a
property name after a dot, and the string that the text between two quotes denotes. -/
structure Grammar where
  identifierStart : Char → Bool
  identifierPart : Char → Bool
  literalValue : List Char → List Char
  literalValue_plain : ∀ raw, '\\' ∉ raw → literalValue raw = raw

/-- May the name follow a dot? -/
def Grammar.identifier (g : Grammar) : List Char → Bool
  | [] => false
  | c :: rest => g.identifierStart c && rest.all g.identifierPart

/-- Take the backslashes out of the text of a literal. -/
def unescape : List Char → List Char
  | [] => []
  | '\\' :: c :: rest => c :: unescape rest
  | c :: rest => c :: unescape rest

theorem unescape_plain (raw : List Char) (h : '\\' ∉ raw) : unescape raw = raw := by
  fun_induction unescape raw with
  | case1 => rfl
  | case2 c rest ih => exact absurd (.head _) h
  | case3 c rest hpair ih => rw [ih fun hmem => h (.tail _ hmem)]

/-- The rules for names and literals in ASCII, with backslashes that only keep a quote or a
backslash. -/
def Grammar.ascii : Grammar where
  identifierStart c := c.isAlpha || c == '_' || c == '$'
  identifierPart c := c.isAlphanum || c == '_' || c == '$'
  literalValue := unescape
  literalValue_plain := unescape_plain

/-- The forms of a reference in which the name of the node is a string literal. -/
inductive QuotedForm where
  | call
  | node
  | items
  deriving DecidableEq, Repr

/-- What stands before the literal. -/
def QuotedForm.opening : QuotedForm → List Char
  | call => ['$', '(']
  | node => ['$', 'n', 'o', 'd', 'e', '[']
  | items => ['$', 'i', 't', 'e', 'm', 's', '(']

/-- What may stand behind the literal. -/
def QuotedForm.closings : QuotedForm → List Char
  | call => [')']
  | node => [']']
  | items => [',', ')']

/-- What stands before a name after a dot. -/
def dotOpening : List Char := ['$', 'n', 'o', 'd', 'e', '.']

/-- A reference to a node, or a character that is not part of one. -/
inductive Piece where
  | char (c : Char)
  | quoted (form : QuotedForm) (quote : Char) (raw : List Char) (closing : Char)
  | dot (name : List Char)
  deriving DecidableEq, Repr

/-- The text of a piece. -/
def Piece.text : Piece → List Char
  | char c => [c]
  | quoted form quote raw closing => form.opening ++ quote :: (raw ++ [quote, closing])
  | dot name => dotOpening ++ name

/-- The node to which a piece refers. -/
def Piece.node? (g : Grammar) : Piece → Option (List Char)
  | char _ => none
  | quoted _ _ raw _ => some (g.literalValue raw)
  | dot name => some name

/-- The text of pieces in a row. -/
def textOf (ps : List Piece) : List Char := ps.flatMap Piece.text

/-- The characters that delimit string literals. -/
def quotes : List Char := ['\'', '"']

/-- The text of a string literal up to its closing quote, and what follows the quote. A backslash
takes the next character with it, and a literal does not go over the end of a line. -/
def readBody (quote : Char) : List Char → Option (List Char × List Char)
  | [] => none
  | '\\' :: c :: rest => (readBody quote rest).map fun (raw, rest) => ('\\' :: c :: raw, rest)
  | c :: rest =>
    if c = quote then some ([], rest)
    else if c = '\n' ∨ c = '\r' then none
    else (readBody quote rest).map fun (raw, rest) => (c :: raw, rest)

/-- The reference of one of the quoted forms with which a text starts. -/
def readQuoted (form : QuotedForm) (text : List Char) : Option Piece :=
  match form.opening.isPrefixOf? text with
  | some (quote :: literal) =>
    if quote ∈ quotes then
      match readBody quote literal with
      | some (raw, closing :: _) =>
        if closing ∈ form.closings then some (.quoted form quote raw closing) else none
      | _ => none
    else none
  | _ => none

/-- The reference with a name after a dot with which a text starts. -/
def readDot (g : Grammar) (text : List Char) : Option Piece :=
  match dotOpening.isPrefixOf? text with
  | some (c :: rest) =>
    if g.identifierStart c then some (.dot (c :: rest.takeWhile g.identifierPart)) else none
  | _ => none

/-- The reference with which a text starts. -/
def readReference (g : Grammar) (text : List Char) : Option Piece :=
  (readQuoted .call text).or
    ((readQuoted .node text).or ((readQuoted .items text).or (readDot g text)))

/-- Read a text behind the next `skip` characters, which belong to the reference before. -/
def piecesFrom (g : Grammar) : Nat → List Char → List Piece
  | _, [] => []
  | skip + 1, _ :: rest => piecesFrom g skip rest
  | 0, c :: rest =>
    match readReference g (c :: rest) with
    | some p => p :: piecesFrom g (p.text.length - 1) rest
    | none => .char c :: piecesFrom g 0 rest

/-- The pieces of a text. -/
def pieces (g : Grammar) (text : List Char) : List Piece := piecesFrom g 0 text

/-- The pieces are those that reading their text finds. -/
def ReadBack (g : Grammar) : List Piece → Prop
  | [] => True
  | .char c :: rest => readReference g (c :: textOf rest) = none ∧ ReadBack g rest
  | p :: rest => readReference g (textOf (p :: rest)) = some p ∧ ReadBack g rest

variable {g : Grammar} {text raw rest : List Char} {quote : Char} {form : QuotedForm}

theorem read_body_text (h : readBody quote text = some (raw, rest)) :
    text = raw ++ quote :: rest := by
  fun_induction readBody quote text generalizing raw with
  | case1 => cases h
  | case2 c text ih =>
    obtain ⟨⟨raw', rest'⟩, hbody, hpair⟩ := Option.map_eq_some_iff.mp h
    cases hpair
    rw [ih hbody]
    rfl
  | case3 text =>
    cases h
    rfl
  | case4 => cases h
  | case5 c text _ _ _ ih =>
    obtain ⟨⟨raw', rest'⟩, hbody, hpair⟩ := Option.map_eq_some_iff.mp h
    cases hpair
    rw [ih hbody]
    rfl

theorem read_body_cons {c : Char} (hc : c ≠ '\\') :
    readBody quote (c :: text) =
      if c = quote then some ([], text)
      else if c = '\n' ∨ c = '\r' then none
      else (readBody quote text).map fun (raw, rest) => (c :: raw, rest) := by
  rw [readBody]
  intro c' text' heq
  exact absurd heq hc

theorem read_body_append (more : List Char) (hquote : quote ≠ '\\')
    (h : readBody quote text = some (raw, rest)) :
    readBody quote (text ++ more) = some (raw, rest ++ more) := by
  fun_induction readBody quote text generalizing raw with
  | case1 => cases h
  | case2 c text ih =>
    obtain ⟨⟨raw', rest'⟩, hbody, hpair⟩ := Option.map_eq_some_iff.mp h
    cases hpair
    show (readBody quote (text ++ more)).map _ = _
    rw [ih hbody]
    rfl
  | case3 text =>
    cases h
    rw [List.cons_append, read_body_cons hquote, if_pos rfl]
  | case4 => cases h
  | case5 c text hpair hc hline ih =>
    obtain ⟨⟨raw', rest'⟩, hbody, hpair'⟩ := Option.map_eq_some_iff.mp h
    cases hpair'
    have hbackslash : c ≠ '\\' := by
      intro heq
      cases text with
      | nil => cases hbody
      | cons c' text => exact hpair c' text heq rfl
    rw [List.cons_append, read_body_cons hbackslash, if_neg hc, if_neg hline, ih hbody]
    rfl

variable {p : Piece}

theorem read_quoted_eq_some (h : readQuoted form text = some p) :
    ∃ quote raw closing rest, p = .quoted form quote raw closing ∧ quote ∈ quotes ∧
      closing ∈ form.closings ∧ readBody quote (raw ++ quote :: closing :: rest) =
        some (raw, closing :: rest) ∧ text = p.text ++ rest := by
  unfold readQuoted at h
  split at h
  · rename_i quote literal hopening
    split at h
    · rename_i hquote
      split at h
      · rename_i raw closing rest hbody
        split at h
        · rename_i hclosing
          cases h
          have hliteral := read_body_text hbody
          refine ⟨quote, raw, closing, rest, rfl, hquote, hclosing, hliteral ▸ hbody, ?_⟩
          rw [List.isPrefixOf?_eq_some_iff_append_eq] at hopening
          rw [← hopening, hliteral, Piece.text]
          simp
        · cases h
      · cases h
    · cases h
  · cases h

theorem read_dot_eq_some (h : readDot g text = some p) :
    ∃ name rest, p = .dot name ∧ g.identifier name ∧ text = p.text ++ rest ∧
      ∀ c ∈ rest.head?, g.identifierPart c = false := by
  unfold readDot at h
  split at h
  · rename_i c rest hopening
    split at h
    · rename_i hstart
      cases h
      refine ⟨_, rest.dropWhile g.identifierPart, rfl, ?_, ?_, fun c' hc' => ?_⟩
      · rw [Grammar.identifier, hstart, Bool.true_and]
        exact List.all_takeWhile
      · rw [List.isPrefixOf?_eq_some_iff_append_eq] at hopening
        rw [← hopening, Piece.text, List.append_assoc, List.cons_append,
          List.takeWhile_append_dropWhile]
      · have hnot := List.head?_dropWhile_not g.identifierPart rest
        rw [Option.mem_def.mp hc'] at hnot
        simpa using hnot
    · cases h
  · cases h

/-- A reference of a quoted form as it is read, with the text behind it. -/
def Piece.QuotedBefore (rest : List Char) (p : Piece) : Prop :=
  ∃ form quote raw closing, p = .quoted form quote raw closing ∧ quote ∈ quotes ∧
    closing ∈ form.closings ∧
    readBody quote (raw ++ quote :: closing :: rest) = some (raw, closing :: rest)

/-- A reference with a name after a dot as it is read, with the text behind it. -/
def Piece.DotBefore (g : Grammar) (rest : List Char) (p : Piece) : Prop :=
  ∃ name, p = .dot name ∧ g.identifier name ∧ ∀ c ∈ rest.head?, g.identifierPart c = false

theorem read_reference_eq_some (h : readReference g text = some p) :
    ∃ rest, text = p.text ++ rest ∧ (p.QuotedBefore rest ∨ p.DotBefore g rest) := by
  have hquoted : ∀ form, readQuoted form text = some p →
      ∃ rest, text = p.text ++ rest ∧ (p.QuotedBefore rest ∨ p.DotBefore g rest) := by
    intro form hread
    obtain ⟨quote, raw, closing, rest, heq, hquote, hclosing, hbody, htext⟩ :=
      read_quoted_eq_some hread
    exact ⟨rest, htext, .inl ⟨form, quote, raw, closing, heq, hquote, hclosing, hbody⟩⟩
  rcases Option.or_eq_some_iff.mp h with hcall | ⟨-, h⟩
  · exact hquoted _ hcall
  rcases Option.or_eq_some_iff.mp h with hnode | ⟨-, h⟩
  · exact hquoted _ hnode
  rcases Option.or_eq_some_iff.mp h with hitems | ⟨-, hdot⟩
  · exact hquoted _ hitems
  obtain ⟨name, rest, heq, hname, htext, hrest⟩ := read_dot_eq_some hdot
  exact ⟨rest, htext, .inr ⟨name, heq, hname, hrest⟩⟩

theorem text_of_reference (h : readReference g text = some p) : ∃ tail, p.text = '$' :: tail := by
  obtain ⟨rest, -, hquoted | hdot⟩ := read_reference_eq_some h
  · obtain ⟨form, quote, raw, closing, rfl, -⟩ := hquoted
    cases form with
    | call => exact ⟨_, rfl⟩
    | node => exact ⟨_, rfl⟩
    | items => exact ⟨_, rfl⟩
  · obtain ⟨name, rfl, -⟩ := hdot
    exact ⟨_, rfl⟩

/-- A literal that needs no escape, between two quotes. -/
def Literal (quote : Char) (raw : List Char) : Prop :=
  readBody quote (raw ++ [quote]) = some (raw, [])

instance (quote : Char) (raw : List Char) : Decidable (Literal quote raw) :=
  inferInstanceAs (Decidable (_ = _))

theorem read_reference_quoted {closing : Char} (hquote : quote ∈ quotes)
    (hclosing : closing ∈ form.closings) (hraw : Literal quote raw) :
    readReference g ((Piece.quoted form quote raw closing).text ++ rest) =
      some (.quoted form quote raw closing) := by
  have hslash : quote ≠ '\\' := by
    intro heq
    rw [heq] at hquote
    exact absurd hquote (by decide)
  have hbody : readBody quote (raw ++ quote :: closing :: rest) = some (raw, closing :: rest) := by
    have := read_body_append (closing :: rest) hslash hraw
    rw [List.append_assoc] at this
    exact this
  have hread : readQuoted form ((Piece.quoted form quote raw closing).text ++ rest) =
      some (.quoted form quote raw closing) := by
    have hprefix : form.opening.isPrefixOf? ((Piece.quoted form quote raw closing).text ++ rest) =
        some (quote :: (raw ++ quote :: closing :: rest)) := by
      rw [List.isPrefixOf?_eq_some_iff_append_eq, Piece.text]
      simp
    rw [readQuoted, hprefix]
    simp only [hquote, hbody, hclosing, if_true]
  cases form with
  | call => rw [readReference, hread, Option.some_or]
  | node => rw [readReference, hread, Option.some_or]; rfl
  | items => rw [readReference, hread, Option.some_or]; rfl

theorem read_reference_dot {name : List Char} (hname : g.identifier name)
    (hrest : ∀ c ∈ rest.head?, g.identifierPart c = false) :
    readReference g ((Piece.dot name).text ++ rest) = some (.dot name) := by
  cases name with
  | nil => cases hname
  | cons c name =>
    rw [Grammar.identifier, Bool.and_eq_true] at hname
    have hend : rest.takeWhile g.identifierPart = [] := by
      cases rest with
      | nil => rfl
      | cons c' rest => rw [List.takeWhile_cons, if_neg]; simp [hrest c' rfl]
    have htake : (name ++ rest).takeWhile g.identifierPart = name := by
      rw [List.takeWhile_append_of_pos (List.all_eq_true.mp hname.2), hend, List.append_nil]
    show readDot g ('$' :: 'n' :: 'o' :: 'd' :: 'e' :: '.' :: c :: (name ++ rest)) = _
    rw [readDot]
    show (if g.identifierStart c then
      some (Piece.dot (c :: (name ++ rest).takeWhile g.identifierPart)) else none) = _
    rw [if_pos hname.1, htake]

theorem text_drop_reference {c : Char} (h : readReference g (c :: rest) = some p) :
    p.text ++ rest.drop (p.text.length - 1) = c :: rest := by
  obtain ⟨tail, htail⟩ := text_of_reference h
  obtain ⟨rest', htext, -⟩ := read_reference_eq_some h
  rw [htail, List.cons_append] at htext
  obtain ⟨hc, hrest⟩ := List.cons.inj htext
  rw [htail, hrest, hc]
  simp

theorem pieces_from_text (g : Grammar) (skip : Nat) (text : List Char) :
    textOf (piecesFrom g skip text) = text.drop skip := by
  fun_induction piecesFrom g skip text with
  | case1 => simp [textOf]
  | case2 skip c rest ih => exact ih
  | case3 c rest p h ih =>
    show p.text ++ textOf _ = _
    rw [ih]
    exact text_drop_reference h
  | case4 c rest h ih =>
    show c :: textOf _ = _
    rw [ih]
    rfl

@[simp] theorem pieces_text (g : Grammar) (text : List Char) : textOf (pieces g text) = text :=
  pieces_from_text g 0 text

theorem pieces_from_read_back (g : Grammar) (skip : Nat) (text : List Char) :
    ReadBack g (piecesFrom g skip text) := by
  fun_induction piecesFrom g skip text with
  | case1 => trivial
  | case2 skip c rest ih => exact ih
  | case3 c rest p h ih =>
    have hread : readReference g (textOf (p :: piecesFrom g (p.text.length - 1) rest)) =
        some p := by
      show readReference g (p.text ++ textOf _) = _
      rw [pieces_from_text, text_drop_reference h]
      exact h
    obtain ⟨rest', -, hquoted | hdot⟩ := read_reference_eq_some h
    · obtain ⟨form, quote, raw, closing, rfl, -⟩ := hquoted
      exact ⟨hread, ih⟩
    · obtain ⟨name, rfl, -⟩ := hdot
      exact ⟨hread, ih⟩
  | case4 c rest h ih =>
    refine ⟨?_, ih⟩
    rw [pieces_from_text]
    exact h

theorem pieces_read_back (g : Grammar) (text : List Char) : ReadBack g (pieces g text) :=
  pieces_from_read_back g 0 text

end

/-! ## Access patterns -/

/-- The characters of `DOT_NOTATION_BANNED_CHARS`. -/
def dotNotationBannedChars : List Char :=
  "\\ `!@#$%^&*()_+-=[]\x7b\x7d;':\"|,.<>?~".toList

/-- `hasDotNotationBannedChar(nodeName)`, which also bans a digit at the start. -/
def hasDotNotationBannedChar (nodeName : List Char) : Bool :=
  nodeName.head?.any Char.isDigit || nodeName.any (· ∈ dotNotationBannedChars)

/-- A regular expression around a name: the groups before and behind the name if it matches at
the start of the text. -/
abbrev NamePattern := List Char → List Char → Option (List Char × List Char)

/-- `(opening['"])name(['"]closing)`. The two quotes may differ. -/
def quotedPattern (opening closings : List Char) : NamePattern := fun name text =>
  match opening.isPrefixOf? text with
  | some (quote :: rest) =>
    if quote ∈ quotes then
      match name.isPrefixOf? rest with
      | some (quote' :: closing :: _) =>
        if quote' ∈ quotes ∧ closing ∈ closings then
          some (opening ++ [quote], [quote', closing])
        else none
      | _ => none
    else none
  | _ => none

/-- `(\$node\.)name(\.?)`. -/
def dotPattern : NamePattern := fun name text =>
  match dotOpening.isPrefixOf? text with
  | some rest =>
    match name.isPrefixOf? rest with
    | some ('.' :: _) => some (dotOpening, ['.'])
    | some _ => some (dotOpening, [])
    | none => none
  | none => none

/-- `expression.replace(pattern, '$1newName$2')` at the start of a text. -/
def NamePattern.rule (pattern : NamePattern) (previousName newName : List Char) : Rule Char :=
  fun text => (pattern previousName text).map fun (before, behind) =>
    (before ++ newName ++ behind, before.length + previousName.length + behind.length - 1)

/-- The line terminators, which a dot in a regular expression does not match. -/
def lineTerminators : List Char := ['\n', '\r', '\u2028', '\u2029']

/-- The characters that the callback of the third pattern looks for behind the new name. -/
def separators : List Char := [' ', '.']

/-- A node name between brackets and double quotes. -/
def bracketed (nodeName : List Char) : List Char := '[' :: '"' :: (nodeName ++ ['"', ']'])

/-- `.newName( |\.)`, replaced by `["newName"]$1`. The first dot matches any character. -/
def bracketRule (newName : List Char) : Rule Char
  | [] => none
  | c :: rest =>
    if c ∈ lineTerminators then none
    else
      match newName.isPrefixOf? rest with
      | some (separator :: _) =>
        if separator ∈ separators then
          some (bracketed newName ++ [separator], newName.length + 1)
        else none
      | _ => none

/-- The `customCallback` of the third pattern. -/
def bracketBanned (expression newName : List Char) : List Char :=
  if hasDotNotationBannedChar newName then replaceAll (bracketRule newName) expression
  else expression

/-- An `AccessPattern`. -/
structure AccessPattern where
  checkPattern : List Char
  replacePattern : NamePattern
  customCallback : Option (List Char → List Char → List Char) := none

/-- `$('name')`. -/
def callAccess : AccessPattern where
  checkPattern := ['$', '(']
  replacePattern := quotedPattern ['$', '('] [')']

/-- `$node['name']`. -/
def bracketAccess : AccessPattern where
  checkPattern := ['$', 'n', 'o', 'd', 'e', '[']
  replacePattern := quotedPattern ['$', 'n', 'o', 'd', 'e', '['] [']']

/-- `$node.name`. -/
def dotAccess : AccessPattern where
  checkPattern := ['$', 'n', 'o', 'd', 'e', '.']
  replacePattern := dotPattern
  customCallback := some bracketBanned

/-- `$items('name')`. -/
def itemsAccess : AccessPattern where
  checkPattern := ['$', 'i', 't', 'e', 'm', 's', '(']
  replacePattern := quotedPattern ['$', 'i', 't', 'e', 'm', 's', '('] [',', ')']

/-- `ACCESS_PATTERNS`. -/
def accessPatterns : List AccessPattern := [callAccess, bracketAccess, dotAccess, itemsAccess]

/-- One round of the loop of `applyAccessPatterns`. -/
def AccessPattern.apply (pattern : AccessPattern) (previousName newName expression : List Char) :
    List Char :=
  if pattern.checkPattern <:+: expression then
    let replaced := replaceAll (pattern.replacePattern.rule previousName newName) expression
    match pattern.customCallback with
    | some customCallback => customCallback replaced newName
    | none => replaced
  else expression

/-- `applyAccessPatterns(expression, previousName, newName)`. -/
def applyAccessPatterns (expression previousName newName : List Char) : List Char :=
  if previousName <:+: expression then
    accessPatterns.foldl (fun expression pattern => pattern.apply previousName newName expression)
      expression
  else expression

end N8n.Expression
