import Mathlib.Data.List.TakeWhile
import N8n.Workflow.FromAI

/-!
# Reading back printed `$fromAI` calls

A `Document` is a text with `$fromAI` calls whose arguments are printed as quoted literals, or as
words without special characters. `calls_read_back_iff`: the keys and the descriptions are read back
as they were printed when no argument contains the start of a call, as every one in the text is
taken for a call, and when the key and the description have no backslash in front of a quote or of
another backslash, as the backslashes are removed twice.
-/

namespace N8n.FromAI

open Text Collections
open Activation (isWhitespace trim)

/-! ## Printed calls -/

/-- The quotes of a literal. -/
inductive Quote where
  | single
  | double
  | back
  deriving DecidableEq, Repr

/-- The character of the quotes. -/
def Quote.char : Quote → Char
  | single => singleQuote
  | double => doubleQuote
  | back => backQuote

/-- White space. -/
structure Blank where
  chars : List Char
  white : ∀ c ∈ chars, isWhitespace c = true

/-- The text inside the quotes: the quote and the backslash are escaped by a backslash. -/
def escaped (quote : Char) : List Char → List Char
  | [] => []
  | c :: text =>
    if c = quote ∨ c = backslash then backslash :: c :: escaped quote text
    else c :: escaped quote text

/-- A text that is printed as a quoted literal, with white space around it. -/
structure Literal where
  before : Blank
  quote : Quote
  text : List Char
  after : Blank

/-- The quoted literal and what is behind it. -/
def Literal.quoted (l : Literal) : List Char :=
  l.quote.char :: (escaped l.quote.char l.text ++ l.quote.char :: l.after.chars)

def Literal.print (l : Literal) : List Char := l.before.chars ++ l.quoted

/-- The characters that mean nothing to the scanners. -/
def IsPlain (c : Char) : Prop := c ≠ backslash ∧ ¬ IsQuote c ∧ c ≠ ',' ∧ c ≠ '(' ∧ c ≠ ')'

/-- An argument such as a type or a number that is printed without quotes. -/
structure Word where
  chars : List Char
  nonempty : chars ≠ []
  plain : ∀ c ∈ chars, IsPlain c

/-- An argument of a call. -/
inductive Argument where
  | literal (l : Literal)
  | word (w : Word)

def Argument.print : Argument → List Char
  | literal l => l.print
  | word w => w.chars

/-- The text of a literal, and what a word is without the white space around it. -/
def Argument.value : Argument → List Char
  | literal l => l.text
  | word w => trim w.chars

/-- The types that a call can have, in any case, or none. -/
def IsType (type : List Char) : Prop := type = [] ∨ toLowerCase type ∈ argumentTypes

/-- A call with a key and a description that are printed as literals, and further arguments, of
which the first is the type. -/
structure Call where
  space : Blank
  key : Literal
  description : Literal
  more : List Argument
  typed : ∀ type, more.head? = some type → IsType type.value

/-- The arguments of a call. -/
def Call.arguments (call : Call) : List Argument :=
  .literal call.key :: .literal call.description :: call.more

/-- Arguments behind the first one. -/
def printMore (arguments : List Argument) : List Char := arguments.flatMap (',' :: ·.print)

/-- The text of a call from the quote of its key on. -/
def Call.body (call : Call) : List Char :=
  call.key.quoted ++ printMore (.literal call.description :: call.more)

def Call.print (call : Call) : List Char :=
  "$fromAI".toList ++ call.space.chars ++ '(' :: (call.key.before.chars ++ call.body ++ [')'])

/-- A text without a call. -/
structure PlainText where
  chars : List Char
  plain : ¬ Contains matchCall chars

/-- Calls in other text. -/
structure Document where
  parts : List (PlainText × Call)
  last : PlainText

def Document.calls (document : Document) : List Call := document.parts.map Prod.snd

/-- The text of a document from some of its parts on. -/
def printParts (parts : List (PlainText × Call)) (last : PlainText) : List Char :=
  parts.flatMap (fun part => part.1.chars ++ part.2.print) ++ last.chars

def Document.print (document : Document) : List Char := printParts document.parts document.last

/-- A backslash in front of a quote or of another backslash. -/
def HasEscape (text : List Char) : Prop :=
  ∃ c, (c = backslash ∨ IsQuote c) ∧ [backslash, c] <:+: text

/-! ## The matches -/

/-- The name behind its first character. -/
def nameRest : List Char := "fromAI".toList

theorem name_eq : "$fromAI".toList = '$' :: nameRest := rfl

/-- A character that is not in a match behind its first character. -/
def EndsMatch (c : Char) : Prop :=
  isWhitespace c = false ∧ c ≠ '(' ∧ ∀ n ∈ nameRest, c.toLower ≠ n.toLower

instance (c : Char) : Decidable (EndsMatch c) :=
  @instDecidableAnd _ _ inferInstance
    (@instDecidableAnd _ _ inferInstance (List.decidableBAll _ nameRest))

variable {c : Char}

theorem endsMatch_of_isQuote (h : IsQuote c) : EndsMatch c := by
  rcases h with rfl | rfl | rfl <;> decide

theorem endsMatch_backslash : EndsMatch backslash := by decide

theorem eq_dollar_of_toLower (h : c.toLower = '$') : c = '$' := by
  unfold Char.toLower at h
  split at h
  · rename_i hupper
    have hval := congrArg (·.val.toNat) h
    have hlow := UInt32.le_iff_toNat_le.mp hupper.1
    have hhigh := UInt32.le_iff_toNat_le.mp hupper.2
    simp at hval hlow hhigh
    omega
  · exact h

theorem matchCall_cons (c : Char) (str : List Char) :
    matchCall (c :: str) =
      if c = '$' then (dropName nameRest str).bind dropParenthesis else none := by
  rw [matchCall, name_eq, dropName]
  by_cases h : c = '$'
  · rw [if_pos h, if_pos (by rw [h])]
  · have hlower : c.toLower ≠ Char.toLower '$' := fun heq => h (eq_dollar_of_toLower heq)
    rw [if_neg h, if_neg hlower]
    rfl

theorem matchCall_of_ne (h : c ≠ '$') (str : List Char) : matchCall (c :: str) = none := by
  rw [matchCall_cons, if_neg h]

theorem behindEvery_skip {found : List Char} (h : ∀ c ∈ found, c ≠ '$') (rest : List Char) :
    behindEvery matchCall (found ++ rest) = behindEvery matchCall rest := by
  induction found with
  | nil => rfl
  | cons c found ih =>
    rw [List.cons_append, behindEvery_of_none (matchCall_of_ne (h c (by simp)) _)]
    exact ih fun d hd => h d (by simp [hd])

variable {name : List Char}

theorem dropName_append (h : ∀ n ∈ name, c.toLower ≠ n.toLower) (text rest : List Char) :
    dropName name (text ++ c :: rest) = (dropName name text).map (· ++ c :: rest) := by
  induction name generalizing text with
  | nil => rfl
  | cons n name ih =>
    cases text with
    | nil => exact if_neg (h n (by simp))
    | cons d text =>
      rw [List.cons_append, dropName, dropName]
      split
      · exact ih (fun n hn => h n (by simp [hn])) text
      · rfl

theorem dropWhile_append_stop (h : isWhitespace c = false) (text rest : List Char) :
    (text ++ c :: rest).dropWhile isWhitespace = text.dropWhile isWhitespace ++ c :: rest := by
  rw [List.dropWhile_append]
  split
  · rename_i hempty
    rw [List.isEmpty_iff.mp hempty, List.nil_append, List.dropWhile_cons_of_neg (by simp [h])]
  · rfl

theorem dropParenthesis_append {c : Char} (hspace : isWhitespace c = false) (hne : c ≠ '(')
    (text rest : List Char) :
    dropParenthesis (text ++ c :: rest) = (dropParenthesis text).map (· ++ c :: rest) := by
  rw [dropParenthesis, dropParenthesis, dropWhile_append_stop hspace]
  cases text.dropWhile isWhitespace with
  | nil => exact if_neg hne
  | cons d text =>
    rw [List.cons_append]
    dsimp only
    split
    · rw [dropWhile_append_stop hspace]
      rfl
    · rfl

theorem stops_of_endsMatch (h : EndsMatch c) : Stops matchCall c := by
  intro text hne rest
  cases text with
  | nil => exact absurd rfl hne
  | cons d text =>
    rw [List.cons_append, matchCall_cons, matchCall_cons]
    split
    · rw [dropName_append h.2.2]
      cases dropName nameRest text with
      | none => rfl
      | some str => exact dropParenthesis_append h.1 h.2.1 str rest
    · rfl

variable {after : List Char}

theorem dropName_eq_some {str : List Char} (h : dropName name str = some after) :
    ∃ found, str = found ++ after ∧ toLowerCase found = toLowerCase name := by
  induction name generalizing str with
  | nil =>
    cases h
    exact ⟨[], rfl, rfl⟩
  | cons n name ih =>
    cases str with
    | nil => cases h
    | cons c str =>
      rw [dropName] at h
      split at h
      · rename_i hlower
        obtain ⟨found, rfl, hfound⟩ := ih h
        exact ⟨c :: found, rfl, congrArg₂ List.cons hlower hfound⟩
      · cases h

theorem dropParenthesis_eq_some {str : List Char} (h : dropParenthesis str = some after) :
    ∃ before between, str = before ++ '(' :: (between ++ after) ∧
      ∀ c ∈ before ++ between, isWhitespace c = true := by
  rw [dropParenthesis] at h
  have hbefore := List.takeWhile_append_dropWhile (p := isWhitespace) (l := str)
  cases hdrop : str.dropWhile isWhitespace with
  | nil =>
    rw [hdrop] at h
    cases h
  | cons c rest =>
    rw [hdrop] at h hbefore
    dsimp only at h
    split at h
    · rename_i hparenthesis
      cases h
      refine ⟨str.takeWhile isWhitespace, rest.takeWhile isWhitespace, ?_, fun d hd => ?_⟩
      · rw [List.takeWhile_append_dropWhile, ← hparenthesis, hbefore]
      · rcases List.mem_append.mp hd with hd | hd <;> exact List.mem_takeWhile_imp hd
    · cases h

theorem ne_dollar_of_white (h : isWhitespace c = true) : c ≠ '$' := by
  rintro rfl
  cases h

variable {text : List Char}

theorem matchCall_eq_some (h : matchCall text = some after) :
    ∃ found, text = '$' :: (found ++ after) ∧ (∀ c ∈ found, c ≠ '$') ∧ '(' ∈ found := by
  cases text with
  | nil => cases h
  | cons c text =>
    rw [matchCall_cons] at h
    split at h
    · rename_i hdollar
      obtain ⟨str, hname, hparenthesis⟩ := Option.bind_eq_some_iff.mp h
      obtain ⟨name, rfl, hlower⟩ := dropName_eq_some hname
      obtain ⟨before, between, rfl, hwhite⟩ := dropParenthesis_eq_some hparenthesis
      refine ⟨name ++ before ++ '(' :: between, by simp [hdollar], fun d hd => ?_, by simp⟩
      simp only [List.mem_append, List.mem_cons] at hd
      rcases hd with (hd | hd) | rfl | hd
      · rintro rfl
        have hmem : Char.toLower '$' ∈ toLowerCase nameRest := by
          rw [← hlower]
          exact List.mem_map_of_mem hd
        exact absurd hmem (by decide)
      · exact ne_dollar_of_white (hwhite d (List.mem_append_left _ hd))
      · decide
      · exact ne_dollar_of_white (hwhite d (List.mem_append_right _ hd))
    · cases h

theorem separate_matchCall : Separate matchCall := by
  intro text after h
  obtain ⟨found, htext, hdollar, -⟩ := matchCall_eq_some h
  exact ⟨'$', found, htext, behindEvery_skip hdollar after⟩

theorem not_contains_of_plain {text : List Char} (h : '(' ∉ text) : ¬ Contains matchCall text := by
  rintro ⟨rest, hsuffix, -, hmatch⟩
  obtain ⟨after, hafter⟩ := Option.isSome_iff_exists.mp hmatch
  obtain ⟨found, rfl, -, hparenthesis⟩ := matchCall_eq_some hafter
  exact h (hsuffix.mem (by simp [hparenthesis]))

/-! ### Matches in a printed call -/

variable {quote : Char}

theorem dropName_escaped (hquote : EndsMatch quote) (hname : name <:+ nameRest) (text : List Char) :
    dropName name (escaped quote text) = (dropName name text).map (escaped quote) := by
  induction name generalizing text with
  | nil => rfl
  | cons n name ih =>
    have hn : n ∈ nameRest := hname.mem (by simp)
    cases text with
    | nil => rfl
    | cons c text =>
      rw [escaped]
      split
      · rename_i hspecial
        have hc : c.toLower ≠ n.toLower := by
          rcases hspecial with rfl | rfl
          · exact hquote.2.2 n hn
          · exact endsMatch_backslash.2.2 n hn
        rw [dropName, dropName, if_neg hc, if_neg (endsMatch_backslash.2.2 n hn)]
        rfl
      · rw [dropName, dropName]
        split
        · exact ih ((List.suffix_cons n name).trans hname) text
        · rfl

theorem dropWhile_escaped (hquote : EndsMatch quote) (text : List Char) :
    (escaped quote text).dropWhile isWhitespace =
      escaped quote (text.dropWhile isWhitespace) := by
  induction text with
  | nil => rfl
  | cons c text ih =>
    rw [escaped]
    split
    · rename_i hspecial
      have hc : isWhitespace c = false := by
        rcases hspecial with rfl | rfl
        · exact hquote.1
        · exact endsMatch_backslash.1
      rw [List.dropWhile_cons_of_neg (by simp [endsMatch_backslash.1]),
        List.dropWhile_cons_of_neg (by simp [hc]), escaped, if_pos hspecial]
    · rename_i hplain
      cases hc : isWhitespace c with
      | true => rw [List.dropWhile_cons_of_pos hc, List.dropWhile_cons_of_pos hc, ih]
      | false =>
        rw [List.dropWhile_cons_of_neg (by simp [hc]),
          List.dropWhile_cons_of_neg (by simp [hc]), escaped, if_neg hplain]

theorem dropParenthesis_escaped (hquote : EndsMatch quote) (text : List Char) :
    dropParenthesis (escaped quote text) = (dropParenthesis text).map (escaped quote) := by
  rw [dropParenthesis, dropParenthesis, dropWhile_escaped hquote]
  cases text.dropWhile isWhitespace with
  | nil => rfl
  | cons c text =>
    rw [escaped]
    by_cases hspecial : c = quote ∨ c = backslash
    · have hc : c ≠ '(' := by
        rcases hspecial with rfl | rfl
        · exact hquote.2.1
        · exact endsMatch_backslash.2.1
      rw [if_pos hspecial]
      dsimp only
      rw [if_neg hc, if_neg endsMatch_backslash.2.1]
      rfl
    · rw [if_neg hspecial]
      dsimp only
      split
      · rw [dropWhile_escaped hquote]
        rfl
      · rfl

theorem behindEvery_escaped (hquote : IsQuote quote) (text : List Char) :
    behindEvery matchCall (escaped quote text) =
      (behindEvery matchCall text).map (escaped quote) := by
  have hends := endsMatch_of_isQuote hquote
  induction text with
  | nil => rfl
  | cons c text ih =>
    rw [escaped]
    split
    · rename_i hspecial
      have hc : c ≠ '$' := by
        rcases hspecial with rfl | rfl
        · rcases hquote with rfl | rfl | rfl <;> decide
        · decide
      rw [behindEvery_of_none (matchCall_of_ne (by decide) _),
        behindEvery_of_none (matchCall_of_ne hc _), behindEvery_of_none (matchCall_of_ne hc _),
        ih]
    · have hmatch : matchCall (c :: escaped quote text) =
          (matchCall (c :: text)).map (escaped quote) := by
        rw [matchCall_cons, matchCall_cons]
        split
        · rw [dropName_escaped hends (List.suffix_refl _)]
          cases dropName nameRest text with
          | none => rfl
          | some str => exact dropParenthesis_escaped hends str
        · rfl
      rw [behindEvery, behindEvery, hmatch, ih, List.map_append]
      cases matchCall (c :: text) <;> rfl

theorem Quote.isQuote (quote : Quote) : IsQuote quote.char := by
  cases quote
  · exact .inr (.inl rfl)
  · exact .inl rfl
  · exact .inr (.inr rfl)

theorem ne_dollar_of_isQuote (h : IsQuote c) : c ≠ '$' := by
  rcases h with rfl | rfl | rfl <;> decide

theorem Blank.behindEvery (blank : Blank) (rest : List Char) :
    Text.behindEvery matchCall (blank.chars ++ rest) = Text.behindEvery matchCall rest :=
  behindEvery_skip (fun c hc => ne_dollar_of_white (blank.white c hc)) rest

theorem Literal.behindEvery (l : Literal) (rest : List Char) :
    ∃ found, Text.behindEvery matchCall (l.quoted ++ rest) =
        found ++ Text.behindEvery matchCall rest ∧
      (found = [] ↔ ¬ Contains matchCall l.text) := by
  have hquote := l.quote.isQuote
  have hne := matchCall_of_ne (ne_dollar_of_isQuote hquote)
  refine ⟨((Text.behindEvery matchCall l.text).map (escaped l.quote.char)).map
    (· ++ l.quote.char :: (l.after.chars ++ rest)), ?_, ?_⟩
  · rw [Literal.quoted, List.cons_append, List.append_assoc, List.cons_append,
      behindEvery_of_none (hne _),
      behindEvery_append (stops_of_endsMatch (endsMatch_of_isQuote hquote)),
      behindEvery_escaped hquote, behindEvery_of_none (hne _), l.after.behindEvery]
  · rw [List.map_eq_nil_iff, List.map_eq_nil_iff, behindEvery_eq_nil_iff]

theorem mem_of_mem_trim (h : c ∈ trim text) : c ∈ text := by
  rw [trim, List.mem_reverse] at h
  have hreverse := (List.dropWhile_suffix isWhitespace).mem h
  exact (List.dropWhile_suffix isWhitespace).mem (List.mem_reverse.mp hreverse)

theorem Word.not_mem (w : Word) (h : ¬ IsPlain c) : c ∉ w.chars :=
  fun hc => h (w.plain c hc)

theorem Argument.behindEvery (a : Argument) (hc : EndsMatch c) (rest : List Char) :
    ∃ found, Text.behindEvery matchCall (a.print ++ c :: rest) =
        found ++ Text.behindEvery matchCall (c :: rest) ∧
      (found = [] ↔ ¬ Contains matchCall a.value) := by
  cases a with
  | literal l =>
    rw [print, Literal.print, List.append_assoc, l.before.behindEvery]
    exact l.behindEvery (c :: rest)
  | word w =>
    have hparenthesis : '(' ∉ w.chars := w.not_mem fun h => h.2.2.2.1 rfl
    have hnone := behindEvery_eq_nil_iff.mpr (not_contains_of_plain hparenthesis)
    refine ⟨[], ?_, iff_of_true rfl ?_⟩
    · rw [print, behindEvery_append (stops_of_endsMatch hc), hnone]
      rfl
    · exact not_contains_of_plain fun h => hparenthesis (mem_of_mem_trim h)

theorem printMore_cons (a : Argument) (rest : List Argument) :
    printMore (a :: rest) = ',' :: (a.print ++ printMore rest) := rfl

theorem behindEvery_printMore (arguments : List Argument) (rest : List Char) :
    ∃ found, behindEvery matchCall (printMore arguments ++ ')' :: rest) =
        found ++ behindEvery matchCall rest ∧
      (found = [] ↔ ∀ a ∈ arguments, ¬ Contains matchCall a.value) := by
  induction arguments with
  | nil =>
    refine ⟨[], ?_, by simp⟩
    rw [printMore, List.flatMap_nil, List.nil_append,
      behindEvery_of_none (matchCall_of_ne (by decide) rest)]
    rfl
  | cons a arguments ih =>
    obtain ⟨found, hfound, hnil⟩ := ih
    obtain ⟨c, str, hstr, hc⟩ : ∃ c str, printMore arguments ++ ')' :: rest = c :: str ∧
        EndsMatch c := by
      cases arguments with
      | nil => exact ⟨')', rest, rfl, by decide⟩
      | cons b arguments => exact ⟨',', _, rfl, by decide⟩
    obtain ⟨first, hfirst, hfirstNil⟩ := a.behindEvery hc str
    refine ⟨first ++ found, ?_, ?_⟩
    · rw [printMore_cons, List.cons_append, behindEvery_of_none (matchCall_of_ne (by decide) _),
        List.append_assoc, hstr, hfirst, ← hstr, hfound, List.append_assoc]
    · rw [List.append_eq_nil_iff, hfirstNil, hnil, List.forall_mem_cons]

theorem dropName_self (name str : List Char) : dropName name (name ++ str) = some str := by
  induction name with
  | nil => rfl
  | cons n name ih => rw [List.cons_append, dropName, if_pos rfl, ih]

theorem Call.print_append (call : Call) (rest : List Char) :
    call.print ++ rest = '$' :: (nameRest ++ (call.space.chars ++
      '(' :: (call.key.before.chars ++ (call.body ++ ')' :: rest)))) := by
  unfold Call.print
  simp only [name_eq, List.cons_append, List.append_assoc, List.nil_append]

theorem Call.behindEvery (call : Call) (rest : List Char) :
    ∃ found, Text.behindEvery matchCall (call.print ++ rest) =
        (call.body ++ ')' :: rest) :: found ++ Text.behindEvery matchCall rest ∧
      (found = [] ↔ ∀ a ∈ call.arguments, ¬ Contains matchCall a.value) := by
  obtain ⟨more, hmore, hmoreNil⟩ :=
    behindEvery_printMore (.literal call.description :: call.more) rest
  obtain ⟨first, hfirst, hfirstNil⟩ := call.key.behindEvery
    (printMore (.literal call.description :: call.more) ++ ')' :: rest)
  have hbody : call.body ++ ')' :: rest = call.key.quoted ++
      (printMore (.literal call.description :: call.more) ++ ')' :: rest) :=
    List.append_assoc ..
  have hprint := call.print_append rest
  have hquote : isWhitespace call.key.quote.char = false :=
    (endsMatch_of_isQuote call.key.quote.isQuote).1
  have hmatch : matchCall (call.print ++ rest) = some (call.body ++ ')' :: rest) := by
    rw [hprint, matchCall_cons, if_pos rfl, dropName_self, Option.bind_some, dropParenthesis,
      List.dropWhile_append_of_pos call.space.white, List.dropWhile_cons_of_neg (by decide)]
    dsimp only
    rw [if_pos rfl, List.dropWhile_append_of_pos call.key.before.white, hbody, Literal.quoted,
      List.cons_append, List.dropWhile_cons_of_neg (by simp [hquote])]
  refine ⟨first ++ more, ?_, ?_⟩
  · rw [hprint] at hmatch ⊢
    rw [behindEvery_of_some hmatch, behindEvery_skip (by simp [nameRest]), call.space.behindEvery,
      behindEvery_of_none (matchCall_of_ne (by decide) _), call.key.before.behindEvery, hbody,
      hfirst, hmore, List.cons_append, List.append_assoc]
  · rw [List.append_eq_nil_iff, hfirstNil, hmoreNil, Call.arguments]
    exact ⟨fun h => List.forall_mem_cons.mpr h, fun h => List.forall_mem_cons.mp h⟩

/-- No argument of the call contains the start of a call. -/
def Call.Apart (call : Call) : Prop := ∀ a ∈ call.arguments, ¬ Contains matchCall a.value

theorem behindEvery_printParts (parts : List (PlainText × Call)) (last : PlainText) :
    parts.length ≤ (behindEvery matchCall (printParts parts last)).length ∧
      ((behindEvery matchCall (printParts parts last)).length = parts.length ↔
        ∀ part ∈ parts, part.2.Apart) ∧
      ((∀ part ∈ parts, part.2.Apart) →
        List.Forall₂ (fun part behind => ∃ rest, behind = part.2.body ++ ')' :: rest) parts
          (behindEvery matchCall (printParts parts last))) := by
  induction parts with
  | nil =>
    have hnone : behindEvery matchCall (printParts [] last) = [] :=
      behindEvery_eq_nil_iff.mpr last.plain
    rw [hnone]
    exact ⟨Nat.le_refl _, by simp, fun _ => .nil⟩
  | cons part parts ih =>
    obtain ⟨hle, hlength, hbodies⟩ := ih
    obtain ⟨found, hfound, hnil⟩ := part.2.behindEvery (printParts parts last)
    have hparts : behindEvery matchCall (printParts (part :: parts) last) =
        (part.2.body ++ ')' :: printParts parts last) :: found ++
          behindEvery matchCall (printParts parts last) := by
      have hprint : printParts (part :: parts) last =
          part.1.chars ++ (part.2.print ++ printParts parts last) := by
        simp only [printParts, List.flatMap_cons, List.append_assoc]
      rw [hprint, part.2.print_append,
        behindEvery_append (stops_of_endsMatch (by decide)),
        behindEvery_eq_nil_iff.mpr part.1.plain, List.map_nil, List.nil_append,
        ← part.2.print_append, hfound]
    rw [hparts, List.forall_mem_cons]
    refine ⟨?_, ?_, fun ⟨hpart, hrest⟩ => ?_⟩
    · simp only [List.length_append, List.length_cons]
      omega
    · rw [Call.Apart, ← hnil, ← hlength, ← List.length_eq_zero_iff]
      simp only [List.length_append, List.length_cons]
      omega
    · rw [hnil.mpr hpart]
      exact .cons ⟨_, rfl⟩ (hbodies hrest)

/-! ## The two scanners -/

/-- The scanner for the parentheses copies the text. -/
def Passes (text : List Char) : Prop :=
  ∀ rest n args, scanArguments (text ++ rest) none (n + 1) args =
    scanArguments rest none (n + 1) (args ++ text)

theorem Passes.append {text other : List Char} (h : Passes text) (hother : Passes other) :
    Passes (text ++ other) := by
  intro rest n args
  rw [List.append_assoc, h, hother, List.append_assoc]

theorem passes_char (hquote : ¬ IsQuote c) (hopen : c ≠ '(') (hclose : c ≠ ')') : Passes [c] := by
  intro rest n args
  rw [List.singleton_append, scanArguments, if_neg hquote, if_neg hopen, if_neg hclose]

theorem passes_nil : Passes [] := by
  intro rest n args
  rw [List.nil_append, List.append_nil]

theorem passes_of_forall (h : ∀ c ∈ text, ¬ IsQuote c ∧ c ≠ '(' ∧ c ≠ ')') : Passes text := by
  induction text with
  | nil => exact passes_nil
  | cons c text ih =>
    obtain ⟨hquote, hopen, hclose⟩ := h c (by simp)
    exact (passes_char hquote hopen hclose).append (ih fun d hd => h d (by simp [hd]))

theorem scan_quoted (h : c ≠ backslash) (rest : List Char) (n : Nat) (args : List Char) :
    scanArguments (c :: rest) (some quote) (n + 1) args =
      scanArguments rest (if c = quote then none else some quote) (n + 1) (args ++ [c]) := by
  cases rest with
  | nil => rfl
  | cons next rest => rw [scanArguments]; exact if_neg h

theorem scan_escaped (h : quote ≠ backslash) (text rest : List Char) (n : Nat) (args : List Char) :
    scanArguments (escaped quote text ++ quote :: rest) (some quote) (n + 1) args =
      scanArguments rest none (n + 1) (args ++ (escaped quote text ++ [quote])) := by
  induction text generalizing args with
  | nil =>
    rw [escaped, List.nil_append, scan_quoted h, if_pos rfl]
    rfl
  | cons c text ih =>
    rw [escaped]
    split
    · rw [List.cons_append, List.cons_append, scanArguments]
      rw [if_pos rfl, ih]
      simp
    · rename_i hplain
      obtain ⟨hquote, hbackslash⟩ := not_or.mp hplain
      rw [List.cons_append, scan_quoted hbackslash, if_neg hquote, ih]
      simp

theorem Blank.passes (blank : Blank) : Passes blank.chars := by
  refine passes_of_forall fun c hc => ?_
  have hwhite := blank.white c hc
  refine ⟨?_, ?_, ?_⟩
  · rintro (rfl | rfl | rfl) <;> cases hwhite
  · rintro rfl
    cases hwhite
  · rintro rfl
    cases hwhite

theorem Literal.passes_quoted (l : Literal) : Passes l.quoted := by
  intro rest n args
  have hquote := l.quote.isQuote
  have hbackslash : l.quote.char ≠ backslash := by cases l.quote <;> decide
  rw [Literal.quoted, List.cons_append, scanArguments, if_pos hquote, List.append_assoc,
    List.cons_append, scan_escaped hbackslash, l.after.passes]
  simp

theorem Argument.passes (a : Argument) : Passes a.print := by
  cases a with
  | literal l => exact l.before.passes.append l.passes_quoted
  | word w => exact passes_of_forall fun c hc => ⟨(w.plain c hc).2.1, (w.plain c hc).2.2.2⟩

theorem passes_printMore (arguments : List Argument) : Passes (printMore arguments) := by
  induction arguments with
  | nil => exact passes_nil
  | cons a arguments ih =>
    exact ((passes_char (by decide) (by decide) (by decide)).append a.passes).append ih

theorem Call.scan_body (call : Call) (rest : List Char) :
    scanArguments (call.body ++ ')' :: rest) none 1 [] = some call.body := by
  have hbody : Passes call.body := call.key.passes_quoted.append (passes_printMore _)
  have hclose : ¬ IsQuote ')' := by decide
  rw [hbody, scanArguments, if_neg hclose, if_neg (by decide), if_pos rfl, scanArguments]
  rfl

/-- The scanner for the commas adds `read` to the current argument. -/
def Reads (text read : List Char) : Prop :=
  ∀ args currentArg, text.foldl splitNext { args, currentArg } =
    { args, currentArg := currentArg ++ read }

theorem Reads.append {text read other otherRead : List Char} (h : Reads text read)
    (hother : Reads other otherRead) : Reads (text ++ other) (read ++ otherRead) := by
  intro args currentArg
  rw [List.foldl_append, h, hother, List.append_assoc]

theorem reads_of_forall (h : ∀ c ∈ text, c ≠ backslash ∧ ¬ IsQuote c ∧ c ≠ ',') :
    Reads text text := by
  induction text with
  | nil =>
    intro args currentArg
    rw [List.append_nil]
    rfl
  | cons c text ih =>
    intro args currentArg
    obtain ⟨hbackslash, hquote, hcomma⟩ := h c (by simp)
    have hstep : splitNext { args, currentArg } c =
        { args, currentArg := currentArg ++ [c] } := by
      simp [splitNext, hbackslash, hquote, hcomma]
    rw [List.foldl_cons, hstep, ih (fun d hd => h d (by simp [hd])), List.append_assoc]
    rfl

theorem split_escaped (args : List (List Char)) (currentArg text : List Char) :
    (escaped quote text).foldl splitNext { args, currentArg, quoteChar := some quote } =
      { args, currentArg := currentArg ++ text, quoteChar := some quote } := by
  induction text generalizing currentArg with
  | nil =>
    rw [List.append_nil]
    rfl
  | cons c text ih =>
    have happend : currentArg ++ c :: text = (currentArg ++ [c]) ++ text := by simp
    rw [escaped, happend, ← ih]
    split
    · rfl
    · rename_i hplain
      obtain ⟨hne, hbackslash⟩ := not_or.mp hplain
      have hstep : splitNext { args, currentArg, quoteChar := some quote } c =
          { args, currentArg := currentArg ++ [c], quoteChar := some quote } := by
        by_cases hc : IsQuote c
        · simp [splitNext, hbackslash, hc, hne]
        · simp [splitNext, hbackslash, hc]
      rw [List.foldl_cons, hstep]

theorem Blank.reads (blank : Blank) : Reads blank.chars blank.chars := by
  refine reads_of_forall fun c hc => ?_
  have hwhite := blank.white c hc
  refine ⟨?_, ?_, ?_⟩
  · rintro rfl
    cases hwhite
  · rintro (rfl | rfl | rfl) <;> cases hwhite
  · rintro rfl
    cases hwhite

/-- A literal as the scanner for the commas reads it. -/
def Literal.scanned (l : Literal) : List Char :=
  l.quote.char :: (l.text ++ l.quote.char :: l.after.chars)

theorem Literal.reads_quoted (l : Literal) : Reads l.quoted l.scanned := by
  intro args currentArg
  have hquote := l.quote.isQuote
  have hbackslash : l.quote.char ≠ backslash := by cases l.quote <;> decide
  have hopen : splitNext { args, currentArg } l.quote.char =
      { args, currentArg := currentArg ++ [l.quote.char], quoteChar := some l.quote.char } := by
    simp [splitNext, hbackslash, hquote]
  have hclose : ∀ currentArg,
      splitNext { args, currentArg, quoteChar := some l.quote.char } l.quote.char =
        { args, currentArg := currentArg ++ [l.quote.char] } := by
    intro currentArg
    simp [splitNext, hbackslash, hquote]
  rw [Literal.quoted, List.foldl_cons, hopen, List.foldl_append, split_escaped,
    List.foldl_cons, hclose, l.after.reads]
  simp [Literal.scanned]

/-- An argument as the scanner for the commas reads it. -/
def Argument.scanned : Argument → List Char
  | literal l => l.before.chars ++ l.scanned
  | word w => w.chars

theorem Argument.reads (a : Argument) : Reads a.print a.scanned := by
  cases a with
  | literal l => exact l.before.reads.append l.reads_quoted
  | word w =>
    exact reads_of_forall fun c hc =>
      ⟨(w.plain c hc).1, (w.plain c hc).2.1, (w.plain c hc).2.2.1⟩

theorem Argument.scanned_ne_nil (a : Argument) : a.scanned ≠ [] := by
  cases a with
  | literal l => simp [scanned, Literal.scanned]
  | word w => exact w.nonempty

theorem split_printMore (arguments : List Argument) (args : List (List Char))
    {currentArg : List Char} (h : currentArg ≠ []) :
    ((printMore arguments).foldl splitNext { args, currentArg }).result =
      args ++ (currentArg :: arguments.map Argument.scanned).map trim := by
  induction arguments generalizing args currentArg with
  | nil => exact if_neg h
  | cons a arguments ih =>
    have hcomma : splitNext { args, currentArg } ',' =
        { args := args ++ [trim currentArg], currentArg := [] } := by
      simp [splitNext, show ',' ≠ backslash by decide, show ¬ IsQuote ',' by decide]
    rw [printMore_cons, List.foldl_cons, hcomma, List.foldl_append, a.reads, List.nil_append,
      ih _ a.scanned_ne_nil]
    simp

theorem Call.split_body (call : Call) : splitArguments call.body =
    (call.key.scanned ::
      (.literal call.description :: call.more).map Argument.scanned).map trim := by
  have hne : call.key.scanned ≠ [] := List.cons_ne_nil _ _
  have hkey := call.key.reads_quoted [] []
  rw [splitArguments, Call.body, List.foldl_append]
  exact (congrArg (fun s => ((printMore _).foldl splitNext s).result) hkey).trans
    (split_printMore _ [] hne)

/-! ## The arguments that are read -/

theorem trim_quoted (hquote : isWhitespace quote = false) {before : List Char}
    (hbefore : ∀ c ∈ before, isWhitespace c = true) (hafter : ∀ c ∈ after, isWhitespace c = true)
    (text : List Char) :
    trim (before ++ quote :: (text ++ quote :: after)) = quote :: (text ++ [quote]) := by
  have hreverse : (quote :: (text ++ quote :: after)).reverse =
      after.reverse ++ quote :: (text.reverse ++ [quote]) := by simp
  rw [trim, List.dropWhile_append_of_pos hbefore, List.dropWhile_cons_of_neg (by simp [hquote]),
    hreverse, List.dropWhile_append_of_pos (fun c hc => hafter c (List.mem_reverse.mp hc)),
    List.dropWhile_cons_of_neg (by simp [hquote])]
  simp

theorem trim_eq_self (hhead : ∀ c, text.head? = some c → isWhitespace c = false)
    (hlast : ∀ c, text.getLast? = some c → isWhitespace c = false) : trim text = text := by
  have hdrop : ∀ l : List Char, (∀ c, l.head? = some c → isWhitespace c = false) →
      l.dropWhile isWhitespace = l := by
    intro l hl
    cases l with
    | nil => rfl
    | cons c l => rw [List.dropWhile_cons_of_neg (by simp [hl c rfl])]
  rw [trim, hdrop text hhead, hdrop text.reverse (by rwa [List.head?_reverse]),
    List.reverse_reverse]

theorem trim_trim (text : List Char) : trim (trim text) = trim text := by
  have hdrop : ∀ (l : List Char) c, (l.dropWhile isWhitespace).head? = some c →
      isWhitespace c = false := by
    intro l c hc
    have hnot := List.head?_dropWhile_not isWhitespace l
    rw [hc] at hnot
    simpa using hnot
  refine trim_eq_self (fun c hc => hdrop text c ?_) fun c hc => ?_
  · have hprefix : trim text <+: text.dropWhile isWhitespace := by
      rw [trim, ← List.reverse_suffix, List.reverse_reverse]
      exact List.dropWhile_suffix _
    obtain ⟨rest, hrest⟩ := hprefix
    rw [← hrest, List.head?_append, hc]
    rfl
  · rw [trim, List.getLast?_reverse] at hc
    exact hdrop _ c hc

theorem unescape_isSome_iff (c : Char) (text : List Char) :
    (unescape c text).isSome ↔ [backslash, c] <+: text := by
  match text with
  | [] => simp [unescape]
  | [d] => simp [unescape]
  | d :: e :: text =>
    rw [unescape]
    split
    · rename_i h
      obtain ⟨rfl, rfl⟩ := h
      exact iff_of_true rfl ⟨text, rfl⟩
    · rename_i h
      refine iff_of_false (by simp) ?_
      rintro ⟨rest, hrest⟩
      simp only [List.cons_append, List.nil_append, List.cons.injEq] at hrest
      exact h ⟨hrest.1.symm, hrest.2.1.symm⟩

theorem shortens_unescape (c : Char) : Shortens (unescape c) := by
  intro text put more h
  match text with
  | [] => cases h
  | [d] => cases h
  | d :: e :: text =>
    rw [unescape] at h
    split at h
    · cases h
      exact ⟨Nat.le_refl _, by simp⟩
    · cases h

theorem replaceAll_unescape_iff (c : Char) (text : List Char) :
    replaceAll (unescape c) text = text ↔ ¬ [backslash, c] <:+: text :=
  replace_all_eq_iff (shortens_unescape c) (List.cons_ne_nil _ _) (unescape_isSome_iff c)

/-- The escapes are replaced once more behind the scanner, which changes a text exactly when it has
any. -/
theorem replaceEscapes_eq_iff (text : List Char) :
    replaceEscapes text = text ↔ ¬ HasEscape text := by
  have hshrinks := fun c => (shortens_unescape c).shrinks
  have hback := (hshrinks backQuote).comp (hshrinks singleQuote)
  have hdouble := (hshrinks doubleQuote).comp hback
  rw [replaceEscapes, (hshrinks backslash).comp_eq_iff hdouble,
    (hshrinks doubleQuote).comp_eq_iff hback,
    (hshrinks backQuote).comp_eq_iff (hshrinks singleQuote), replaceAll_unescape_iff,
    replaceAll_unescape_iff, replaceAll_unescape_iff, replaceAll_unescape_iff]
  constructor
  · rintro ⟨⟨⟨hsingle, hback⟩, hdouble⟩, hbackslash⟩ ⟨c, rfl | rfl | rfl | rfl, hc⟩
    · exact hbackslash hc
    · exact hdouble hc
    · exact hsingle hc
    · exact hback hc
  · intro h
    have hnot := fun c hc hfound => h ⟨c, hc, hfound⟩
    exact ⟨⟨⟨hnot _ (.inr (.inr (.inl rfl))), hnot _ (.inr (.inr (.inr rfl)))⟩,
      hnot _ (.inr (.inl rfl))⟩, hnot _ (.inl rfl)⟩

theorem replaceEscapes_of_not_mem (h : backslash ∉ text) : replaceEscapes text = text :=
  (replaceEscapes_eq_iff text).mpr fun ⟨_, _, hfound⟩ => h (hfound.mem (by simp))

/-- An argument as it is read. -/
def Argument.read : Argument → List Char
  | literal l => replaceEscapes l.text
  | word w => trim w.chars

theorem cleanArg_quoted (quote : Quote) (text : List Char) :
    cleanArg (quote.char :: (text ++ [quote.char])) = replaceEscapes text := by
  have hwhite : isWhitespace quote.char = false := (endsMatch_of_isQuote quote.isQuote).1
  have htrim : trim ([] ++ quote.char :: (text ++ [quote.char])) =
      quote.char :: (text ++ [quote.char]) := trim_quoted hwhite (by simp) (by simp) text
  have hsurrounds : Surrounds quote.char (quote.char :: (text ++ [quote.char])) :=
    ⟨rfl, by rw [← List.cons_append, List.getLast?_concat]⟩
  have hquoted : Surrounds singleQuote (quote.char :: (text ++ [quote.char])) ∨
      Surrounds backQuote (quote.char :: (text ++ [quote.char])) ∨
      Surrounds doubleQuote (quote.char :: (text ++ [quote.char])) := by
    cases quote
    · exact .inl hsurrounds
    · exact .inr (.inr hsurrounds)
    · exact .inr (.inl hsurrounds)
  rw [List.nil_append] at htrim
  rw [cleanArg, htrim, if_pos hquoted, List.tail_cons, List.dropLast_concat]

theorem Literal.cleanArg_scanned (l : Literal) (before : Blank) :
    cleanArg (trim (before.chars ++ l.scanned)) = replaceEscapes l.text := by
  have hwhite : isWhitespace l.quote.char = false := (endsMatch_of_isQuote l.quote.isQuote).1
  rw [Literal.scanned, trim_quoted hwhite before.white l.after.white, cleanArg_quoted]

theorem Argument.cleanArg_scanned (a : Argument) : cleanArg (trim a.scanned) = a.read := by
  cases a with
  | literal l => exact l.cleanArg_scanned l.before
  | word w =>
    have hnot : ∀ quote, IsQuote quote → ¬ Surrounds quote (trim w.chars) := fun quote hquote h =>
      w.not_mem (fun hplain => hplain.2.1 hquote)
        (mem_of_mem_trim (List.mem_of_mem_head? h.1))
    rw [scanned, cleanArg, trim_trim, if_neg]
    · rfl
    · rintro (h | h | h)
      · exact hnot _ (.inr (.inl rfl)) h
      · exact hnot _ (.inr (.inr rfl)) h
      · exact hnot _ (.inl rfl) h

theorem Argument.read_type {a : Argument} (h : IsType a.value) : a.read = a.value := by
  cases a with
  | word w => rfl
  | literal l =>
    refine replaceEscapes_of_not_mem fun hmem => ?_
    rcases h with h | h
    · rw [value] at h
      rw [h] at hmem
      cases hmem
    · have hlower : backslash.toLower ∈ toLowerCase l.text := List.mem_map_of_mem hmem
      have hnot : ∀ type ∈ argumentTypes, backslash.toLower ∉ type := by decide
      exact hnot _ h hlower

section Reading

variable {Number Json : Type} (conversions : Conversions Number Json)

/-- What is read for a call. -/
def Call.entry (call : Call) : FromAIArgument Number Json :=
  { key := replaceEscapes call.key.text
    description := some (replaceEscapes call.description.text)
    type := (call.more.map Argument.read)[0]?.getD "string".toList
    defaultValue := parseDefaultValue conversions (call.more.map Argument.read)[1]? }

theorem Call.parseArguments_body (call : Call) :
    parseArguments conversions call.body = .ok (call.entry conversions) := by
  have hclean : (splitArguments call.body).map cleanArg =
      replaceEscapes call.key.text :: replaceEscapes call.description.text ::
        call.more.map Argument.read := by
    rw [call.split_body, List.map_map, List.map_cons, List.map_map, List.map_cons]
    refine congrArg₂ List.cons (call.key.cleanArg_scanned ⟨[], by simp⟩)
      (congrArg₂ List.cons (Argument.literal call.description).cleanArg_scanned ?_)
    exact List.map_congr_left fun a _ => a.cleanArg_scanned
  have htype : toLowerCase (((call.more.map Argument.read)[0]?.filter (· ≠ [])).getD
      "string".toList) ∈ argumentTypes := by
    cases hmore : call.more with
    | nil => decide
    | cons a more =>
      have htyped := call.typed a (by rw [hmore]; rfl)
      rw [List.map_cons, List.getElem?_cons_zero, a.read_type htyped]
      by_cases hempty : a.value = []
      · rw [hempty]
        decide
      · rw [Option.filter_some, if_pos (by simpa using hempty)]
        exact htyped.resolve_left hempty
  rw [parseArguments, hclean]
  exact if_pos htype

theorem Call.parseCall_body (call : Call) (rest : List Char) :
    parseCall conversions (call.body ++ ')' :: rest) = .ok (call.entry conversions) := by
  rw [parseCall, call.scan_body]
  dsimp only
  rw [call.parseArguments_body]
  rfl

theorem mapM_bodies {calls : List (PlainText × Call)} {found : List (List Char)}
    (h : List.Forall₂ (fun part behind => ∃ rest, behind = part.2.body ++ ')' :: rest) calls
      found) :
    found.mapM (parseCall conversions) = .ok (calls.map fun part => part.2.entry conversions) := by
  induction h with
  | nil => rfl
  | cons hbody _ ih =>
    obtain ⟨rest, rfl⟩ := hbody
    rw [List.mapM_cons, Call.parseCall_body, ih]
    rfl

theorem extract_of_apart {document : Document} (h : ∀ part ∈ document.parts, part.2.Apart) :
    extractFromAICalls conversions document.print =
      .ok (document.calls.map (Call.entry conversions)) := by
  obtain ⟨-, -, hbodies⟩ := behindEvery_printParts document.parts document.last
  rw [extractFromAICalls, behindAll_eq separate_matchCall, Document.calls, List.map_map]
  exact mapM_bodies conversions (hbodies h)

theorem apart_of_length {document : Document} {entries : List (FromAIArgument Number Json)}
    (h : extractFromAICalls conversions document.print = .ok entries)
    (hlength : entries.length = document.parts.length) :
    ∀ part ∈ document.parts, part.2.Apart := by
  obtain ⟨-, hcount, -⟩ := behindEvery_printParts document.parts document.last
  rw [extractFromAICalls, behindAll_eq separate_matchCall] at h
  rw [← hcount, ← hlength, length_of_mapM h, Document.print]

/-- The call has no escapes in its key and its description. -/
def Call.Unescaped (call : Call) : Prop :=
  ¬ HasEscape call.key.text ∧ ¬ HasEscape call.description.text

theorem Call.entry_eq_iff (call : Call) :
    ((call.entry conversions).key, (call.entry conversions).description) =
      (call.key.text, some call.description.text) ↔ call.Unescaped := by
  rw [Prod.mk.injEq, Call.entry, Option.some.injEq, replaceEscapes_eq_iff, replaceEscapes_eq_iff]
  rfl

/-- The keys and the descriptions are read back exactly when no argument contains the start of a
call and no key or description has a backslash in front of a quote or of another backslash. -/
theorem calls_read_back_iff (document : Document) :
    (∃ entries, extractFromAICalls conversions document.print = .ok entries ∧
      entries.map (fun entry => (entry.key, entry.description)) =
        document.calls.map fun call => (call.key.text, some call.description.text)) ↔
    ∀ call ∈ document.calls, call.Apart ∧ call.Unescaped := by
  constructor
  · rintro ⟨entries, hentries, hmap⟩
    have hlength : entries.length = document.parts.length := by
      have hlength := congrArg List.length hmap
      rwa [List.length_map, List.length_map, Document.calls, List.length_map] at hlength
    have hapart := apart_of_length conversions hentries hlength
    rw [extract_of_apart conversions hapart] at hentries
    cases hentries
    rw [List.map_map] at hmap
    intro call hcall
    refine ⟨?_, (call.entry_eq_iff conversions).mp (List.map_inj_left.mp hmap call hcall)⟩
    obtain ⟨part, hpart, rfl⟩ := List.mem_map.mp hcall
    exact hapart part hpart
  · intro h
    refine ⟨_, extract_of_apart conversions fun part hpart =>
      (h part.2 (List.mem_map_of_mem hpart)).1, ?_⟩
    rw [List.map_map]
    exact List.map_congr_left fun call hcall =>
      (call.entry_eq_iff conversions).mpr (h call hcall).2

end Reading

/-- A call whose key has two backslashes. -/
def backslashCall : Document :=
  { parts := [(⟨[], not_contains_nil⟩,
      { space := ⟨[], List.forall_mem_nil _⟩
        key := ⟨⟨[], List.forall_mem_nil _⟩, .single, ['a', backslash, backslash, 'b'],
          ⟨[], List.forall_mem_nil _⟩⟩
        description := ⟨⟨[' '], List.forall_mem_singleton.mpr (by decide)⟩, .single, ['d'],
          ⟨[], List.forall_mem_nil _⟩⟩
        more := []
        typed := by simp })]
    last := ⟨[], not_contains_nil⟩ }

/-- A conversion that reads no numbers and no JSON. -/
def noConversions : Conversions Nat Nat := ⟨fun _ => none, fun _ => none⟩

/-- Only one of the two backslashes is read back. -/
theorem backslash_lost :
    extractFromAICalls noConversions backslashCall.print =
        .ok [⟨['a', backslash, 'b'], some ['d'], "string".toList, none⟩] ∧
      ¬ ∃ entries, extractFromAICalls noConversions backslashCall.print = .ok entries ∧
        entries.map (fun entry => (entry.key, entry.description)) =
          backslashCall.calls.map fun call => (call.key.text, some call.description.text) := by
  have hrun : extractFromAICalls noConversions backslashCall.print =
      .ok [⟨['a', backslash, 'b'], some ['d'], "string".toList, none⟩] := by decide +kernel
  refine ⟨hrun, fun ⟨entries, hentries, hmap⟩ => ?_⟩
  rw [hrun] at hentries
  cases hentries
  exact absurd hmap (by decide)

end N8n.FromAI
