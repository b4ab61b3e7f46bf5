import N8n.Text.Replace

/-!
# When expression segments round-trip

`scan` reads the next segment of an expression character by character, and `split_loop_eq`
says that one round of `splitLoop` after the other does the same. `Separable` states, chunk by
chunk, which texts survive being joined and split again: `split_join_iff` shows that
`splitExpression` undoes `joinExpression` on exactly those lists of chunks.
-/

namespace N8n.Expression

open Text

/-! ## Expression segments

`splitExpression` and `joinExpression` of
`packages/workflow/src/extensions/expression-parser.ts`. An expression alternates between text
and code in double braces. Splitting runs one of two regular expressions over what is left of
the expression, each of which finds the next bracket together with a backslash right before
it; joining escapes closing brackets in the code. Texts are lists of characters.
-/

/-- An `ExpressionChunk`. The flag of a code chunk is its `hasClosingBrackets`. -/
inductive ExpressionChunk where
  | text (text : List Char)
  | code (text : List Char) (hasClosingBrackets : Bool)
  deriving DecidableEq, Repr

/-- The state variable `searchingFor`, which also selects the active regular expression. -/
inductive SearchingFor where
  | open
  | close
  deriving DecidableEq, Repr

/-- The brace that the active regular expression looks for twice in a row. -/
def SearchingFor.brace : SearchingFor → Char
  | .open => '{'
  | .close => '}'

/-- The state after a bracket was found. -/
def SearchingFor.other : SearchingFor → SearchingFor
  | .open => .close
  | .close => .open

/-- `/(?<escape>\\|)(?<brackets>bb)/.exec(text)`: the position of the leftmost match, and
whether its `escape` group holds a backslash. -/
def execBracket (b : Char) : List Char → Option (Nat × Bool)
  | [] => none
  | c :: rest =>
    if ['\\', b, b] <+: c :: rest then some (0, true)
    else if [b, b] <+: c :: rest then some (0, false)
    else (execBracket b rest).map fun (index, escape) => (index + 1, escape)

/-- `escapeCode`: despite its name it takes one backslash away. -/
def escapeCode (text : List Char) : List Char :=
  replaceFirst ['\\', '}', '}'] ['}', '}'] text

/-- The chunk pushed for a buffer when a bracket was found, or when none is left. -/
def SearchingFor.chunk (searchingFor : SearchingFor) (buffer : List Char)
    (hasClosingBrackets : Bool) : ExpressionChunk :=
  match searchingFor with
  | .open => .text buffer
  | .close => .code (escapeCode buffer) hasClosingBrackets

/-- The loop of `splitExpression` on what is left of the expression, for at most `fuel`
rounds. A round that reaches the end of the expression leaves the loop without pushing the
buffer. -/
def splitLoop : Nat → SearchingFor → List Char → List Char → List ExpressionChunk
  | 0, _, _, _ => []
  | fuel + 1, searchingFor, buffer, expr =>
    if expr = [] then []
    else match execBracket searchingFor.brace expr with
      | none => [searchingFor.chunk (buffer ++ expr) false]
      | some (index, true) =>
        splitLoop fuel searchingFor (buffer ++ expr.take (index + 3)) (expr.drop (index + 3))
      | some (index, false) =>
        searchingFor.chunk (buffer ++ expr.take index) true ::
          splitLoop fuel searchingFor.other [] (expr.drop (index + 2))

/-- `splitExpression`. Every round shortens the expression, so its length bounds the rounds. -/
def splitExpression (expression : List Char) : List ExpressionChunk :=
  splitLoop expression.length .open [] expression

/-- `escapeTmplExpression`. -/
def escapeTmplExpression (part : List Char) : List Char :=
  replaceFirst ['}', '}'] ['\\', '}', '}'] part

/-- What `joinExpression` writes for one chunk. -/
def ExpressionChunk.join : ExpressionChunk → List Char
  | .text content => content
  | .code content hasClosingBrackets =>
    ['{', '{'] ++ escapeTmplExpression content ++ if hasClosingBrackets then ['}', '}'] else []

/-- `joinExpression`. -/
def joinExpression (parts : List ExpressionChunk) : List Char :=
  parts.flatMap ExpressionChunk.join

/-! ## One segment at a time -/

/-- What the loop makes of the rest of an expression up to the next unescaped bracket. -/
inductive Segment where
  /-- An unescaped bracket with what stands before and after it. -/
  | bracket (before after : List Char)
  /-- No unescaped bracket, and a last chunk is pushed. -/
  | unclosed (text : List Char)
  /-- The end comes right after an escaped bracket, or at once: nothing is pushed. -/
  | dropped
  deriving DecidableEq, Repr

/-- Put characters in front of a segment. -/
def Segment.prepend (front : List Char) : Segment → Segment
  | .bracket before after => .bracket (front ++ before) after
  | .unclosed rest => .unclosed (front ++ rest)
  | .dropped => .dropped

/-- The next segment for the brace `b`, read character by character. -/
def scan (b : Char) : List Char → Segment
  | [] => .dropped
  | [c] => .unclosed [c]
  | [c, d] => if c = b ∧ d = b then .bracket [] [] else .unclosed [c, d]
  | c :: d :: e :: rest =>
    if c = '\\' ∧ d = b ∧ e = b then (scan b rest).prepend [c, d, e]
    else if c = b ∧ d = b then .bracket [] (e :: rest)
    else (scan b (d :: e :: rest)).prepend [c]

/-- Read from the left, every bracket in `text` is escaped, and `last` accepts its last
character outside an escaped bracket (`none` when there is no such character). -/
def fits (b : Char) (last : Option Char → Bool) : List Char → Bool
  | [] => last none
  | [c] => last (some c)
  | [c, d] => !(c = b ∧ d = b) && last (some d)
  | c :: d :: e :: rest =>
    if c = '\\' ∧ d = b ∧ e = b then fits b last rest
    else !(c = b ∧ d = b) && fits b last (d :: e :: rest)

/-- Every bracket in `text` is escaped. -/
def bracketsEscaped (b : Char) : List Char → Bool :=
  fits b fun _ => true

/-- `text` may stand right before a bracket: its brackets are escaped, and neither a backslash
nor a brace at its end joins with the bracket. -/
def fitsBefore (b : Char) : List Char → Bool :=
  fits b fun
    | none => true
    | some c => c ≠ '\\' && c ≠ b

/-- `text` may stand at the end of the expression: its brackets are escaped, and it does not
end with one of them. -/
def fitsAtEnd (b : Char) : List Char → Bool :=
  fits b fun
    | none => false
    | some _ => true


/-! ## The scanner and the regular expressions -/

variable {b : Char} {expr : List Char}

@[simp] theorem Segment.prepend_nil (s : Segment) : s.prepend [] = s := by
  cases s <;> rfl

@[simp] theorem Segment.prepend_prepend (front back : List Char) (s : Segment) :
    (s.prepend back).prepend front = s.prepend (front ++ back) := by
  cases s <;> simp [prepend]

variable {c d : Char} {rest : List Char}

theorem escaped_prefix_iff {e : Char} :
    ['\\', b, b] <+: c :: d :: e :: rest ↔ c = '\\' ∧ d = b ∧ e = b := by
  simp only [List.cons_prefix_cons, List.nil_prefix, and_true]
  exact ⟨fun ⟨hc, hd, he⟩ => ⟨hc.symm, hd.symm, he.symm⟩,
    fun ⟨hc, hd, he⟩ => ⟨hc.symm, hd.symm, he.symm⟩⟩

theorem bracket_prefix_iff : [b, b] <+: c :: d :: rest ↔ c = b ∧ d = b := by
  simp only [List.cons_prefix_cons, List.nil_prefix, and_true]
  exact ⟨fun ⟨hc, hd⟩ => ⟨hc.symm, hd.symm⟩, fun ⟨hc, hd⟩ => ⟨hc.symm, hd.symm⟩⟩

/-- The scanner passes over a character that starts no match of the regular expression. -/
theorem scan_cons (hrest : rest ≠ []) (hescape : ¬ ['\\', b, b] <+: c :: rest)
    (hbracket : ¬ [b, b] <+: c :: rest) : scan b (c :: rest) = (scan b rest).prepend [c] := by
  match rest with
  | [] => exact absurd rfl hrest
  | [d] =>
    rw [bracket_prefix_iff] at hbracket
    simp [scan, hbracket, Segment.prepend]
  | d :: e :: rest =>
    rw [escaped_prefix_iff] at hescape
    rw [bracket_prefix_iff] at hbracket
    simp [scan, hescape, hbracket]

/-- What the regular expression finds, in terms of the scanner. -/
theorem scan_of_exec (hne : expr ≠ []) :
    scan b expr = match execBracket b expr with
      | none => .unclosed expr
      | some (index, true) => (scan b (expr.drop (index + 3))).prepend (expr.take (index + 3))
      | some (index, false) => .bracket (expr.take index) (expr.drop (index + 2)) := by
  induction expr with
  | nil => exact absurd rfl hne
  | cons c rest ih =>
    by_cases hescape : ['\\', b, b] <+: c :: rest
    · obtain ⟨tail, htail⟩ := hescape
      rw [← htail]
      simp [execBracket, scan]
    by_cases hbracket : [b, b] <+: c :: rest
    · simp only [execBracket, hescape, hbracket, if_true, if_false]
      obtain ⟨tail, htail⟩ := hbracket
      have hc : b ≠ '\\' ∨ tail.head? ≠ some b := by
        by_contra hboth
        push Not at hboth
        obtain ⟨hb, ht⟩ := hboth
        obtain ⟨tail', rfl⟩ : ∃ tail', tail = b :: tail' := by
          cases tail with
          | nil => simp at ht
          | cons t tail' => exact ⟨tail', by simpa using ht⟩
        exact hescape (htail ▸ hb ▸ ⟨tail', by simp⟩)
      rw [← htail]
      cases tail with
      | nil => simp [scan]
      | cons e tail =>
        have : ¬ (b = '\\' ∧ e = b) := by
          rintro ⟨hb, he⟩
          rcases hc with h | h
          · exact h hb
          · exact h (by simp [he])
        simp [scan, this]
    · simp only [execBracket, hescape, hbracket, if_false]
      by_cases hrest : rest = []
      · subst hrest
        simp [execBracket, scan]
      · rw [scan_cons hrest hescape hbracket, ih hrest]
        cases execBracket b rest with
        | none => simp [Segment.prepend]
        | some found =>
          obtain ⟨index, escape⟩ := found
          cases escape with
          | false => simp [Segment.prepend]
          | true => simp

/-- Splitting what follows a bracket, or the start of the expression. -/
def splitFrom (searchingFor : SearchingFor) (expr : List Char) : List ExpressionChunk :=
  splitLoop expr.length searchingFor [] expr

/-- The chunks that the loop makes of a segment, after what its buffer already holds. -/
def Segment.chunks (searchingFor : SearchingFor) (buffer : List Char) :
    Segment → List ExpressionChunk
  | .bracket before after =>
    searchingFor.chunk (buffer ++ before) true :: splitFrom searchingFor.other after
  | .unclosed rest => [searchingFor.chunk (buffer ++ rest) false]
  | .dropped => []

theorem chunks_prepend (searchingFor : SearchingFor) (buffer front : List Char) (s : Segment) :
    (s.prepend front).chunks searchingFor buffer = s.chunks searchingFor (buffer ++ front) := by
  cases s <;> simp [Segment.prepend, Segment.chunks]

variable {searchingFor : SearchingFor}

/-- With rounds enough for the length of the expression, the loop yields the chunks of the
next segment and then those of the rest. -/
theorem split_loop_eq {fuel : Nat} {buffer expr : List Char} (hfuel : expr.length ≤ fuel) :
    splitLoop fuel searchingFor buffer expr =
      (scan searchingFor.brace expr).chunks searchingFor buffer := by
  induction hn : expr.length using Nat.strong_induction_on
    generalizing fuel searchingFor buffer expr with
  | _ n ih =>
    cases fuel with
    | zero =>
      obtain rfl := List.eq_nil_of_length_eq_zero (Nat.le_zero.mp hfuel)
      simp [splitLoop, scan, Segment.chunks]
    | succ fuel =>
      by_cases hne : expr = []
      · subst hne
        simp [splitLoop, scan, Segment.chunks]
      have hpos := List.length_pos_iff.mpr hne
      rw [splitLoop, if_neg hne, scan_of_exec hne]
      cases execBracket searchingFor.brace expr with
      | none => simp [Segment.chunks]
      | some found =>
        obtain ⟨index, escape⟩ := found
        cases escape with
        | true =>
          have hlen : (expr.drop (index + 3)).length < n := by
            rw [List.length_drop]; omega
          rw [chunks_prepend]
          exact ih _ hlen (by omega) rfl
        | false =>
          have hlen : (expr.drop (index + 2)).length < n := by
            rw [List.length_drop]; omega
          simp only [Segment.chunks, splitFrom]
          rw [ih _ hlen (by omega) rfl, ih _ hlen le_rfl rfl]

theorem split_from_eq (searchingFor : SearchingFor) (expr : List Char) :
    splitFrom searchingFor expr = (scan searchingFor.brace expr).chunks searchingFor [] :=
  split_loop_eq le_rfl

/-! ## Texts that fit in front of a bracket or at the end -/

theorem scan_parts (b : Char) (expr : List Char) : match scan b expr with
    | .bracket before after => expr = before ++ b :: b :: after
    | .unclosed rest => expr = rest
    | .dropped => True := by
  induction expr using scan.induct b with
  | case1 => trivial
  | case2 c => rfl
  | case3 c d h =>
    simp only [scan, h, and_self, if_true, List.nil_append]
  | case4 c d h => simp [scan, h]
  | case5 c d e rest h ih =>
    obtain ⟨rfl, rfl, rfl⟩ := h
    simp only [scan, and_self, if_true]
    cases hs : scan e rest with
    | bracket before after => simpa [hs, Segment.prepend] using ih
    | unclosed rest => simpa [hs, Segment.prepend] using ih
    | dropped => simp [Segment.prepend]
  | case6 c d e rest h hb =>
    obtain ⟨rfl, rfl⟩ := hb
    rw [scan, if_neg h, if_pos ⟨rfl, rfl⟩]
    rfl
  | case7 c d e rest h hb ih =>
    simp only [scan, h, hb, if_false]
    cases hs : scan b (d :: e :: rest) with
    | bracket before after => simpa [hs, Segment.prepend] using ih
    | unclosed rest => simpa [hs, Segment.prepend] using ih
    | dropped => simp [Segment.prepend]

variable {after before : List Char}

theorem prepend_eq_bracket_iff (front : List Char) {s : Segment} :
    s.prepend front = .bracket (front ++ before) after ↔ s = .bracket before after := by
  cases s <;> simp [Segment.prepend]

theorem scan_escaped (rest : List Char) :
    scan b ('\\' :: b :: b :: rest) = (scan b rest).prepend ['\\', b, b] := by
  simp [scan]

theorem scan_bracket (hb : b ≠ '\\') (rest : List Char) :
    scan b (b :: b :: rest) = .bracket [] rest := by
  cases rest with
  | nil => simp [scan]
  | cons e rest => simp [scan, hb]

/-- The scanner passes over a character that belongs to no bracket. -/
theorem scan_skip {e : Char} (hescape : ¬ (c = '\\' ∧ d = b ∧ e = b)) (hbare : ¬ (c = b ∧ d = b))
    (rest : List Char) : scan b (c :: d :: e :: rest) = (scan b (d :: e :: rest)).prepend [c] := by
  rw [scan, if_neg hescape, if_neg hbare]

theorem scan_append_bracket_iff (hb : b ≠ '\\') (text rest : List Char) :
    scan b (text ++ b :: b :: rest) = .bracket text rest ↔ fitsBefore b text = true := by
  unfold fitsBefore
  induction text using fits.induct b with
  | case1 => simp [scan_bracket hb, fits]
  | case2 c =>
    by_cases hescape : c = '\\'
    · subst hescape
      -- the backslash escapes the bracket that follows
      rw [List.singleton_append, scan_escaped]
      cases scan b rest <;> simp [Segment.prepend, fits]
    · by_cases hc : c = b
      · subst hc
        simp [scan_bracket hb, fits]
      · have hskip : scan b (c :: b :: b :: rest) = (scan b (b :: b :: rest)).prepend [c] :=
          scan_skip (by simp [hescape]) (by simp [hc]) rest
        simp [hskip, scan_bracket hb, Segment.prepend, fits, hescape, hc]
  | case3 c d =>
    by_cases hescape : c = '\\' ∧ d = b
    · obtain ⟨rfl, rfl⟩ := hescape
      rw [List.cons_append, List.singleton_append, scan_escaped]
      cases scan d (d :: rest) <;> simp [Segment.prepend, fits]
    by_cases hbare : c = b ∧ d = b
    · obtain ⟨rfl, rfl⟩ := hbare
      simp [scan_bracket hb, fits]
    have hskip : scan b (c :: d :: b :: b :: rest) = (scan b (d :: b :: b :: rest)).prepend [c] :=
      scan_skip (by simpa using hescape) hbare (b :: rest)
    by_cases hd : d = '\\'
    · subst hd
      simp only [List.cons_append, List.nil_append, hskip, scan_escaped]
      cases scan b rest <;> simp [Segment.prepend, fits]
    by_cases hdb : d = b
    · subst hdb
      simp [hskip, scan_bracket hb, Segment.prepend, fits]
    have hskip' : scan b (d :: b :: b :: rest) = (scan b (b :: b :: rest)).prepend [d] :=
      scan_skip (by simp [hd]) (by simp [hdb]) rest
    simp [hskip, hskip', scan_bracket hb, Segment.prepend, fits, hd, hdb]
  | case4 c d e tail h ih =>
    obtain ⟨rfl, rfl, rfl⟩ := h
    have hfits : ∀ last, fits e last ('\\' :: e :: e :: tail) = fits e last tail := by
      intro last; simp [fits]
    rw [hfits, ← ih, List.cons_append, List.cons_append, List.cons_append, scan_escaped]
    exact prepend_eq_bracket_iff ['\\', e, e]
  | case5 c d e tail h ih =>
    by_cases hbare : c = b ∧ d = b
    · obtain ⟨rfl, rfl⟩ := hbare
      have hfits : ∀ last, fits d last (d :: d :: e :: tail) = false := by
        intro last; simp [fits, hb]
      simp [scan_bracket hb, hfits]
    · have hfits : ∀ last, fits b last (c :: d :: e :: tail) = fits b last (d :: e :: tail) := by
        intro last; simp [fits, h, hbare]
      rw [hfits, ← ih, List.cons_append, List.cons_append, List.cons_append,
        scan_skip h hbare]
      exact prepend_eq_bracket_iff [c]

theorem scan_unclosed_iff (text : List Char) :
    scan b text = .unclosed text ↔ fitsAtEnd b text = true := by
  unfold fitsAtEnd
  induction text using fits.induct b with
  | case1 => simp [scan, fits]
  | case2 c => simp [scan, fits]
  | case3 c d => by_cases hbare : c = b ∧ d = b <;> simp [scan, fits, hbare]
  | case4 c d e tail h ih =>
    obtain ⟨rfl, rfl, rfl⟩ := h
    simp only [scan, fits, and_self, if_true, ← ih]
    cases scan e tail <;> simp [Segment.prepend]
  | case5 c d e tail h ih =>
    by_cases hbare : c = b ∧ d = b
    · obtain ⟨rfl, rfl⟩ := hbare
      rw [scan, fits, if_neg h, if_neg h, if_pos ⟨rfl, rfl⟩]
      simp
    · simp only [scan, fits, h, hbare, if_false, decide_false, Bool.not_false, Bool.true_and,
        ← ih]
      cases scan b (d :: e :: tail) <;> simp [Segment.prepend]

theorem brackets_escaped_of_fits {last : Option Char → Bool} {text : List Char}
    (h : fits b last text = true) : bracketsEscaped b text = true := by
  unfold bracketsEscaped
  induction text using fits.induct b with
  | case1 => rfl
  | case2 c => rfl
  | case3 c d =>
    simp only [fits, Bool.and_eq_true] at h ⊢
    exact ⟨h.1, trivial⟩
  | case4 c d e tail hescape ih =>
    simp only [fits, hescape, and_self, if_true] at h ⊢
    exact ih h
  | case5 c d e tail hescape ih =>
    simp only [fits, hescape, if_false, Bool.and_eq_true] at h ⊢
    exact ⟨h.1, ih h.2⟩

theorem escaped_infix_of_scan (h : scan b expr = .bracket before after) (hin : [b, b] <:+: before) :
    ['\\', b, b] <:+: before := by
  induction expr using scan.induct b generalizing before with
  | case1 => simp [scan] at h
  | case2 c => simp [scan] at h
  | case3 c d hbare =>
    simp only [scan, hbare, and_self, if_true, Segment.bracket.injEq] at h
    rw [← h.1] at hin
    simp at hin
  | case4 c d hbare => simp [scan, hbare] at h
  | case5 c d e rest hescape ih =>
    obtain ⟨rfl, rfl, rfl⟩ := hescape
    rw [scan_escaped] at h
    cases hs : scan e rest <;> simp only [hs, Segment.prepend, reduceCtorEq] at h
    cases h
    exact (List.prefix_append ['\\', e, e] _).isInfix
  | case6 c d e rest hescape hbare =>
    rw [scan, if_neg hescape, if_pos hbare] at h
    cases h
    simp at hin
  | case7 c d e rest hescape hbare ih =>
    rw [scan_skip hescape hbare] at h
    have hparts := scan_parts b (d :: e :: rest)
    cases hs : scan b (d :: e :: rest) <;> simp only [hs, Segment.prepend, reduceCtorEq] at h
    cases h
    simp only [hs] at hparts
    rcases List.infix_cons_iff.mp hin with hpre | htail
    · -- the first two characters were no bracket
      cases hb : ‹List Char› with
      | nil => simp [hb] at hpre
      | cons d' before =>
        rw [hb] at hparts hpre
        obtain ⟨rfl, -⟩ := List.cons.inj hparts
        exact absurd (bracket_prefix_iff.mp hpre) hbare
    · exact List.infix_cons (ih hs htail)

/-! ## Escaping and unescaping code -/

theorem escape_tmpl_not_prefix (code : List Char) :
    ¬ ['}', '}'] <+: escapeTmplExpression code := by
  match code with
  | [] => simp [escapeTmplExpression, replaceFirst]
  | [c] => simp [escapeTmplExpression, replaceFirst]
  | c :: d :: rest =>
    by_cases hpre : ['}', '}'] <+: c :: d :: rest
    · simp [escapeTmplExpression, replaceFirst, hpre]
    · by_cases htail : ['}', '}'] <+: d :: rest
      · simp [escapeTmplExpression, replaceFirst, hpre, htail]
      · have hstep : escapeTmplExpression (c :: d :: rest) =
            c :: d :: replaceFirst ['}', '}'] ['\\', '}', '}'] rest := by
          rw [escapeTmplExpression, replaceFirst, if_neg hpre, replaceFirst, if_neg htail]
        rw [hstep, bracket_prefix_iff]
        exact fun h => hpre (bracket_prefix_iff.mpr h)

theorem escape_code_escape_tmpl (code : List Char) :
    escapeCode (escapeTmplExpression code) = code := by
  induction code with
  | nil => rfl
  | cons c rest ih =>
    by_cases hpre : ['}', '}'] <+: c :: rest
    · obtain ⟨tail, htail⟩ := hpre
      rw [← htail]
      simp [escapeCode, escapeTmplExpression, replaceFirst]
    · have hstep : escapeTmplExpression (c :: rest) = c :: escapeTmplExpression rest := by
        simp [escapeTmplExpression, replaceFirst, hpre]
      have hnot : ¬ ['\\', '}', '}'] <+: c :: escapeTmplExpression rest := by
        intro h
        exact escape_tmpl_not_prefix rest (List.cons_prefix_cons.mp h).2
      rw [hstep, escapeCode, replaceFirst, if_neg hnot]
      exact congrArg (c :: ·) ih

/-- A buffer that unescapes to the code is the escaped code itself, because both start the
same expression and have the same length. -/
theorem eq_escape_tmpl_of_escape_code {code whole : List Char} (hscan : scan '}' whole = .bracket
    before after) (hpre : escapeTmplExpression code <+: whole) (h : escapeCode before = code) :
    before = escapeTmplExpression code := by
  have hbefore : before <+: whole := by
    have hparts := scan_parts '}' whole
    simp only [hscan] at hparts
    exact hparts ▸ List.prefix_append _ _
  by_cases hesc : ['\\', '}', '}'] <:+: before
  · have hin : ['}', '}'] <:+: code := h ▸ replacement_infix (by simp) hesc
    have hlen : (escapeCode before).length + 3 = before.length + 2 :=
      length_replace_first (by simp) hesc
    have hlen' : (escapeTmplExpression code).length + 2 = code.length + 3 :=
      length_replace_first (by simp) hin
    have heq : before.length = (escapeTmplExpression code).length := by rw [h] at hlen; omega
    exact (List.prefix_of_prefix_length_le hbefore hpre heq.le).eq_of_length heq
  · have hcode : before = code := by
      rw [← h]
      exact (replace_first_of_absent hesc).symm
    have hnot : ¬ ['}', '}'] <:+: code := by
      intro hin
      exact hesc (escaped_infix_of_scan hscan (hcode ▸ hin))
    rw [hcode]
    exact (replace_first_of_absent hnot).symm

/-! ## Splitting what was joined -/

/-- The chunks that survive joining and splitting, read from a state of the splitter. Text and
code alternate; a chunk with a bracket after it fits before that bracket; the last chunk, when
it has no bracket after it, fits at the end; code is looked at as `joinExpression` escapes
it. -/
def Separable : SearchingFor → List ExpressionChunk → Prop
  | _, [] => True
  | .open, [.text content] => fitsAtEnd '{' content = true
  | .open, .text content :: rest => fitsBefore '{' content = true ∧ Separable .close rest
  | .close, .code content true :: rest =>
    fitsBefore '}' (escapeTmplExpression content) = true ∧ Separable .open rest
  | .close, [.code content false] => fitsAtEnd '}' (escapeTmplExpression content) = true
  | _, _ => False

/-- What `joinExpression` writes for chunks that follow an opening bracket, or that do not. -/
def joinFrom : SearchingFor → List ExpressionChunk → List Char
  | .open, parts => joinExpression parts
  | .close, parts => (joinExpression parts).drop 2

theorem split_text_last (content : List Char) :
    splitFrom .open content = [.text content] ↔ fitsAtEnd '{' content = true := by
  rw [← scan_unclosed_iff, split_from_eq]
  have hparts := scan_parts '{' content
  change (scan '{' content).chunks .open [] = _ ↔ _
  cases hs : scan '{' content with
  | bracket before after =>
    simp only [hs] at hparts
    simp only [Segment.chunks, SearchingFor.chunk, List.nil_append, reduceCtorEq, iff_false]
    rintro h
    have hlen := congrArg List.length hparts
    have : before = content := by simpa using (List.cons.inj h).1
    simp [this] at hlen
  | unclosed rest => simp [Segment.chunks, SearchingFor.chunk]
  | dropped => simp [Segment.chunks]

theorem split_text_bracket (content rest : List Char) (parts : List ExpressionChunk) :
    splitFrom .open (content ++ '{' :: '{' :: rest) = .text content :: parts ↔
      fitsBefore '{' content = true ∧ splitFrom .close rest = parts := by
  rw [← scan_append_bracket_iff (by decide) content rest, split_from_eq]
  have hparts := scan_parts '{' (content ++ '{' :: '{' :: rest)
  change (scan '{' _).chunks .open [] = _ ↔ _
  cases hs : scan '{' (content ++ '{' :: '{' :: rest) with
  | bracket before after =>
    simp only [hs] at hparts
    simp only [Segment.chunks, SearchingFor.chunk, List.nil_append, List.cons.injEq,
      ExpressionChunk.text.injEq, Segment.bracket.injEq, SearchingFor.other]
    constructor
    · rintro ⟨rfl, hsplit⟩
      have hafter : rest = after := by simpa using hparts
      exact ⟨⟨rfl, hafter.symm⟩, hafter ▸ hsplit⟩
    · rintro ⟨⟨rfl, rfl⟩, hsplit⟩
      exact ⟨rfl, hsplit⟩
  | unclosed whole =>
    simp only [hs] at hparts
    simp only [Segment.chunks, SearchingFor.chunk, List.nil_append, List.cons.injEq,
      ExpressionChunk.text.injEq, reduceCtorEq, false_and, iff_false]
    rintro ⟨rfl, -⟩
    simpa using congrArg List.length hparts
  | dropped => simp [Segment.chunks]

theorem split_code_closed (content rest : List Char) (parts : List ExpressionChunk) :
    splitFrom .close (escapeTmplExpression content ++ '}' :: '}' :: rest) =
        .code content true :: parts ↔
      fitsBefore '}' (escapeTmplExpression content) = true ∧ splitFrom .open rest = parts := by
  rw [← scan_append_bracket_iff (by decide) _ rest, split_from_eq]
  have hparts := scan_parts '}' (escapeTmplExpression content ++ '}' :: '}' :: rest)
  change (scan '}' _).chunks .close [] = _ ↔ _
  cases hs : scan '}' (escapeTmplExpression content ++ '}' :: '}' :: rest) with
  | bracket before after =>
    simp only [hs] at hparts
    simp only [Segment.chunks, SearchingFor.chunk, List.nil_append, List.cons.injEq,
      ExpressionChunk.code.injEq, and_true, Segment.bracket.injEq, SearchingFor.other]
    constructor
    · rintro ⟨hcode, hsplit⟩
      have hbefore := eq_escape_tmpl_of_escape_code hs (List.prefix_append _ _) hcode
      have hafter : rest = after := by simpa [hbefore] using hparts
      exact ⟨⟨hbefore, hafter.symm⟩, hafter ▸ hsplit⟩
    · rintro ⟨⟨rfl, rfl⟩, hsplit⟩
      exact ⟨escape_code_escape_tmpl content, hsplit⟩
  | unclosed whole => simp [Segment.chunks, SearchingFor.chunk]
  | dropped => simp [Segment.chunks]

theorem split_code_last (content : List Char) :
    splitFrom .close (escapeTmplExpression content) = [.code content false] ↔
      fitsAtEnd '}' (escapeTmplExpression content) = true := by
  rw [← scan_unclosed_iff, split_from_eq]
  have hparts := scan_parts '}' (escapeTmplExpression content)
  change (scan '}' _).chunks .close [] = _ ↔ _
  cases hs : scan '}' (escapeTmplExpression content) with
  | bracket before after => simp [Segment.chunks, SearchingFor.chunk]
  | unclosed whole =>
    simp only [hs] at hparts
    simp [Segment.chunks, SearchingFor.chunk, ← hparts, escape_code_escape_tmpl]
  | dropped => simp [Segment.chunks]

variable {parts : List ExpressionChunk}

theorem split_code_unclosed {expr content : List Char}
    (h : splitFrom .close expr = .code content false :: parts) : parts = [] := by
  rw [split_from_eq] at h
  cases hs : scan SearchingFor.close.brace expr <;>
    simp [hs, Segment.chunks, SearchingFor.chunk] at h
  exact h.2

theorem split_from_head {expr : List Char} {part : ExpressionChunk}
    (h : splitFrom searchingFor expr = part :: parts) :
    ∃ buffer closing, part = searchingFor.chunk buffer closing := by
  rw [split_from_eq] at h
  cases hs : scan searchingFor.brace expr with
  | bracket before after =>
    simp only [hs, Segment.chunks, List.cons.injEq] at h
    exact ⟨_, _, h.1.symm⟩
  | unclosed rest =>
    simp only [hs, Segment.chunks, List.cons.injEq] at h
    exact ⟨_, _, h.1.symm⟩
  | dropped => simp [hs, Segment.chunks] at h

theorem split_from_join_iff (searchingFor : SearchingFor) (parts : List ExpressionChunk) :
    splitFrom searchingFor (joinFrom searchingFor parts) = parts ↔
      Separable searchingFor parts := by
  induction parts generalizing searchingFor with
  | nil =>
    cases searchingFor <;>
      simp [joinFrom, joinExpression, splitFrom, splitLoop, Separable]
  | cons part rest ih =>
    cases searchingFor with
    | «open» =>
      cases part with
      | code content closing =>
        simp only [Separable, iff_false]
        intro h
        obtain ⟨_, _, hpart⟩ := split_from_head h
        cases hpart
      | text content =>
        cases rest with
        | nil => simpa [joinFrom, joinExpression, ExpressionChunk.join, Separable] using
            split_text_last content
        | cons next rest =>
          cases next with
          | text content' =>
            simp only [Separable, and_false, iff_false]
            intro h
            rw [split_from_eq] at h
            cases hs : scan SearchingFor.open.brace
                (joinFrom .open (.text content :: .text content' :: rest)) <;>
              simp only [hs, Segment.chunks, List.cons.injEq, reduceCtorEq,
                and_false] at h
            obtain ⟨_, _, hpart⟩ := split_from_head h.2
            cases hpart
          | code content' closing =>
            have hjoin :
                joinFrom .open (.text content :: .code content' closing :: rest) =
                  content ++
                    '{' :: '{' :: joinFrom .close (.code content' closing :: rest) := by
              simp [joinFrom, joinExpression, ExpressionChunk.join]
            rw [hjoin, split_text_bracket, ih .close]
            simp [Separable]
    | close =>
      cases part with
      | text content =>
        simp only [Separable, iff_false]
        intro h
        obtain ⟨_, _, hpart⟩ := split_from_head h
        cases hpart
      | code content closing =>
        cases closing with
        | true =>
          have hjoin : joinFrom .close (.code content true :: rest) =
              escapeTmplExpression content ++ '}' :: '}' :: joinFrom .open rest := by
            simp [joinFrom, joinExpression, ExpressionChunk.join]
          rw [hjoin, split_code_closed, ih .open, Separable]
        | false =>
          cases rest with
          | nil =>
            simpa [joinFrom, joinExpression, ExpressionChunk.join, Separable] using
              split_code_last content
          | cons next rest =>
            simp only [Separable, iff_false]
            intro h
            cases split_code_unclosed h

/-- Every closing bracket in a code chunk is escaped by `joinExpression`. -/
def CodeBracketsEscaped (parts : List ExpressionChunk) : Prop :=
  ∀ content closing, .code content closing ∈ parts →
    bracketsEscaped '}' (escapeTmplExpression content) = true

theorem code_brackets_escaped (h : Separable searchingFor parts) : CodeBracketsEscaped parts := by
  induction searchingFor, parts using Separable.induct with
  | case1 => intro content closing hmem; cases hmem
  | case2 content => intro content' closing hmem; simp at hmem
  | case3 content rest hrest ih =>
    simp only [Separable] at h
    intro content' closing hmem
    rcases List.mem_cons.mp hmem with hhead | htail
    · cases hhead
    · exact ih h.2 content' closing htail
  | case4 content rest ih =>
    simp only [Separable] at h
    intro content' closing hmem
    rcases List.mem_cons.mp hmem with hhead | htail
    · cases hhead
      exact brackets_escaped_of_fits h.1
    · exact ih h.2 content' closing htail
  | case5 content =>
    simp only [Separable] at h
    intro content' closing hmem
    cases List.mem_singleton.mp hmem
    exact brackets_escaped_of_fits h
  | case6 => simp [Separable] at h

/-- Splitting undoes joining, with every closing bracket in code escaped on the way, on exactly
the separable lists of chunks. -/
theorem split_join_iff (parts : List ExpressionChunk) :
    splitExpression (joinExpression parts) = parts ∧ CodeBracketsEscaped parts ↔
      Separable .open parts := by
  have hiff : splitExpression (joinExpression parts) = parts ↔ Separable .open parts :=
    split_from_join_iff .open parts
  exact ⟨fun h => hiff.mp h.1, fun h => ⟨hiff.mpr h, code_brackets_escaped h⟩⟩

/-- Of two closing brackets in code only the first is escaped, so the code ends at the
second. -/
theorem split_join_second_bracket :
    splitExpression (joinExpression [.text [], .code ['a', '}', '}', 'b', '}', '}', 'c'] true]) ≠
      [.text [], .code ['a', '}', '}', 'b', '}', '}', 'c'] true] := by
  decide

end N8n.Expression
