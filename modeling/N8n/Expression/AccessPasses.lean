import N8n.Expression.AccessPatterns

/-!
# The passes of the access patterns

What one pass of `applyAccessPatterns` does to a text in which its pattern matches nothing but
references: `pass_quoted` for the patterns with quotes around the name, `pass_dot` for the pattern
with a name after a dot, and `pass_brackets` for the callback of that pattern.
-/

namespace N8n.Expression

open Text

/-! ## Renamed references

What renaming a node does to the references in an expression. `RenamedText` says it without the
access patterns: each reference to the node is written as a reference to its new name, and
everything else stays. `OnlyReferences` says of a text that the access patterns find nothing but
references in it, pass by pass, each time with the references of the passes before renamed.
-/

section

/-! ### Renaming as a relation between texts -/

/-- A reference takes the place of another: in the same form, with the same quotes, or in
brackets instead of behind a dot. -/
inductive SameUse : Piece → Piece → Prop
  | quoted {form quote raw raw' closing} :
      SameUse (.quoted form quote raw closing) (.quoted form quote raw' closing)
  | dot {name name'} : SameUse (.dot name) (.dot name')
  | bracket {name quote raw'} : SameUse (.dot name) (.quoted .node quote raw' ']')

/-- The references to one node are replaced by references to another, which are read as such at
their places. -/
inductive RenamedPieces (g : Grammar) (currentName newName : List Char) :
    List Piece → List Piece → Prop
  | nil : RenamedPieces g currentName newName [] []
  | other {p rest rest'} : p.node? g ≠ some currentName →
      RenamedPieces g currentName newName rest rest' →
      RenamedPieces g currentName newName (p :: rest) (p :: rest')
  | reference {p p' rest rest'} : p.node? g = some currentName → SameUse p p' →
      p'.node? g = some newName → readReference g (textOf (p' :: rest')) = some p' →
      RenamedPieces g currentName newName rest rest' →
      RenamedPieces g currentName newName (p :: rest) (p' :: rest')

/-- In a text, the references to one node are replaced by references to another. -/
def RenamedText (g : Grammar) (currentName newName text text' : List Char) : Prop :=
  ∃ ps, RenamedPieces g currentName newName (pieces g text) ps ∧ textOf ps = text'

/-! ### The passes -/

/-- The pass that rewrites references of a quoted form. -/
def QuotedForm.pass : QuotedForm → Nat
  | call => 1
  | node => 2
  | items => 5

/-- The pass that rewrites references like a piece. -/
def Piece.pass : Piece → Nat
  | char _ => 0
  | quoted form _ _ _ => form.pass
  | dot _ => 3

/-- The text with which a piece names a node. -/
def Piece.spelled? : Piece → Option (List Char)
  | char _ => none
  | quoted _ _ raw _ => some raw
  | dot name => some name

/-- A space or a dot comes next. -/
def followed : List Piece → Bool
  | .char c :: _ => c ∈ separators
  | _ => false

variable (currentName newName : List Char)

/-- A piece after the first passes. The fourth, the callback, moves a name that is banned after a
dot into brackets if a space or a dot follows. -/
def Piece.after (pass : Nat) (isFollowed : Bool) : Piece → Piece
  | char c => char c
  | quoted form quote raw closing =>
    if raw = currentName ∧ form.pass ≤ pass then quoted form quote newName closing
    else quoted form quote raw closing
  | dot name =>
    if name = currentName ∧ 3 ≤ pass then
      if 4 ≤ pass ∧ hasDotNotationBannedChar newName ∧ isFollowed then
        quoted .node '"' newName ']'
      else dot newName
    else dot name

/-- The pieces after the first passes. -/
def afterPass (pass : Nat) : List Piece → List Piece
  | [] => []
  | p :: rest =>
    p.after currentName newName pass (followed rest) :: afterPass pass rest

/-- The text before a pass, with marks where the references start that the pass rewrites. -/
def markedFor (pass : Nat) : List Piece → List (Char × Bool)
  | [] => []
  | p :: rest =>
    (if p.spelled? = some currentName ∧ p.pass = pass then markFirst p.text
    else unmarked (p.after currentName newName (pass - 1) (followed rest)).text) ++
      markedFor pass rest

/-- The text before the callback, with marks on the dots before the new name. -/
def markedForBrackets : List Piece → List (Char × Bool)
  | [] => []
  | p :: rest =>
    (if p = .dot currentName then
      unmarked ['$', 'n', 'o', 'd', 'e'] ++ markFirst ('.' :: newName)
    else unmarked (p.after currentName newName 3 (followed rest)).text) ++
      markedForBrackets rest

/-- The text after all passes. -/
def renameReferences (g : Grammar) (text : List Char) : List Char :=
  textOf (afterPass currentName newName 5 (pieces g text))

/-- The name stands for itself in a reference like the piece. -/
def Piece.Plain (g : Grammar) : Piece → Prop
  | char _ => True
  | quoted _ quote raw _ => Literal quote raw ∧ g.literalValue raw = raw
  | dot name => g.identifier name

instance (g : Grammar) : DecidablePred (Piece.Plain g)
  | .char _ => inferInstanceAs (Decidable True)
  | .quoted _ _ _ _ => inferInstanceAs (Decidable (_ ∧ _))
  | .dot _ => inferInstanceAs (Decidable (_ = true))

/-- The references to the node can be written with the new name. -/
def Writable (g : Grammar) : List Piece → Prop
  | [] => True
  | p :: rest =>
    (p.spelled? = some currentName →
      (p.after currentName newName 5 (followed rest)).Plain g) ∧ Writable g rest

/-- Reading the pieces decides whether the references can be written. -/
def decideWritable (g : Grammar) : ∀ ps, Decidable (Writable currentName newName g ps)
  | [] => inferInstanceAs (Decidable True)
  | p :: rest =>
    have := decideWritable g rest
    inferInstanceAs (Decidable ((p.spelled? = some currentName →
      (p.after currentName newName 5 (followed rest)).Plain g) ∧
      Writable currentName newName g rest))

instance (g : Grammar) (ps : List Piece) : Decidable (Writable currentName newName g ps) :=
  decideWritable currentName newName g ps

/-- The passes find nothing but references to the node, and these can be renamed. -/
structure OnlyReferences (g : Grammar) (text : List Char) : Prop where
  spelled : ∀ p ∈ pieces g text, p.node? g = some currentName ↔ p.spelled? = some currentName
  writable : Writable currentName newName g (pieces g text)
  call : MatchesMarked (callAccess.replacePattern.rule currentName newName) 0
    (markedFor currentName newName 1 (pieces g text))
  node : MatchesMarked (bracketAccess.replacePattern.rule currentName newName) 0
    (markedFor currentName newName 2 (pieces g text))
  dot : MatchesMarked (dotAccess.replacePattern.rule currentName newName) 0
    (markedFor currentName newName 3 (pieces g text))
  brackets : currentName <:+: text → hasDotNotationBannedChar newName →
    dotOpening <:+: textOf (afterPass currentName newName 2 (pieces g text)) →
    MatchesMarked (bracketRule newName) 0 (markedForBrackets currentName newName (pieces g text))
  items : MatchesMarked (itemsAccess.replacePattern.rule currentName newName) 0
    (markedFor currentName newName 5 (pieces g text))

theorem only_references_iff (g : Grammar) (text : List Char) :
    OnlyReferences currentName newName g text ↔
      (∀ p ∈ pieces g text, p.node? g = some currentName ↔ p.spelled? = some currentName) ∧
      Writable currentName newName g (pieces g text) ∧
      MatchesMarked (callAccess.replacePattern.rule currentName newName) 0
        (markedFor currentName newName 1 (pieces g text)) ∧
      MatchesMarked (bracketAccess.replacePattern.rule currentName newName) 0
        (markedFor currentName newName 2 (pieces g text)) ∧
      MatchesMarked (dotAccess.replacePattern.rule currentName newName) 0
        (markedFor currentName newName 3 (pieces g text)) ∧
      (currentName <:+: text → hasDotNotationBannedChar newName →
        dotOpening <:+: textOf (afterPass currentName newName 2 (pieces g text)) →
        MatchesMarked (bracketRule newName) 0
          (markedForBrackets currentName newName (pieces g text))) ∧
      MatchesMarked (itemsAccess.replacePattern.rule currentName newName) 0
        (markedFor currentName newName 5 (pieces g text)) := by
  constructor
  · intro h
    exact ⟨h.spelled, h.writable, h.call, h.node, h.dot, h.brackets, h.items⟩
  · intro h
    obtain ⟨hspelled, hwritable, hcall, hnode, hdot, hbrackets, hitems⟩ := h
    exact ⟨hspelled, hwritable, hcall, hnode, hdot, hbrackets, hitems⟩

instance (g : Grammar) (text : List Char) :
    Decidable (OnlyReferences currentName newName g text) :=
  decidable_of_iff _ (only_references_iff currentName newName g text).symm

end

/-! ## What the patterns match -/

/-- The access pattern for references of a quoted form. -/
def QuotedForm.access : QuotedForm → AccessPattern
  | call => callAccess
  | node => bracketAccess
  | items => itemsAccess

variable {currentName newName : List Char} {g : Grammar} {text rest : List Char}
  {ps : List Piece} {form : QuotedForm} {quote closing : Char}

theorem QuotedForm.access_pattern (form : QuotedForm) :
    form.access.replacePattern = quotedPattern form.opening form.closings := by
  cases form with
  | call => rfl
  | node => rfl
  | items => rfl

theorem quoted_pattern_reference (hquote : quote ∈ quotes) (hclosing : closing ∈ form.closings) :
    quotedPattern form.opening form.closings currentName
        ((Piece.quoted form quote currentName closing).text ++ rest) =
      some (form.opening ++ [quote], [quote, closing]) := by
  have hopening : form.opening.isPrefixOf?
      ((Piece.quoted form quote currentName closing).text ++ rest) =
        some (quote :: (currentName ++ quote :: closing :: rest)) := by
    rw [List.isPrefixOf?_eq_some_iff_append_eq, Piece.text]
    simp
  have hname : currentName.isPrefixOf? (currentName ++ quote :: closing :: rest) =
      some (quote :: closing :: rest) := by
    rw [List.isPrefixOf?_eq_some_iff_append_eq]
  rw [quotedPattern, hopening]
  simp only [hquote, hname, hclosing, and_self, if_true]

theorem quoted_rule_reference (hquote : quote ∈ quotes) (hclosing : closing ∈ form.closings) :
    form.access.replacePattern.rule currentName newName
        ((Piece.quoted form quote currentName closing).text ++ rest) =
      some ((Piece.quoted form quote newName closing).text,
        (Piece.quoted form quote currentName closing).text.length - 1) := by
  rw [NamePattern.rule, form.access_pattern, quoted_pattern_reference hquote hclosing]
  simp only [Option.map_some, Piece.text, List.append_assoc, List.cons_append, List.nil_append,
    List.length_append, List.length_cons, List.length_nil]
  congr 2
  omega

theorem dot_pattern_reference :
    dotPattern currentName ((Piece.dot currentName).text ++ rest) =
      some (dotOpening, if rest.head? = some '.' then ['.'] else []) := by
  have hopening : dotOpening.isPrefixOf? ((Piece.dot currentName).text ++ rest) =
      some (currentName ++ rest) := by
    rw [List.isPrefixOf?_eq_some_iff_append_eq, Piece.text, List.append_assoc]
  have hname : currentName.isPrefixOf? (currentName ++ rest) = some rest := by
    rw [List.isPrefixOf?_eq_some_iff_append_eq]
  rw [dotPattern, hopening]
  simp only [hname]
  split
  · rename_i heq
    cases heq
    rfl
  · rename_i hne heq
    cases heq
    rw [if_neg]
    intro hhead
    cases rest with
    | nil => cases hhead
    | cons c rest => exact hne rest (by rw [Option.some.inj hhead])
  · rename_i heq
    cases heq

theorem opening_of_quoted_pattern {opening closings name : List Char}
    {groups : List Char × List Char} (h : quotedPattern opening closings name text = some groups) :
    opening <+: text := by
  unfold quotedPattern at h
  split at h
  · rename_i quote rest hopening
    rw [List.isPrefixOf?_eq_some_iff_append_eq] at hopening
    exact ⟨_, hopening⟩
  · cases h

/-! ## What one pass does -/

/-- A reference as it is read has its delimiters. -/
def Piece.Delimited : Piece → Prop
  | quoted form quote _ closing => quote ∈ quotes ∧ closing ∈ form.closings
  | _ => True

theorem ReadBack.delimited (h : ReadBack g ps) : ∀ p ∈ ps, p.Delimited := by
  induction ps with
  | nil => exact fun p hp => absurd hp List.not_mem_nil
  | cons p ps ih =>
    intro p' hp'
    cases p with
    | char c =>
      cases hp' with
      | head => trivial
      | tail _ hp' => exact ih h.2 p' hp'
    | dot name =>
      cases hp' with
      | head => trivial
      | tail _ hp' => exact ih h.2 p' hp'
    | quoted form quote raw closing =>
      cases hp' with
      | tail _ hp' => exact ih h.2 p' hp'
      | head =>
        obtain ⟨rest, -, hquoted | hdot⟩ := read_reference_eq_some h.1
        · obtain ⟨form', quote', raw', closing', heq, hquote, hclosing, -⟩ := hquoted
          cases heq
          exact ⟨hquote, hclosing⟩
        · obtain ⟨name, heq, -⟩ := hdot
          cases heq

theorem QuotedForm.pass_pos (form : QuotedForm) : 0 < form.pass := by
  cases form with
  | call => decide
  | node => decide
  | items => decide

variable {p : Piece} {isFollowed : Bool}

theorem after_before_pass {pass : Nat} (hspelled : p.spelled? = some currentName)
    (hpass : p.pass = pass) : p.after currentName newName (pass - 1) isFollowed = p := by
  cases p with
  | char c => rfl
  | quoted form quote raw closing =>
    have hpos := form.pass_pos
    have hform : form.pass = pass := hpass
    rw [Piece.after, if_neg (by omega)]
  | dot name =>
    have hthree : 3 = pass := hpass
    rw [Piece.after, if_neg (by omega)]

theorem after_other_pass {pass : Nat} (hfour : pass ≠ 4)
    (h : ¬ (p.spelled? = some currentName ∧ p.pass = pass)) :
    p.after currentName newName pass isFollowed =
      p.after currentName newName (pass - 1) isFollowed := by
  cases p with
  | char c => rfl
  | quoted form quote raw closing =>
    have hother : raw = currentName → form.pass ≠ pass := fun hraw hpass =>
      h ⟨congrArg some hraw, hpass⟩
    have hiff : (raw = currentName ∧ form.pass ≤ pass) ↔
        (raw = currentName ∧ form.pass ≤ pass - 1) := by
      refine and_congr_right fun hraw => ?_
      have := hother hraw
      omega
    simp only [Piece.after, hiff]
  | dot name =>
    have hother : name = currentName → 3 ≠ pass := fun hname hpass =>
      h ⟨congrArg some hname, hpass⟩
    have hiff : (name = currentName ∧ 3 ≤ pass) ↔ (name = currentName ∧ 3 ≤ pass - 1) := by
      refine and_congr_right fun hname => ?_
      have := hother hname
      omega
    have hbrackets : 4 ≤ pass ↔ 4 ≤ pass - 1 := by omega
    simp only [Piece.after, hiff, hbrackets]

theorem marked_for_text (pass : Nat) (ps : List Piece) :
    (markedFor currentName newName pass ps).map Prod.fst =
      textOf (afterPass currentName newName (pass - 1) ps) := by
  induction ps with
  | nil => rfl
  | cons p rest ih =>
    rw [markedFor, List.map_append, ih]
    show _ = (p.after _ _ _ _).text ++ textOf _
    split
    · rename_i hown
      rw [markFirst_fst, after_before_pass hown.1 hown.2]
    · rw [unmarked_fst]

theorem quoted_text_cons (form : QuotedForm) (quote closing : Char) (raw : List Char) :
    ∃ tail, (Piece.quoted form quote raw closing).text = '$' :: tail := by
  cases form with
  | call => exact ⟨_, rfl⟩
  | node => exact ⟨_, rfl⟩
  | items => exact ⟨_, rfl⟩

theorem quoted_of_pass (hspelled : p.spelled? = some currentName) (hpass : p.pass = form.pass) :
    ∃ quote closing, p = .quoted form quote currentName closing := by
  cases p with
  | char c => cases hspelled
  | dot name =>
    have hthree : 3 = form.pass := hpass
    cases form with
    | call => cases hthree
    | node => cases hthree
    | items => cases hthree
  | quoted form' quote raw closing =>
    cases hspelled
    have hform : form' = form := by
      have hpass' : form'.pass = form.pass := hpass
      revert hpass'
      cases form' <;> cases form <;> decide
    exact ⟨quote, closing, by rw [hform]⟩

variable {marked : List (Char × Bool)}

theorem replace_quoted_reference (hquote : quote ∈ quotes) (hclosing : closing ∈ form.closings)
    (h : MatchesMarked (form.access.replacePattern.rule currentName newName) 0
      (markFirst (Piece.quoted form quote currentName closing).text ++ marked)) :
    replaceFrom (form.access.replacePattern.rule currentName newName) 0
        ((Piece.quoted form quote currentName closing).text ++ marked.map Prod.fst) =
        (Piece.quoted form quote newName closing).text ++
          replaceFrom (form.access.replacePattern.rule currentName newName) 0
            (marked.map Prod.fst) ∧
      MatchesMarked (form.access.replacePattern.rule currentName newName) 0 marked := by
  have hne : (Piece.quoted form quote currentName closing).text ≠ [] := by
    obtain ⟨tail, htail⟩ := quoted_text_cons form quote closing currentName
    rw [htail]
    exact List.cons_ne_nil _ _
  exact replace_marked hne (quoted_rule_reference hquote hclosing) h

theorem pass_quoted (form : QuotedForm) (hdelimited : ∀ p ∈ ps, p.Delimited)
    (h : MatchesMarked (form.access.replacePattern.rule currentName newName) 0
      (markedFor currentName newName form.pass ps)) :
    replaceAll (form.access.replacePattern.rule currentName newName)
        (textOf (afterPass currentName newName (form.pass - 1) ps)) =
      textOf (afterPass currentName newName form.pass ps) := by
  have hfour : form.pass ≠ 4 := by
    cases form with
    | call => decide
    | node => decide
    | items => decide
  induction ps with
  | nil => rfl
  | cons p rest ih =>
    rw [← marked_for_text]
    rw [markedFor] at h ⊢
    show _ = (p.after currentName newName form.pass (followed rest)).text ++ textOf _
    by_cases hown : p.spelled? = some currentName ∧ p.pass = form.pass
    · obtain ⟨quote, closing, rfl⟩ := quoted_of_pass hown.1 hown.2
      obtain ⟨hquote, hclosing⟩ := hdelimited _ (.head _)
      rw [if_pos hown] at h ⊢
      rw [List.map_append, markFirst_fst]
      obtain ⟨hreplace, hrest⟩ := replace_quoted_reference hquote hclosing h
      rw [replaceAll, hreplace, marked_for_text, Piece.after, if_pos ⟨rfl, Nat.le_refl _⟩]
      exact congrArg (_ ++ ·) (ih (fun p hp => hdelimited p (.tail _ hp)) hrest)
    · rw [if_neg hown] at h ⊢
      rw [List.map_append, unmarked_fst]
      obtain ⟨hcopy, hrest⟩ := replace_unmarked h
      rw [replaceAll, hcopy, marked_for_text, after_other_pass hfour hown]
      exact congrArg (_ ++ ·) (ih (fun p hp => hdelimited p (.tail _ hp)) hrest)

variable {c : Char}

theorem dot_rule_of_ne_dollar (hc : c ≠ '$') :
    dotPattern.rule currentName newName (c :: rest) = none := by
  have hopening : dotOpening.isPrefixOf? (c :: rest) = none := by
    rw [dotOpening, List.isPrefixOf?, if_neg]
    rw [beq_iff_eq]
    exact hc.symm
  rw [NamePattern.rule, dotPattern, hopening]
  rfl

theorem dot_rule_reference {behind : List Char}
    (h : (if rest.head? = some '.' then ['.'] else []) = behind) :
    dotPattern.rule currentName newName ((Piece.dot currentName).text ++ rest) =
      some ((Piece.dot newName).text ++ behind,
        (Piece.dot currentName).text.length - 1 + behind.length) := by
  rw [NamePattern.rule, dot_pattern_reference, h]
  have hlength : 0 < dotOpening.length := by decide
  simp only [Option.map_some, Piece.text, List.length_append]
  congr 2
  omega

theorem replace_dot_reference (h : MatchesMarked (dotPattern.rule currentName newName) 0
      (markFirst (Piece.dot currentName).text ++ marked)) :
    replaceFrom (dotPattern.rule currentName newName) 0
        ((Piece.dot currentName).text ++ marked.map Prod.fst) =
        (Piece.dot newName).text ++
          replaceFrom (dotPattern.rule currentName newName) 0 (marked.map Prod.fst) ∧
      MatchesMarked (dotPattern.rule currentName newName) 0 marked := by
  by_cases hdot : (marked.map Prod.fst).head? = some '.'
  · -- The match takes the dot behind the name with it, at which no other match can start.
    have hrule : dotPattern.rule currentName newName
        ((Piece.dot currentName).text ++ marked.map Prod.fst) = _ :=
      dot_rule_reference (if_pos hdot)
    cases marked with
    | nil => cases hdot
    | cons c marked =>
      have hc : c.1 = '.' := Option.some.inj hdot
      have hnone : dotPattern.rule currentName newName (c.1 :: marked.map Prod.fst) = none :=
        dot_rule_of_ne_dollar (by rw [hc]; decide)
      obtain ⟨hcopy, hmarked⟩ := replace_no_match hnone
      have htext : (Piece.dot currentName).text ++ (c :: marked).map Prod.fst =
          '$' :: ((unmarked (['n', 'o', 'd', 'e', '.'] ++ currentName) ++ [c]) ++
            marked).map Prod.fst := by
        simp [Piece.text, dotOpening]
      rw [htext] at hrule ⊢
      have hfound : (Piece.dot currentName).text.length - 1 + ['.'].length =
          (unmarked (['n', 'o', 'd', 'e', '.'] ++ currentName) ++ [c]).length := by
        simp [Piece.text, dotOpening]
      rw [hfound] at hrule
      have hmarks : markFirst (Piece.dot currentName).text ++ c :: marked =
          ('$', true) :: ((unmarked (['n', 'o', 'd', 'e', '.'] ++ currentName) ++ [c]) ++
            marked) := by
        simp [Piece.text, dotOpening, markFirst]
      rw [hmarks] at h
      obtain ⟨hreplace, hrest⟩ := replace_match hrule h
      refine ⟨?_, hmarked.mpr hrest⟩
      show _ = _ ++ replaceFrom _ 0 (c.1 :: marked.map Prod.fst)
      rw [hcopy, hc]
      exact hreplace.trans (List.append_assoc _ _ _)
  · refine replace_marked (List.cons_ne_nil _ _) ?_ h
    rw [dot_rule_reference (if_neg hdot)]
    simp

theorem pass_dot (h : MatchesMarked (dotPattern.rule currentName newName) 0
      (markedFor currentName newName 3 ps)) :
    replaceAll (dotPattern.rule currentName newName)
        (textOf (afterPass currentName newName 2 ps)) =
      textOf (afterPass currentName newName 3 ps) := by
  induction ps with
  | nil => rfl
  | cons p rest ih =>
    rw [← marked_for_text 3]
    rw [markedFor] at h ⊢
    show _ = (p.after currentName newName 3 (followed rest)).text ++ textOf _
    by_cases hown : p.spelled? = some currentName ∧ p.pass = 3
    · have hp : p = .dot currentName := by
        cases p with
        | char c => cases hown.1
        | dot name => rw [Option.some.inj hown.1]
        | quoted form quote raw closing =>
          have hpass : form.pass = 3 := hown.2
          cases form with
          | call => cases hpass
          | node => cases hpass
          | items => cases hpass
      subst hp
      rw [if_pos hown] at h ⊢
      rw [List.map_append, markFirst_fst]
      obtain ⟨hreplace, hrest⟩ := replace_dot_reference h
      have hafter : (Piece.dot currentName).after currentName newName 3 (followed rest) =
          .dot newName := by
        simp [Piece.after]
      rw [replaceAll, hreplace, marked_for_text, hafter]
      exact congrArg (_ ++ ·) (ih hrest)
    · rw [if_neg hown] at h ⊢
      rw [List.map_append, unmarked_fst]
      obtain ⟨hcopy, hrest⟩ := replace_unmarked h
      rw [replaceAll, hcopy, marked_for_text, after_other_pass (by decide) hown]
      exact congrArg (_ ++ ·) (ih hrest)

theorem marked_for_brackets_text (ps : List Piece) :
    (markedForBrackets currentName newName ps).map Prod.fst =
      textOf (afterPass currentName newName 3 ps) := by
  induction ps with
  | nil => rfl
  | cons p rest ih =>
    rw [markedForBrackets, List.map_append, ih]
    show _ = (p.after _ _ _ _).text ++ textOf _
    split
    · rename_i hp
      subst hp
      simp [Piece.after, Piece.text, dotOpening]
    · rw [unmarked_fst]

theorem bracket_rule_name {separator : Char} (hc : c ∉ lineTerminators)
    (hseparator : separator ∈ separators) :
    bracketRule newName (c :: (newName ++ separator :: rest)) =
      some (bracketed newName ++ [separator], newName.length + 1) := by
  have hname : newName.isPrefixOf? (newName ++ separator :: rest) = some (separator :: rest) := by
    rw [List.isPrefixOf?_eq_some_iff_append_eq]
  rw [bracketRule, if_neg hc, hname]
  simp only [hseparator, if_true]

theorem bracket_rule_none (hrest : ∀ s ∈ rest.head?, s ∉ separators) :
    bracketRule newName (c :: (newName ++ rest)) = none := by
  have hname : newName.isPrefixOf? (newName ++ rest) = some rest := by
    rw [List.isPrefixOf?_eq_some_iff_append_eq]
  rw [bracketRule, hname]
  split
  · rfl
  · cases rest with
    | nil => rfl
    | cons s rest => simp only [hrest s rfl, if_false]

/-- The first character of a piece. -/
def Piece.first : Piece → Char
  | char c => c
  | _ => '$'

theorem Piece.text_eq_cons (p : Piece) : ∃ tail, p.text = p.first :: tail := by
  cases p with
  | char c => exact ⟨[], rfl⟩
  | quoted form quote raw closing => exact quoted_text_cons form quote closing raw
  | dot name => exact ⟨_, rfl⟩

theorem head_text_of (ps : List Piece) : (textOf ps).head? = ps.head?.map Piece.first := by
  cases ps with
  | nil => rfl
  | cons p rest =>
    obtain ⟨tail, htail⟩ := p.text_eq_cons
    show (p.text ++ textOf rest).head? = _
    rw [htail]
    rfl

theorem Piece.first_after (p : Piece) (pass : Nat) (isFollowed : Bool) :
    (p.after currentName newName pass isFollowed).first = p.first := by
  cases p with
  | char c => rfl
  | quoted form quote raw closing =>
    rw [Piece.after]
    split
    · rfl
    · rfl
  | dot name =>
    rw [Piece.after]
    split
    · split
      · rfl
      · rfl
    · rfl

theorem head_text_after (pass : Nat) (ps : List Piece) :
    (textOf (afterPass currentName newName pass ps)).head? = (textOf ps).head? := by
  rw [head_text_of, head_text_of]
  cases ps with
  | nil => rfl
  | cons p rest => exact congrArg some (p.first_after pass (followed rest))

theorem head_of_not_followed (h : followed ps = false) :
    ∀ c ∈ (textOf ps).head?, c ∉ separators := by
  intro c hc
  rw [head_text_of] at hc
  cases ps with
  | nil => cases hc
  | cons p rest =>
    cases p with
    | char c' =>
      cases hc
      exact of_decide_eq_false h
    | quoted form quote raw closing =>
      cases hc
      show '$' ∉ separators
      decide
    | dot name =>
      cases hc
      show '$' ∉ separators
      decide

/-- Where a space or a dot comes next, it is a piece of its own. -/
theorem char_of_followed (h : followed ps = true) :
    ∃ separator rest, ps = .char separator :: rest ∧ separator ∈ separators := by
  cases ps with
  | nil => cases h
  | cons p rest =>
    cases p with
    | char c => exact ⟨c, rest, rfl, of_decide_eq_true h⟩
    | quoted form quote raw closing => cases h
    | dot name => cases h

theorem after_brackets_of_ne (hp : p ≠ .dot currentName) :
    p.after currentName newName 4 isFollowed = p.after currentName newName 3 isFollowed := by
  cases p with
  | char c => rfl
  | dot name =>
    have hname : name ≠ currentName := fun heq => hp (congrArg Piece.dot heq)
    simp only [Piece.after, hname, false_and, if_false]
  | quoted form quote raw closing =>
    have hiff : form.pass ≤ 4 ↔ form.pass ≤ 3 := by
      cases form with
      | call => decide
      | node => decide
      | items => decide
    simp only [Piece.after, hiff]

theorem replace_dotted_name (hhead : ∀ c ∈ (marked.map Prod.fst).head?, c ∉ separators)
    (h : MatchesMarked (bracketRule newName) 0 (markFirst ('.' :: newName) ++ marked)) :
    replaceFrom (bracketRule newName) 0
        ((markFirst ('.' :: newName) ++ marked).map Prod.fst) =
        '.' :: newName ++ replaceFrom (bracketRule newName) 0 (marked.map Prod.fst) ∧
      MatchesMarked (bracketRule newName) 0 marked := by
  have htext : (unmarked newName ++ marked).map Prod.fst = newName ++ marked.map Prod.fst := by
    rw [List.map_append, unmarked_fst]
  have hnone : bracketRule newName ('.' :: (unmarked newName ++ marked).map Prod.fst) = none := by
    rw [htext]
    exact bracket_rule_none hhead
  obtain ⟨hdot, hiff⟩ := replace_no_match (c := ('.', true)) hnone
  obtain ⟨hcopy, hmarked⟩ := replace_unmarked (hiff.mp h)
  refine ⟨?_, hmarked⟩
  show replaceFrom _ 0 ('.' :: (unmarked newName ++ marked).map Prod.fst) = _
  rw [hdot, htext, hcopy]
  rfl

theorem replace_bracketed_name {separator : Char} (hseparator : separator ∈ separators)
    (h : MatchesMarked (bracketRule newName) 0
      (markFirst ('.' :: newName) ++ (separator, false) :: marked)) :
    replaceFrom (bracketRule newName) 0
        ((markFirst ('.' :: newName) ++ (separator, false) :: marked).map Prod.fst) =
        bracketed newName ++ separator ::
          replaceFrom (bracketRule newName) 0 (marked.map Prod.fst) ∧
      MatchesMarked (bracketRule newName) 0 marked := by
  have hmarks : markFirst ('.' :: newName) ++ (separator, false) :: marked =
      ('.', true) :: ((unmarked newName ++ [(separator, false)]) ++ marked) := by
    simp [markFirst]
  have htext : ((unmarked newName ++ [(separator, false)]) ++ marked).map Prod.fst =
      newName ++ separator :: marked.map Prod.fst := by
    simp
  have hrule : bracketRule newName
      ('.' :: ((unmarked newName ++ [(separator, false)]) ++ marked).map Prod.fst) =
        some (bracketed newName ++ [separator],
          (unmarked newName ++ [(separator, false)]).length) := by
    rw [htext, bracket_rule_name (by decide) hseparator]
    simp
  rw [hmarks] at h ⊢
  obtain ⟨hreplace, hmarked⟩ := replace_match hrule h
  refine ⟨hreplace.trans ?_, hmarked⟩
  rw [List.append_assoc]
  rfl

theorem pass_brackets (hbanned : hasDotNotationBannedChar newName) (ps : List Piece)
    (h : MatchesMarked (bracketRule newName) 0 (markedForBrackets currentName newName ps)) :
    replaceAll (bracketRule newName) (textOf (afterPass currentName newName 3 ps)) =
      textOf (afterPass currentName newName 4 ps) := by
  -- A match takes the character behind the name with it, so the walk may go on two pieces further.
  induction hn : ps.length using Nat.strong_induction_on generalizing ps with
  | _ n ih =>
    subst hn
    cases ps with
    | nil => rfl
    | cons p rest =>
      rw [← marked_for_brackets_text]
      rw [markedForBrackets] at h ⊢
      show _ = (p.after currentName newName 4 (followed rest)).text ++ textOf _
      by_cases hp : p = .dot currentName
      · rw [if_pos hp, List.append_assoc] at h
        rw [if_pos hp, List.append_assoc, List.map_append, unmarked_fst]
        obtain ⟨hnode, hdot⟩ := replace_unmarked h
        rw [replaceAll, hnode]
        subst hp
        cases hfollowed : followed rest with
        | false =>
          have hhead : ∀ c ∈ ((markedForBrackets currentName newName rest).map
              Prod.fst).head?, c ∉ separators := by
            rw [marked_for_brackets_text, head_text_after]
            exact head_of_not_followed hfollowed
          obtain ⟨hkeep, hrest⟩ := replace_dotted_name hhead hdot
          have hafter : (Piece.dot currentName).after currentName newName 4 false =
              .dot newName := by
            simp [Piece.after]
          have hih := ih _ (Nat.lt_succ_self _) rest hrest rfl
          rw [hkeep, marked_for_brackets_text, hafter, ← hih]
          rfl
        | true =>
          obtain ⟨separator, rest', rfl, hseparator⟩ := char_of_followed hfollowed
          obtain ⟨hmove, hrest⟩ := replace_bracketed_name hseparator hdot
          have hafter : (Piece.dot currentName).after currentName newName 4 true =
              .quoted .node '"' newName ']' := by
            simp [Piece.after, hbanned]
          have hih := ih rest'.length (Nat.lt_succ_of_lt (Nat.lt_succ_self _)) rest' hrest rfl
          have htail : textOf (afterPass currentName newName 4 (.char separator :: rest')) =
              separator :: textOf (afterPass currentName newName 4 rest') := rfl
          rw [hafter, htail, ← hih, ← marked_for_brackets_text]
          exact congrArg (['$', 'n', 'o', 'd', 'e'] ++ ·) hmove
      · rw [if_neg hp] at h ⊢
        rw [List.map_append, unmarked_fst]
        obtain ⟨hcopy, hrest⟩ := replace_unmarked h
        rw [replaceAll, hcopy, marked_for_brackets_text, after_brackets_of_ne hp]
        exact congrArg (_ ++ ·) (ih _ (Nat.lt_succ_self _) rest hrest rfl)

end N8n.Expression
