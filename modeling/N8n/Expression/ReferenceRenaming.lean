import N8n.Expression.AccessPasses

/-!
# Renaming references

`applyAccessPatterns` renames the references to a node and nothing else, when the access patterns
match nothing but references: `apply_access_patterns_eq` puts the passes together, and
`renamed_text` reads the result.
-/

namespace N8n.Expression

open Text

variable {currentName newName : List Char} {g : Grammar} {text : List Char} {ps : List Piece}

/-! ## All passes -/

theorem apply_quoted (form : QuotedForm) (expression : List Char) :
    form.access.apply currentName newName expression =
      replaceAll (form.access.replacePattern.rule currentName newName) expression := by
  have hcallback : form.access.customCallback = none := by
    cases form with
    | call => rfl
    | node => rfl
    | items => rfl
  have hcheck : form.access.checkPattern = form.opening := by
    cases form with
    | call => rfl
    | node => rfl
    | items => rfl
  rw [AccessPattern.apply, hcallback, hcheck]
  split
  · rfl
  · rename_i habsent
    refine (replace_all_of_absent (fun text result hresult => ?_) habsent).symm
    rw [NamePattern.rule, form.access_pattern] at hresult
    obtain ⟨groups, hgroups, -⟩ := Option.map_eq_some_iff.mp hresult
    exact opening_of_quoted_pattern hgroups

theorem after_pass_zero (ps : List Piece) : afterPass currentName newName 0 ps = ps := by
  induction ps with
  | nil => rfl
  | cons p rest ih =>
    rw [afterPass, ih]
    cases p with
    | char c => rfl
    | dot name => simp [Piece.after]
    | quoted form quote raw closing =>
      have hpos := form.pass_pos
      rw [Piece.after, if_neg (by omega)]

theorem after_pass_of_no_dot (hdot : Piece.dot currentName ∉ ps) :
    afterPass currentName newName 4 ps = afterPass currentName newName 2 ps := by
  induction ps with
  | nil => rfl
  | cons p rest ih =>
    have hp : p ≠ .dot currentName := fun heq => hdot (heq ▸ .head _)
    have hown : ¬ (p.spelled? = some currentName ∧ p.pass = 3) := by
      intro hown
      cases p with
      | char c => cases hown.1
      | dot name => exact hp (congrArg Piece.dot (Option.some.inj hown.1))
      | quoted form quote raw closing =>
        have hpass : form.pass = 3 := hown.2
        cases form with
        | call => cases hpass
        | node => cases hpass
        | items => cases hpass
    rw [afterPass, afterPass, after_brackets_of_ne hp, after_other_pass (by decide) hown,
      ih fun hmem => hdot (.tail _ hmem)]

theorem after_pass_of_not_banned (hbanned : hasDotNotationBannedChar newName = false) :
    afterPass currentName newName 4 ps = afterPass currentName newName 3 ps := by
  induction ps with
  | nil => rfl
  | cons p rest ih =>
    have hp : p.after currentName newName 4 (followed rest) =
        p.after currentName newName 3 (followed rest) := by
      by_cases hdot : p = .dot currentName
      · subst hdot
        simp [Piece.after, hbanned]
      · exact after_brackets_of_ne hdot
    rw [afterPass, afterPass, hp, ih]

theorem infix_text_of {p : Piece} (h : p ∈ ps) : p.text <:+: textOf ps := by
  obtain ⟨front, back, rfl⟩ := List.append_of_mem h
  refine ⟨textOf front, textOf back, ?_⟩
  simp [textOf]

theorem dot_opening_occurs (hdot : Piece.dot currentName ∈ ps) :
    dotOpening <:+: textOf (afterPass currentName newName 2 ps) := by
  have hmem : Piece.dot currentName ∈ afterPass currentName newName 2 ps := by
    induction ps with
    | nil => cases hdot
    | cons p rest ih =>
      rw [afterPass]
      cases hdot with
      | head => simp [Piece.after]
      | tail _ hdot => exact .tail _ (ih hdot)
  have hopening : dotOpening <+: (Piece.dot currentName).text := List.prefix_append _ _
  exact hopening.isInfix.trans (infix_text_of hmem)

theorem apply_dot (h : MatchesMarked (dotPattern.rule currentName newName) 0
      (markedFor currentName newName 3 ps))
    (hbrackets : hasDotNotationBannedChar newName →
      dotOpening <:+: textOf (afterPass currentName newName 2 ps) →
      MatchesMarked (bracketRule newName) 0 (markedForBrackets currentName newName ps)) :
    dotAccess.apply currentName newName (textOf (afterPass currentName newName 2 ps)) =
      textOf (afterPass currentName newName 4 ps) := by
  rw [AccessPattern.apply]
  split
  · rename_i hincludes
    show bracketBanned (replaceAll (dotPattern.rule currentName newName) _) newName = _
    rw [pass_dot h, bracketBanned]
    split
    · rename_i hbanned
      exact pass_brackets hbanned ps (hbrackets hbanned hincludes)
    · rename_i hbanned
      rw [after_pass_of_not_banned ((Bool.not_eq_true _).mp hbanned)]
  · rename_i habsent
    rw [after_pass_of_no_dot fun hdot => habsent (dot_opening_occurs hdot)]

theorem name_infix_of_spelled {p : Piece} (hp : p ∈ ps) (hspelled : p.spelled? = some currentName) :
    currentName <:+: textOf ps := by
  refine List.IsInfix.trans ?_ (infix_text_of hp)
  cases p with
  | char c => cases hspelled
  | dot name =>
    cases hspelled
    exact (List.suffix_append dotOpening currentName).isInfix
  | quoted form quote raw closing =>
    cases hspelled
    refine ⟨form.opening ++ [quote], [quote, closing], ?_⟩
    simp [Piece.text]

theorem after_of_not_spelled {p : Piece} (pass : Nat) (isFollowed : Bool)
    (h : p.spelled? ≠ some currentName) : p.after currentName newName pass isFollowed = p := by
  cases p with
  | char c => rfl
  | dot name =>
    have hname : name ≠ currentName := fun heq => h (congrArg some heq)
    simp only [Piece.after, hname, false_and, if_false]
  | quoted form quote raw closing =>
    have hraw : raw ≠ currentName := fun heq => h (congrArg some heq)
    simp only [Piece.after, hraw, false_and, if_false]

theorem after_pass_of_not_spelled (pass : Nat)
    (h : ∀ p ∈ ps, p.spelled? ≠ some currentName) :
    afterPass currentName newName pass ps = ps := by
  induction ps with
  | nil => rfl
  | cons p rest ih =>
    rw [afterPass, after_of_not_spelled pass _ (h p (.head _)),
      ih fun p hp => h p (.tail _ hp)]

theorem apply_access_patterns_eq (h : OnlyReferences currentName newName g text) :
    applyAccessPatterns text currentName newName = renameReferences currentName newName g text := by
  have hdelimited := (pieces_read_back g text).delimited
  rw [applyAccessPatterns]
  split
  · rename_i hincludes
    have hstart : textOf (afterPass currentName newName 0 (pieces g text)) = text := by
      rw [after_pass_zero, pieces_text]
    have hcall : callAccess.apply currentName newName text = _ :=
      (apply_quoted .call text).trans (hstart ▸ pass_quoted .call hdelimited h.call)
    have hnode : bracketAccess.apply currentName newName
        (textOf (afterPass currentName newName 1 (pieces g text))) = _ :=
      (apply_quoted .node _).trans (pass_quoted .node hdelimited h.node)
    have hdot : dotAccess.apply currentName newName
        (textOf (afterPass currentName newName 2 (pieces g text))) = _ :=
      apply_dot h.dot (h.brackets hincludes)
    have hitems : itemsAccess.apply currentName newName
        (textOf (afterPass currentName newName 4 (pieces g text))) = _ :=
      (apply_quoted .items _).trans (pass_quoted .items hdelimited h.items)
    rw [accessPatterns, List.foldl_cons, List.foldl_cons, List.foldl_cons, List.foldl_cons,
      List.foldl_nil, hcall]
    refine Eq.trans ?_ hitems
    rw [← hdot]
    exact congrArg _ (congrArg _ hnode)
  · rename_i habsent
    rw [renameReferences, after_pass_of_not_spelled, pieces_text]
    intro p hp hspelled
    refine absurd (name_infix_of_spelled hp hspelled) ?_
    rw [pieces_text]
    exact habsent

theorem dot_of_read_back {name : List Char} (h : ReadBack g (.dot name :: ps)) :
    ∀ c ∈ (textOf ps).head?, g.identifierPart c = false := by
  obtain ⟨rest, htext, hquoted | hdot⟩ := read_reference_eq_some h.1
  · obtain ⟨form, quote, raw, closing, heq, -⟩ := hquoted
    cases heq
  · obtain ⟨name', heq, -, hrest⟩ := hdot
    have hrest' : textOf ps = rest := List.append_cancel_left htext
    rw [hrest']
    exact hrest

theorem renamed_pieces (hread : ReadBack g ps)
    (hspelled : ∀ p ∈ ps, p.node? g = some currentName ↔ p.spelled? = some currentName)
    (hwritable : Writable currentName newName g ps) :
    RenamedPieces g currentName newName ps (afterPass currentName newName 5 ps) := by
  induction ps with
  | nil => exact .nil
  | cons p rest ih =>
    have hdelimited := hread.delimited p (.head _)
    have hreadRest : ReadBack g rest := by
      cases p with
      | char c => exact hread.2
      | dot name => exact hread.2
      | quoted form quote raw closing => exact hread.2
    have hrest := ih hreadRest (fun p hp => hspelled p (.tail _ hp)) hwritable.2
    have hplain := hwritable.1
    rw [afterPass]
    by_cases hnode : p.node? g = some currentName
    · have hname := (hspelled p (.head _)).mp hnode
      have hplain := hplain hname
      cases p with
      | char c => cases hname
      | quoted form quote raw closing =>
        cases hname
        have hafter : (Piece.quoted form quote currentName closing).after currentName newName 5
            (followed rest) = .quoted form quote newName closing := by
          have hpass : form.pass ≤ 5 := by
            cases form with
            | call => decide
            | node => decide
            | items => decide
          rw [Piece.after, if_pos ⟨rfl, hpass⟩]
        rw [hafter] at hplain ⊢
        exact .reference hnode .quoted (congrArg some hplain.2)
          (read_reference_quoted hdelimited.1 hdelimited.2 hplain.1) hrest
      | dot name =>
        cases hname
        rw [Piece.after, if_pos ⟨rfl, by decide⟩] at hplain ⊢
        split
        · rename_i hbrackets
          rw [if_pos hbrackets] at hplain
          exact .reference hnode .bracket (congrArg some hplain.2)
            (read_reference_quoted (by decide) (by decide) hplain.1) hrest
        · rename_i hbrackets
          rw [if_neg hbrackets] at hplain
          have hhead : ∀ c ∈ (textOf (afterPass currentName newName 5 rest)).head?,
              g.identifierPart c = false := by
            rw [head_text_after]
            exact dot_of_read_back hread
          exact .reference hnode .dot rfl (read_reference_dot hplain hhead) hrest
    · have hname : p.spelled? ≠ some currentName := fun heq =>
        hnode ((hspelled p (.head _)).mpr heq)
      rw [after_of_not_spelled 5 _ hname]
      exact .other hnode hrest

theorem renamed_text (h : OnlyReferences currentName newName g text) :
    RenamedText g currentName newName text (applyAccessPatterns text currentName newName) := by
  refine ⟨_, renamed_pieces (pieces_read_back g text) h.spelled h.writable, ?_⟩
  rw [apply_access_patterns_eq h, renameReferences]

end N8n.Expression
