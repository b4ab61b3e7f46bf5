import Mathlib.Data.List.Infix

/-!
# Replacing all matches

`replaceAll rule text` replaces every match of a pattern, as JavaScript's
`String.prototype.replace` does with a global regular expression: it walks through the text from
the left, replaces a match that starts at the current position and goes on behind it, and copies
any other character. `MatchesMarked` says where the matches are that such a walk finds, by marks
on the characters at which they may start; `replace_unmarked` and `replace_match` follow the walk
through an unmarked stretch of text and through a match.
-/

namespace N8n.Text

/-- What a pattern does at the start of a text: if it matches there, what is put in the place of
the match, and how many characters the match has after its first. -/
abbrev Rule (α : Type) := List α → Option (List α × Nat)

variable {α : Type} {rule : Rule α} {text found put : List α}

/-- Replace the matches of a pattern behind the next `skip` characters, which belong to the match
before. -/
def replaceFrom (rule : Rule α) : Nat → List α → List α
  | _, [] => []
  | skip + 1, _ :: rest => replaceFrom rule skip rest
  | 0, c :: rest =>
    match rule (c :: rest) with
    | some (put, more) => put ++ replaceFrom rule more rest
    | none => c :: replaceFrom rule 0 rest

/-- Replace the matches of a pattern. -/
def replaceAll (rule : Rule α) (text : List α) : List α := replaceFrom rule 0 text

/-- Behind the next `skip` characters, the matches that are replaced start at marked characters. -/
def MatchesMarked (rule : Rule α) : Nat → List (α × Bool) → Prop
  | _, [] => True
  | skip + 1, _ :: rest => MatchesMarked rule skip rest
  | 0, c :: rest =>
    match rule (c.1 :: rest.map Prod.fst) with
    | some (_, more) => c.2 = true ∧ MatchesMarked rule more rest
    | none => MatchesMarked rule 0 rest

/-- A text without marks. -/
def unmarked (text : List α) : List (α × Bool) := text.map (·, false)

/-- A text with a mark on its first character. -/
def markFirst : List α → List (α × Bool)
  | [] => []
  | c :: rest => (c, true) :: unmarked rest

/-- The pattern has no match that a walk through the text would replace. -/
def NoMatch (rule : Rule α) (text : List α) : Prop := MatchesMarked rule 0 (unmarked text)

/-- Walking through a text computes whether its matches are marked. -/
def decideMatchesMarked (rule : Rule α) :
    ∀ skip marked, Decidable (MatchesMarked rule skip marked)
  | _, [] => inferInstanceAs (Decidable True)
  | skip + 1, _ :: rest => decideMatchesMarked rule skip rest
  | 0, c :: rest =>
    have := decideMatchesMarked rule 0 rest
    match h : rule (c.1 :: rest.map Prod.fst) with
    | some (_, more) =>
      have := decideMatchesMarked rule more rest
      decidable_of_iff (c.2 = true ∧ MatchesMarked rule more rest) (by
        simp only [MatchesMarked, h])
    | none => decidable_of_iff (MatchesMarked rule 0 rest) (by simp only [MatchesMarked, h])

instance (rule : Rule α) (skip : Nat) (marked : List (α × Bool)) :
    Decidable (MatchesMarked rule skip marked) :=
  decideMatchesMarked rule skip marked

instance (rule : Rule α) (text : List α) : Decidable (NoMatch rule text) :=
  decideMatchesMarked rule 0 (unmarked text)

@[simp] theorem unmarked_fst (text : List α) : (unmarked text).map Prod.fst = text := by
  rw [unmarked, List.map_map]
  exact List.map_id text

@[simp] theorem markFirst_fst (text : List α) : (markFirst text).map Prod.fst = text := by
  cases text with
  | nil => rfl
  | cons c rest => rw [markFirst, List.map_cons, unmarked_fst]

@[simp] theorem length_unmarked (text : List α) : (unmarked text).length = text.length :=
  List.length_map _

theorem replace_from_skip (skipped rest : List α) :
    replaceFrom rule skipped.length (skipped ++ rest) = replaceFrom rule 0 rest := by
  induction skipped with
  | nil => rfl
  | cons c skipped ih => exact ih

variable {rest : List (α × Bool)}

theorem matches_marked_skip {skipped : List (α × Bool)} :
    MatchesMarked rule skipped.length (skipped ++ rest) ↔ MatchesMarked rule 0 rest := by
  induction skipped with
  | nil => exact Iff.rfl
  | cons c skipped ih => exact ih

theorem rule_none_of_unmarked {c : α} (h : MatchesMarked rule 0 ((c, false) :: rest)) :
    rule (c :: rest.map Prod.fst) = none ∧ MatchesMarked rule 0 rest := by
  unfold MatchesMarked at h
  split at h
  · exact absurd h.1 Bool.false_ne_true
  · rename_i hnone
    exact ⟨hnone, h⟩

theorem replace_unmarked (h : MatchesMarked rule 0 (unmarked text ++ rest)) :
    replaceFrom rule 0 (text ++ rest.map Prod.fst) =
        text ++ replaceFrom rule 0 (rest.map Prod.fst) ∧
      MatchesMarked rule 0 rest := by
  induction text with
  | nil => exact ⟨rfl, h⟩
  | cons c text ih =>
    have hcons : unmarked (c :: text) ++ rest = (c, false) :: (unmarked text ++ rest) := rfl
    rw [hcons] at h
    obtain ⟨hnone, hrest⟩ := rule_none_of_unmarked h
    rw [List.map_append, unmarked_fst] at hnone
    obtain ⟨hcopy, hmarked⟩ := ih hrest
    refine ⟨?_, hmarked⟩
    show replaceFrom rule 0 (c :: (text ++ rest.map Prod.fst)) = _
    rw [replaceFrom, hnone]
    exact congrArg (c :: ·) hcopy

theorem replace_match {c : α × Bool} {found : List (α × Bool)}
    (hrule : rule (c.1 :: (found ++ rest).map Prod.fst) = some (put, found.length))
    (h : MatchesMarked rule 0 (c :: (found ++ rest))) :
    replaceFrom rule 0 (c.1 :: (found ++ rest).map Prod.fst) =
        put ++ replaceFrom rule 0 (rest.map Prod.fst) ∧
      MatchesMarked rule 0 rest := by
  constructor
  · rw [replaceFrom, hrule, List.map_append, ← List.length_map Prod.fst]
    exact congrArg (put ++ ·) (replace_from_skip _ _)
  · unfold MatchesMarked at h
    rw [hrule] at h
    exact matches_marked_skip.mp h.2

theorem replace_marked (hne : found ≠ [])
    (hrule : rule (found ++ rest.map Prod.fst) = some (put, found.length - 1))
    (h : MatchesMarked rule 0 (markFirst found ++ rest)) :
    replaceFrom rule 0 (found ++ rest.map Prod.fst) =
        put ++ replaceFrom rule 0 (rest.map Prod.fst) ∧
      MatchesMarked rule 0 rest := by
  cases found with
  | nil => exact absurd rfl hne
  | cons c tail =>
    have htext : c :: (tail ++ rest.map Prod.fst) =
        c :: (unmarked tail ++ rest).map Prod.fst := by
      rw [List.map_append, unmarked_fst]
    rw [List.cons_append, htext] at hrule ⊢
    rw [List.length_cons, Nat.add_sub_cancel, ← length_unmarked] at hrule
    exact replace_match hrule h

theorem replace_no_match {c : α × Bool} (hrule : rule (c.1 :: rest.map Prod.fst) = none) :
    replaceFrom rule 0 (c.1 :: rest.map Prod.fst) =
        c.1 :: replaceFrom rule 0 (rest.map Prod.fst) ∧
      (MatchesMarked rule 0 (c :: rest) ↔ MatchesMarked rule 0 rest) := by
  constructor
  · rw [replaceFrom, hrule]
  · rw [MatchesMarked, hrule]

theorem replace_all_of_no_match (h : NoMatch rule text) : replaceAll rule text = text := by
  rw [NoMatch, ← List.append_nil (unmarked text)] at h
  have hcopy := (replace_unmarked h).1
  rw [List.map_nil, List.append_nil, replaceFrom, List.append_nil] at hcopy
  exact hcopy

theorem replace_all_of_absent {pattern : List α}
    (hrule : ∀ text result, rule text = some result → pattern <+: text)
    (h : ¬ pattern <:+: text) : replaceAll rule text = text := by
  induction text with
  | nil => rfl
  | cons c rest ih =>
    have hnone : rule (c :: rest) = none := by
      cases hresult : rule (c :: rest) with
      | none => rfl
      | some result => exact absurd (hrule _ _ hresult).isInfix h
    have hrest : ¬ pattern <:+: rest := fun hi => h (hi.trans (List.suffix_cons c rest).isInfix)
    rw [replaceAll, replaceFrom, hnone]
    exact congrArg (c :: ·) (ih hrest)

/-- A match is replaced by fewer characters than it has. -/
def Shortens (rule : Rule α) : Prop :=
  ∀ text put more, rule text = some (put, more) → put.length ≤ more ∧ more < text.length

/-- A function that leaves a text as it is or makes it shorter. -/
def Shrinks (f : List α → List α) : Prop := ∀ text, f text = text ∨ (f text).length < text.length

theorem Shrinks.length_le {f : List α → List α} (h : Shrinks f) (text : List α) :
    (f text).length ≤ text.length := by
  rcases h text with heq | hlt
  · rw [heq]
  · exact Nat.le_of_lt hlt

theorem Shrinks.comp_eq_iff {f g : List α → List α} (hf : Shrinks f) (hg : Shrinks g)
    (text : List α) : f (g text) = text ↔ g text = text ∧ f text = text := by
  constructor
  · intro h
    have hlength : text.length ≤ (g text).length := by
      rw [← congrArg List.length h]
      exact hf.length_le (g text)
    have hsame : g text = text := (hg text).resolve_right (Nat.not_lt.mpr hlength)
    rw [hsame] at h
    exact ⟨hsame, h⟩
  · rintro ⟨hg, hf⟩
    rw [hg, hf]

theorem Shrinks.comp {f g : List α → List α} (hf : Shrinks f) (hg : Shrinks g) :
    Shrinks (fun text => f (g text)) := by
  intro text
  dsimp only
  rcases hg text with heq | hlt
  · rw [heq]
    exact hf text
  · exact .inr (Nat.lt_of_le_of_lt (hf.length_le _) hlt)

theorem replace_all_of_none {c : α} {rest : List α} (h : rule (c :: rest) = none) :
    replaceAll rule (c :: rest) = c :: replaceAll rule rest := by
  rw [replaceAll, replaceFrom, h]
  rfl

theorem length_replace_from_le (h : Shortens rule) {skip : Nat} (hskip : skip ≤ text.length) :
    (replaceFrom rule skip text).length + skip ≤ text.length := by
  induction text generalizing skip with
  | nil => simpa [replaceFrom] using hskip
  | cons c rest ih =>
    cases skip with
    | succ skip => exact Nat.succ_le_succ (ih (Nat.le_of_succ_le_succ hskip))
    | zero =>
      rw [replaceFrom]
      cases hrule : rule (c :: rest) with
      | none => exact Nat.succ_le_succ (ih (Nat.zero_le _))
      | some result =>
        obtain ⟨hput, hmore⟩ := h _ result.1 result.2 hrule
        have hrest := ih (Nat.le_of_lt_succ hmore)
        simp only [List.length_append, List.length_cons]
        omega

theorem length_replace_all_lt {c : α} {rest : List α} (h : Shortens rule)
    (hrule : (rule (c :: rest)).isSome) :
    (replaceAll rule (c :: rest)).length < rest.length + 1 := by
  obtain ⟨⟨put, more⟩, hresult⟩ := Option.isSome_iff_exists.mp hrule
  obtain ⟨hput, hmore⟩ := h _ put more hresult
  have hrest := length_replace_from_le h (Nat.le_of_lt_succ hmore)
  rw [replaceAll, replaceFrom, hresult]
  simp only [List.length_append]
  omega

theorem Shortens.shrinks (h : Shortens rule) : Shrinks (replaceAll rule) := by
  intro text
  induction text with
  | nil => exact .inl rfl
  | cons c rest ih =>
    cases hrule : rule (c :: rest) with
    | some result => exact .inr (length_replace_all_lt h (by rw [hrule]; rfl))
    | none =>
      rw [replace_all_of_none hrule]
      exact ih.imp (congrArg (c :: ·)) Nat.succ_lt_succ

/-- A pattern that is a fixed text, and is replaced by a shorter one, leaves exactly the texts as
they are in which it does not occur. -/
theorem replace_all_eq_iff {pattern : List α} (h : Shortens rule) (hne : pattern ≠ [])
    (hrule : ∀ text, (rule text).isSome ↔ pattern <+: text) :
    replaceAll rule text = text ↔ ¬ pattern <:+: text := by
  constructor
  · intro heq hinfix
    induction text with
    | nil => exact hne (List.infix_nil.mp hinfix)
    | cons c rest ih =>
      cases hmatch : rule (c :: rest) with
      | some result =>
        have hlt := length_replace_all_lt h (by rw [hmatch]; rfl)
        rw [heq] at hlt
        exact Nat.lt_irrefl _ hlt
      | none =>
        have hprefix : ¬ pattern <+: c :: rest := fun hp => by
          have hsome := (hrule _).mpr hp
          rw [hmatch] at hsome
          cases hsome
        rw [replace_all_of_none hmatch] at heq
        exact ih (List.cons.inj heq).2 ((List.infix_cons_iff.mp hinfix).resolve_left hprefix)
  · exact replace_all_of_absent fun text result hresult =>
      (hrule text).mp (by rw [hresult]; rfl)

end N8n.Text
