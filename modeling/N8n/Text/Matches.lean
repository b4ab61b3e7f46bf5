import Mathlib.Data.List.Infix

/-!
# The matches of a global search

`behindAll pattern text` are the texts behind the matches that repeated calls of JavaScript's
`RegExp.prototype.exec` with a global regular expression find: each search goes on behind the match
before. `behindEvery pattern text` are those behind the matches at any position. The two are the
same when no match starts inside another (`Separate`), and the matches in two parts of a text are
those of the parts when the second one starts with a character that ends a match (`Stops`).
-/

namespace N8n.Text

/-- A pattern: what is behind its match at the start of a text, if it matches there. -/
abbrev Pattern (α : Type) := List α → Option (List α)

variable {α : Type} {pattern : Pattern α} {text after : List α} {c : α}

/-- The matches behind the next `skip` characters, which belong to the match before. -/
def behindFrom (pattern : Pattern α) : Nat → List α → List (List α)
  | _, [] => []
  | skip + 1, _ :: rest => behindFrom pattern skip rest
  | 0, c :: rest =>
    match pattern (c :: rest) with
    | some after => after :: behindFrom pattern (rest.length - after.length) rest
    | none => behindFrom pattern 0 rest

/-- What is behind each match that a global search finds. -/
def behindAll (pattern : Pattern α) (text : List α) : List (List α) := behindFrom pattern 0 text

/-- What is behind each match, at any position. -/
def behindEvery (pattern : Pattern α) : List α → List (List α)
  | [] => []
  | c :: rest => (pattern (c :: rest)).toList ++ behindEvery pattern rest

/-- The pattern matches somewhere in the text. -/
def Contains (pattern : Pattern α) (text : List α) : Prop :=
  ∃ rest, rest <:+ text ∧ rest ≠ [] ∧ (pattern rest).isSome

theorem behindEvery_of_none {rest : List α} (h : pattern (c :: rest) = none) :
    behindEvery pattern (c :: rest) = behindEvery pattern rest := by
  rw [behindEvery, h]
  rfl

theorem behindEvery_of_some {rest : List α} (h : pattern (c :: rest) = some after) :
    behindEvery pattern (c :: rest) = after :: behindEvery pattern rest := by
  rw [behindEvery, h]
  rfl

theorem not_contains_nil : ¬ Contains pattern [] :=
  fun ⟨_, hsuffix, hne, _⟩ => hne (List.suffix_nil.mp hsuffix)

theorem behindEvery_eq_nil_iff : behindEvery pattern text = [] ↔ ¬ Contains pattern text := by
  induction text with
  | nil => exact iff_of_true rfl not_contains_nil
  | cons c text ih =>
    have hcontains : Contains pattern (c :: text) ↔
        (pattern (c :: text)).isSome ∨ Contains pattern text := by
      simp only [Contains, List.suffix_cons_iff, or_and_right, exists_or, exists_eq_left]
      simp
    rw [behindEvery, List.append_eq_nil_iff, ih, hcontains, not_or]
    cases pattern (c :: text) <;> simp

/-- No match starts inside another. -/
def Separate (pattern : Pattern α) : Prop :=
  ∀ text after, pattern text = some after → ∃ c found, text = c :: (found ++ after) ∧
    behindEvery pattern (found ++ after) = behindEvery pattern after

theorem behindFrom_skip (found after : List α) :
    behindFrom pattern found.length (found ++ after) = behindFrom pattern 0 after := by
  induction found with
  | nil => rfl
  | cons c found ih => exact ih

theorem behindAll_eq (h : Separate pattern) (text : List α) :
    behindAll pattern text = behindEvery pattern text := by
  obtain ⟨n, hn⟩ : ∃ n, text.length ≤ n := ⟨_, Nat.le_refl _⟩
  induction n generalizing text with
  | zero =>
    rw [List.length_eq_zero_iff.mp (Nat.le_zero.mp hn)]
    rfl
  | succ n ih =>
    cases text with
    | nil => rfl
    | cons c rest =>
      rw [List.length_cons, Nat.add_le_add_iff_right] at hn
      rw [behindAll, behindFrom]
      cases hmatch : pattern (c :: rest) with
      | none =>
        rw [behindEvery_of_none hmatch]
        exact ih rest hn
      | some after =>
        obtain ⟨d, found, htext, hinside⟩ := h _ _ hmatch
        obtain ⟨rfl, rfl⟩ := List.cons.inj htext
        have hskip : (found ++ after).length - after.length = found.length := by
          rw [List.length_append, Nat.add_sub_cancel]
        rw [behindEvery_of_some hmatch, hinside, ← ih after ?_]
        · dsimp only
          rw [hskip, behindFrom_skip]
          rfl
        · rw [List.length_append] at hn
          exact Nat.le_trans (Nat.le_add_left ..) hn

/-- A match that starts before the character also ends before it. -/
def Stops (pattern : Pattern α) (c : α) : Prop :=
  ∀ text, text ≠ [] → ∀ rest, pattern (text ++ c :: rest) = (pattern text).map (· ++ c :: rest)

theorem behindEvery_append (h : Stops pattern c) (text rest : List α) :
    behindEvery pattern (text ++ c :: rest) =
      (behindEvery pattern text).map (· ++ c :: rest) ++ behindEvery pattern (c :: rest) := by
  induction text with
  | nil => rfl
  | cons d text ih =>
    have hmatch := h (d :: text) (List.cons_ne_nil _ _) rest
    rw [List.cons_append] at hmatch ⊢
    rw [behindEvery, behindEvery, hmatch, ih, List.map_append, List.append_assoc]
    cases pattern (d :: text) <;> rfl

end N8n.Text
