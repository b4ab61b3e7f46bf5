import Mathlib.Data.List.Infix

/-!
# Replacing the first occurrence of a text

`replaceFirst pattern replacement text` replaces the leftmost occurrence of a nonempty pattern
and leaves later ones alone, as JavaScript's `String.prototype.replace` does when its pattern
is a string. Texts are lists of characters.
-/

namespace N8n.Text

/-- Replace the leftmost occurrence of `pattern`, if there is one. -/
def replaceFirst (pattern replacement : List Char) : List Char → List Char
  | [] => []
  | c :: rest =>
    if pattern <+: c :: rest then replacement ++ (c :: rest).drop pattern.length
    else c :: replaceFirst pattern replacement rest

variable {pattern replacement text : List Char}

theorem replace_first_of_absent (h : ¬ pattern <:+: text) :
    replaceFirst pattern replacement text = text := by
  induction text with
  | nil => rfl
  | cons c rest ih =>
    have hprefix : ¬ pattern <+: c :: rest := fun hp => h hp.isInfix
    have hrest : ¬ pattern <:+: rest := fun hi => h (hi.trans (List.suffix_cons c rest).isInfix)
    simp [replaceFirst, hprefix, ih hrest]

theorem length_replace_first (hne : pattern ≠ []) (h : pattern <:+: text) :
    (replaceFirst pattern replacement text).length + pattern.length =
      text.length + replacement.length := by
  induction text with
  | nil => exact absurd (List.infix_nil.mp h) hne
  | cons c rest ih =>
    by_cases hprefix : pattern <+: c :: rest
    · have hle := hprefix.length_le
      simp only [replaceFirst, hprefix, if_true, List.length_append, List.length_drop]
      omega
    · have hrest : pattern <:+: rest := (List.infix_cons_iff.mp h).resolve_left hprefix
      have := ih hrest
      simp only [replaceFirst, hprefix, if_false, List.length_cons]
      omega

theorem replacement_infix (hne : pattern ≠ []) (h : pattern <:+: text) :
    replacement <:+: replaceFirst pattern replacement text := by
  induction text with
  | nil => exact absurd (List.infix_nil.mp h) hne
  | cons c rest ih =>
    by_cases hprefix : pattern <+: c :: rest
    · simp only [replaceFirst, hprefix, if_true]
      exact (List.prefix_append _ _).isInfix
    · have hrest : pattern <:+: rest := (List.infix_cons_iff.mp h).resolve_left hprefix
      simp only [replaceFirst, hprefix, if_false]
      exact List.infix_cons_iff.mpr (.inr (ih hrest))

end N8n.Text
