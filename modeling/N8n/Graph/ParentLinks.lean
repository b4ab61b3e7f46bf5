import Mathlib.Logic.Relation

/-!
# Parent links

An item is linked to its parent, or to no parent when it is a root. Following the links from an item
ends when it comes to a root after finitely many of them. New links for a set of items keep this
when the way from their new parent to the root avoids the set, and so does taking items out together
with everything below them.
-/

namespace N8n.Graph

open Relation

variable {ι : Type}

/-- Following the links from an item ends at a root. -/
inductive EndsAtRoot (link : ι → Option ι → Prop) : ι → Prop where
  | root {i : ι} (h : link i none) : EndsAtRoot link i
  | parent {i p : ι} (h : link i (some p)) (hp : EndsAtRoot link p) : EndsAtRoot link i

/-- The second item is the first one, or links lead up to it. -/
def IsAbove (link : ι → Option ι → Prop) : ι → ι → Prop :=
  ReflTransGen fun i p => link i (some p)

variable {link link' : ι → Option ι → Prop} {i : ι}

theorem EndsAtRoot.of_above (h : EndsAtRoot link i)
    (hkeep : ∀ a, IsAbove link i a → ∀ q, link a q → link' a q) : EndsAtRoot link' i := by
  induction h with
  | root h => exact .root (hkeep _ .refl _ h)
  | parent h _ ih =>
    exact .parent (hkeep _ .refl _ h) (ih fun a ha => hkeep a (.head h ha))

theorem EndsAtRoot.relink (moved : ι → Prop) (target : Option ι)
    (hkeep : ∀ i q, link i q → ¬ moved i → link' i q)
    (hmove : ∀ i q, link i q → moved i → link' i target)
    (htarget : ∀ t ∈ target, EndsAtRoot link t ∧ ∀ a, IsAbove link t a → ¬ moved a)
    (h : EndsAtRoot link i) : EndsAtRoot link' i := by
  have hmoved : ∀ i, link' i target → EndsAtRoot link' i := by
    intro i hi
    cases target with
    | none => exact .root hi
    | some t =>
      obtain ⟨hends, habove⟩ := htarget t rfl
      exact .parent hi (hends.of_above fun a ha q hq => hkeep a q hq (habove a ha))
  induction h with
  | @root i h =>
    by_cases hi : moved i
    · exact hmoved i (hmove i none h hi)
    · exact .root (hkeep i none h hi)
  | @parent i p h _ ih =>
    by_cases hi : moved i
    · exact hmoved i (hmove i (some p) h hi)
    · exact .parent (hkeep i (some p) h hi) ih

theorem EndsAtRoot.restrict (kept : ι → Prop) (hkeep : ∀ i q, link i q → kept i → link' i q)
    (hclosed : ∀ i p, link i (some p) → kept i → kept p) (h : EndsAtRoot link i) (hi : kept i) :
    EndsAtRoot link' i := by
  induction h with
  | root h => exact .root (hkeep _ _ h hi)
  | parent h _ ih => exact .parent (hkeep _ _ h hi) (ih (hclosed _ _ h hi))

theorem EndsAtRoot.not_above_parent (hfun : ∀ i q q', link i q → link i q' → q = q') {p : ι}
    (h : EndsAtRoot link i) (hp : link i (some p)) : ¬ IsAbove link p i := by
  induction h generalizing p with
  | root h => exact fun _ => nomatch hfun _ _ _ h hp
  | @parent i p' h hends ih =>
    intro habove
    obtain rfl := Option.some.inj (hfun _ _ _ h hp)
    obtain rfl | ⟨q, hq, hrest⟩ := habove.cases_head
    · exact ih hp .refl
    · -- the way around leads through the parent of the parent
      exact ih hq (hrest.tail h)

end N8n.Graph
