import Mathlib.Logic.Basic

/-!
# Computations with a state

A computation changes a state and yields a result or an error; on an error, the state stays as the
computation left it. `Ensures` says that a computation keeps an invariant of the state and that its
results have a property, and the rule for sequences derives it from the parts.
-/

namespace N8n.Transition

/-- A computation with states in `σ`, errors in `ε` and results in `α`. -/
def Computation (σ ε α : Type) := σ → Except ε α × σ

namespace Computation

variable {σ ε α β : Type}

instance : Monad (Computation σ ε) where
  pure a := fun s => (.ok a, s)
  bind x f := fun s =>
    match x s with
    | (.error e, s') => (.error e, s')
    | (.ok a, s') => f a s'

/-- Fail. -/
def fail (e : ε) : Computation σ ε α := fun s => (.error e, s)

/-- From a state with the invariant, the computation ends in one, and its result has the
property. -/
def Ensures (Inv : σ → Prop) (x : Computation σ ε α) (P : α → Prop) : Prop :=
  ∀ s, Inv s → Inv (x s).2 ∧ ∀ a, (x s).1 = .ok a → P a

variable {Inv : σ → Prop} {P : α → Prop} {Q : β → Prop}

theorem Ensures.pure {a : α} (h : P a) : Ensures Inv (Pure.pure a : Computation σ ε α) P := by
  intro s hs
  refine ⟨hs, fun b hb => ?_⟩
  cases hb
  exact h

theorem Ensures.fail (e : ε) (P : α → Prop) :
    Ensures Inv (Computation.fail e : Computation σ ε α) P := by
  intro s hs
  exact ⟨hs, fun b hb => by cases hb⟩

theorem Ensures.bind {x : Computation σ ε α} {f : α → Computation σ ε β} (hx : Ensures Inv x P)
    (hf : ∀ a, P a → Ensures Inv (f a) Q) : Ensures Inv (x >>= f) Q := by
  intro s hs
  obtain ⟨hinv, hresult⟩ := hx s hs
  cases h : x s with
  | mk result s' =>
    rw [h] at hinv hresult
    cases result with
    | error e =>
      have hfails : (x >>= f) s = (.error e, s') := by simp [Bind.bind, h]
      rw [hfails]
      exact ⟨hinv, fun b hb => by cases hb⟩
    | ok a =>
      have hgoesOn : (x >>= f) s = f a s' := by simp [Bind.bind, h]
      rw [hgoesOn]
      exact hf a (hresult a rfl) s' hinv

theorem Ensures.weaken {x : Computation σ ε α} {P' : α → Prop} (h : Ensures Inv x P)
    (hle : ∀ a, P a → P' a) : Ensures Inv x P' :=
  fun s hs => ⟨(h s hs).1, fun a ha => hle a ((h s hs).2 a ha)⟩

end Computation

end N8n.Transition
