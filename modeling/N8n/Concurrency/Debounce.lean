import Mathlib.Data.Option.Basic

/-!
# Debounced functions

A debounced function delays its invocation until some time has passed since it was last called, and
is then invoked with the argument of the last call. `Debouncer` has this as its laws: `pending` is
the argument that has not been handled yet, with the time of the call.
-/

namespace N8n.Concurrency

/-- A function of `α` that is debounced by `wait`: its calls, and the expirations of its timer,
which may tell what the function is invoked with. -/
structure Debouncer (α : Type) (wait : Nat) where
  State : Type
  start : State
  call : State → Nat → α → State
  expire : State → Nat → State × Option α
  pending : State → Option (α × Nat)
  pending_start : pending start = none
  pending_call : ∀ s now x, pending (call s now x) = some (x, now)
  /-- Without a call to handle, nothing is invoked. -/
  expire_idle : ∀ s now, pending s = none →
    (expire s now).2 = none ∧ pending (expire s now).1 = none
  /-- The timer was set before the last call: it waits on. -/
  expire_early : ∀ s now x last, pending s = some (x, last) → last ≤ now → now < last + wait →
    (expire s now).2 = none ∧ pending (expire s now).1 = some (x, last)
  /-- The time is over, or the clock was set back. -/
  expire_due : ∀ s now x last, pending s = some (x, last) → last + wait ≤ now ∨ now < last →
    (expire s now).2 = some x ∧ pending (expire s now).1 = none

namespace Debouncer

variable {α : Type} {wait : Nat}

/-- The debounced function that keeps nothing but the last call. -/
def trailing (α : Type) (wait : Nat) : Debouncer α wait where
  State := Option (α × Nat)
  start := none
  call _ now x := some (x, now)
  expire s now :=
    match s with
    | some (x, last) => if last + wait ≤ now ∨ now < last then (none, some x) else (s, none)
    | none => (none, none)
  pending := id
  pending_start := rfl
  pending_call _ _ _ := rfl
  expire_idle s now h := by
    cases h
    exact ⟨rfl, rfl⟩
  expire_early s now x last h hle hlt := by
    cases h
    have hwaits : ¬ (last + wait ≤ now ∨ now < last) := by omega
    simp only [hwaits, if_false, id, and_self]
  expire_due s now x last h hdue := by
    cases h
    simp only [hdue, if_true, id, and_self]

theorem expire_cases (d : Debouncer α wait) (s : d.State) (now : Nat) :
    (d.expire s now).2 = none ∧ d.pending (d.expire s now).1 = d.pending s ∨
      ∃ x last, d.pending s = some (x, last) ∧ (d.expire s now).2 = some x ∧
        d.pending (d.expire s now).1 = none := by
  cases hpending : d.pending s with
  | none => exact .inl (d.expire_idle s now hpending)
  | some entry =>
    obtain ⟨x, last⟩ := entry
    by_cases hdue : last + wait ≤ now ∨ now < last
    · exact .inr ⟨x, last, rfl, d.expire_due s now x last hpending hdue⟩
    · exact .inl (d.expire_early s now x last hpending (by omega) (by omega))

end Debouncer

end N8n.Concurrency
