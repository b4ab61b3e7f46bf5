import Mathlib.Data.List.Basic

/-!
# Runs of event-driven systems

A system reacts to events: `step s e` is its state after the event `e`, or `none` when the event
cannot happen in the state `s`. `Reachable` collects the states of the runs whose events are all
allowed where they happen, and `Reachable.keeps` is the rule for their invariants.
-/

namespace N8n.Transition

variable {σ ε : Type}

/-- The states that runs from `start` reach, when each event is allowed in the state before it. -/
inductive Reachable (step : σ → ε → Option σ) (allowed : σ → ε → Prop) (start : σ) : σ → Prop where
  | start : Reachable step allowed start start
  | next {s s' : σ} {e : ε} (h : Reachable step allowed start s) (hallowed : allowed s e)
      (hstep : step s e = some s') : Reachable step allowed start s'

variable {step : σ → ε → Option σ} {allowed allowed' : σ → ε → Prop} {start s : σ}

theorem Reachable.keeps (Inv : σ → Prop) (hstart : Inv start)
    (hkeep : ∀ s e s', Inv s → allowed s e → step s e = some s' → Inv s')
    (h : Reachable step allowed start s) : Inv s := by
  induction h with
  | start => exact hstart
  | next h hallowed hstep ih => exact hkeep _ _ _ ih hallowed hstep

section Executing

variable (step : σ → ε → Option σ) (allowed : σ → ε → Prop) [∀ s e, Decidable (allowed s e)]

/-- The state after a list of events, each of which is allowed where it happens. -/
def runAllowed : σ → List ε → Option σ
  | s, [] => some s
  | s, e :: es => if allowed s e then (step s e).bind fun s' => runAllowed s' es else none

/-- The state after a list of events. -/
def run (s : σ) (es : List ε) : Option σ := runAllowed step (fun _ _ => True) s es

end Executing

theorem run_cons_eq_some {e : ε} {es : List ε} {s' : σ} : run step s (e :: es) = some s' ↔
    ∃ next, step s e = some next ∧ run step next es = some s' := by
  show ((step s e).bind fun next => run step next es) = some s' ↔ _
  rw [Option.bind_eq_some_iff]

theorem run_append_eq_some {es es' : List ε} {s' : σ} : run step s (es ++ es') = some s' ↔
    ∃ next, run step s es = some next ∧ run step next es' = some s' := by
  induction es generalizing s with
  | nil => exact ⟨fun h => ⟨s, rfl, h⟩, fun ⟨_, hnext, h⟩ => Option.some.inj hnext ▸ h⟩
  | cons e es ih =>
      rw [List.cons_append, run_cons_eq_some]
      constructor
      · intro ⟨mid, hmid, h⟩
        obtain ⟨next, hnext, h⟩ := ih.mp h
        exact ⟨next, run_cons_eq_some.mpr ⟨mid, hmid, hnext⟩, h⟩
      · intro ⟨next, hnext, h⟩
        obtain ⟨mid, hmid, hnext⟩ := run_cons_eq_some.mp hnext
        exact ⟨mid, hmid, ih.mpr ⟨next, hnext, h⟩⟩

theorem reachable_of_runAllowed [∀ s e, Decidable (allowed s e)] {es : List ε} {s s' : σ}
    (hs : Reachable step allowed start s) (h : runAllowed step allowed s es = some s') :
    Reachable step allowed start s' := by
  induction es generalizing s with
  | nil =>
    cases h
    exact hs
  | cons e es ih =>
    rw [runAllowed] at h
    split at h
    · rename_i hallowed
      obtain ⟨next, hnext, h⟩ := Option.bind_eq_some_iff.mp h
      exact ih (.next hs hallowed hnext) h
    · cases h

theorem reachable_of_run {es : List ε} (h : run step start es = some s) :
    Reachable step (fun _ _ => True) start s :=
  reachable_of_runAllowed .start h

end N8n.Transition
