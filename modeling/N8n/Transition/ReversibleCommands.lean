import Mathlib.Data.List.Basic
import Mathlib.Logic.Function.Iterate

/-!
# Commands that can be reversed

A command changes a state, and its reverse takes the change back where the command is valid. A list
of commands that replays from one state to another is taken back by the reverses in the other order,
and these replay in turn.
-/

namespace N8n.Transition

/-- Commands with reverses on states. -/
structure ReversibleCommands (C W : Type) where
  apply : C → W → W
  reverse : C → C
  Valid : C → W → Prop
  reverse_valid : ∀ {c w}, Valid c w → Valid (reverse c) (apply c w)
  reverse_apply : ∀ {c w}, Valid c w → apply (reverse c) (apply c w) = w

namespace ReversibleCommands

variable {C W : Type} (r : ReversibleCommands C W)

/-- The commands are valid one after the other, and lead from the first state to the second. -/
def Replays : List C → W → W → Prop
  | [], w, w' => w = w'
  | c :: cs, w, w' => r.Valid c w ∧ Replays cs (r.apply c w) w'

/-- Apply commands one after the other. -/
def applyAll (cs : List C) (w : W) : W := cs.foldl (fun w c => r.apply c w) w

/-- The reverses in the other order. -/
def reverseAll (cs : List C) : List C := cs.reverse.map r.reverse

variable {r} {c : C} {cs cs' : List C} {w w' w'' : W}

theorem Replays.applyAll_eq (h : r.Replays cs w w') : r.applyAll cs w = w' := by
  induction cs generalizing w with
  | nil => exact h
  | cons c cs ih => exact ih h.2

theorem Replays.append (h : r.Replays cs w w') (h' : r.Replays cs' w' w'') :
    r.Replays (cs ++ cs') w w'' := by
  induction cs generalizing w with
  | nil =>
    cases h
    exact h'
  | cons c cs ih => exact ⟨h.1, ih h.2⟩

theorem replays_single (h : r.Valid c w) : r.Replays [c] w (r.apply c w) := ⟨h, rfl⟩

theorem reverseAll_cons (c : C) (cs : List C) :
    r.reverseAll (c :: cs) = r.reverseAll cs ++ [r.reverse c] := by
  rw [reverseAll, List.reverse_cons, List.map_append]
  rfl

theorem Replays.reverseAll (h : r.Replays cs w w') : r.Replays (r.reverseAll cs) w' w := by
  induction cs generalizing w with
  | nil => exact Eq.symm h
  | cons c cs ih =>
    obtain ⟨hvalid, hrest⟩ := h
    have hback : r.Replays [r.reverse c] (r.apply c w) w :=
      ⟨r.reverse_valid hvalid, r.reverse_apply hvalid⟩
    rw [reverseAll_cons]
    exact (ih hrest).append hback

end ReversibleCommands

/-- Where one step can be taken back as long as steps are left, any number of the steps that are
left can be taken back. -/
theorem iterate_back {σ : Type} {step back : σ → σ} (left : Nat → σ → Prop)
    (hstep : ∀ n s, left (n + 1) s → left n (step s) ∧ back (step s) = s) (n : Nat) {s : σ}
    (h : left n s) : back^[n] (step^[n] s) = s := by
  induction n generalizing s with
  | zero => rfl
  | succ n ih =>
    obtain ⟨hleft, hback⟩ := hstep n s h
    rw [Function.iterate_succ_apply step, Function.iterate_succ_apply' back, ih hleft]
    exact hback

end N8n.Transition
