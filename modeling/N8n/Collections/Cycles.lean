import Mathlib.Data.List.Basic

/-!
# Counting in cycles

Items are counted from one in cycles of different lengths, as the days of years are. `position`
gives the cycle and the count of an item, and the lemmas say where the items after it are.
-/

namespace N8n.Collections

variable (length : Nat → Nat)

/-- The cycle of an item, and its count in the cycle. -/
def position : Nat → Nat × Nat
  | 0 => (0, 1)
  | i + 1 =>
    if (position i).2 < length (position i).1 then ((position i).1, (position i).2 + 1)
    else ((position i).1 + 1, 1)

theorem one_le_position (i : Nat) : 1 ≤ (position length i).2 := by
  cases i with
  | zero => exact Nat.le_refl 1
  | succ i =>
    unfold position
    split
    · exact Nat.le_add_left 1 _
    · exact Nat.le_refl 1

variable {length} {i c r : Nat}

theorem position_add (h : position length i = (c, r)) {k : Nat} (hk : r + k ≤ length c) :
    position length (i + k) = (c, r + k) := by
  induction k with
  | zero => exact h
  | succ k ih =>
    have hbefore := ih (by omega)
    show position length (i + k + 1) = _
    have hroom : r + k < length c := by omega
    rw [position, hbefore, if_pos hroom]
    rfl

theorem position_next (h : position length i = (c, r)) (hr : r ≤ length c) :
    position length (i + (length c - r) + 1) = (c + 1, 1) := by
  have hlast := position_add h (k := length c - r) (by omega)
  have hfull : ¬ r + (length c - r) < length c := by omega
  rw [position, hlast, if_neg hfull]

theorem exists_position_one (hpos : ∀ c, 1 ≤ length c) (c : Nat) :
    ∃ i, position length i = (c, 1) := by
  induction c with
  | zero => exact ⟨0, rfl⟩
  | succ c ih =>
    obtain ⟨i, hi⟩ := ih
    exact ⟨_, position_next hi (hpos c)⟩

theorem exists_position (hpos : ∀ c, 1 ≤ length c) (hr : 1 ≤ r) (hle : r ≤ length c) :
    ∃ i, position length i = (c, r) := by
  obtain ⟨i, hi⟩ := exists_position_one hpos c
  refine ⟨i + (r - 1), ?_⟩
  rw [position_add hi (by omega)]
  congr 1
  omega

end N8n.Collections
