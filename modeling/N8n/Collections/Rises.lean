import Mathlib.Order.Basic
import Mathlib.Tactic.ByContra
import Mathlib.Tactic.SplitIfs

/-!
# The rises of a sequence

How far a sequence of numbers goes up in total, from nothing. A sequence that ends at nothing goes
up by its largest value exactly when it has no valley, and adding one to an interval that starts
before the sequence does and ends in a gap adds one rise.
-/

namespace N8n.Collections

/-- How far the sequence goes up to reach a place. -/
def rise (m : Nat → Nat) : Nat → Nat
  | 0 => m 0
  | i + 1 => m (i + 1) - m i

/-- How far the sequence goes up before a place. -/
def rises (m : Nat → Nat) : Nat → Nat
  | 0 => 0
  | n + 1 => rises m n + rise m n

/-- The sequence goes down and later up again. -/
def Valley (m : Nat → Nat) : Prop := ∃ i j k, i < j ∧ j < k ∧ m j < m i ∧ m j < m k

variable {m : Nat → Nat}

theorem rises_add_le {i j : Nat} (h : j ≤ i) :
    rises m (j + 1) + (m i - m j) ≤ rises m (i + 1) := by
  induction h with
  | refl => simp
  | @step i _ ih =>
    have hrise : rises m (i.succ + 1) = rises m (i + 1) + (m i.succ - m i) := rfl
    omega

theorem le_rises (i : Nat) : m i ≤ rises m (i + 1) := by
  have h := rises_add_le (m := m) (Nat.zero_le i)
  have hzero : rises m (0 + 1) = m 0 := by simp [rises, rise]
  omega

theorem rises_le {n n' : Nat} (h : n ≤ n') : rises m n ≤ rises m n' := by
  induction h with
  | refl => exact Nat.le_refl _
  | step _ ih => exact Nat.le_trans ih (Nat.le_add_right _ _)

theorem rises_eq_of_no_valley (h : ¬ Valley m) (n : Nat) :
    ∃ p ≤ n, rises m (n + 1) = m p ∧ ∀ i ≤ n, m i ≤ m p := by
  induction n with
  | zero =>
    refine ⟨0, Nat.le_refl 0, by simp [rises, rise], fun i hi => ?_⟩
    have hzero : i = 0 := Nat.le_zero.mp hi
    subst hzero
    exact Nat.le_refl _
  | succ n ih =>
    obtain ⟨p, hp, heq, hmax⟩ := ih
    have hrise : rises m (n + 1 + 1) = rises m (n + 1) + (m (n + 1) - m n) := rfl
    by_cases hup : m n < m (n + 1)
    · -- going up again from below the largest value would be a valley
      have htop : m p = m n := by
        by_contra hne
        have hlt : m n < m p := Nat.lt_of_le_of_ne (hmax n (Nat.le_refl n)) (Ne.symm hne)
        have hpn : p < n := Nat.lt_of_le_of_ne hp fun heq => hne (by rw [heq])
        exact h ⟨p, n, n + 1, hpn, Nat.lt_succ_self n, hlt, hup⟩
      refine ⟨n + 1, Nat.le_refl _, by omega, fun i hi => ?_⟩
      rcases Nat.le_or_eq_of_le_succ hi with hi | rfl
      · have := hmax i hi
        omega
      · exact Nat.le_refl _
    · refine ⟨p, Nat.le_succ_of_le hp, by omega, fun i hi => ?_⟩
      rcases Nat.le_or_eq_of_le_succ hi with hi | rfl
      · exact hmax i hi
      · have := hmax n (Nat.le_refl n)
        rw [Nat.succ_eq_add_one]
        omega

theorem lt_rises_of_valley {n : Nat} (hend : ∀ i, n ≤ i → m i = 0) (h : Valley m) (p : Nat) :
    m p < rises m n := by
  obtain ⟨i, j, k, hij, hjk, hi, hk⟩ := h
  have hkn : k < n := by
    by_contra hnot
    have := hend k (Nat.not_lt.mp hnot)
    omega
  have hbefore : m i ≤ rises m (j + 1) := Nat.le_trans (le_rises i) (rises_le (by omega))
  have hafter := rises_add_le (m := m) (Nat.le_of_lt hjk)
  have htotal : rises m (k + 1) ≤ rises m n := rises_le hkn
  by_cases hpj : p ≤ j
  · have hup : m p ≤ rises m (j + 1) := Nat.le_trans (le_rises p) (rises_le (by omega))
    omega
  · by_cases hpn : p < n
    · have hup := rises_add_le (m := m) (Nat.le_of_not_le hpj)
      have hall : rises m (p + 1) ≤ rises m n := rises_le hpn
      omega
    · have := hend p (Nat.not_lt.mp hpn)
      omega

theorem rises_eq_largest_iff {n largest : Nat} (hend : ∀ i, n ≤ i → m i = 0)
    (hle : ∀ i, m i ≤ largest) (hmem : ∃ p, m p = largest) :
    rises m n = largest ↔ ¬ Valley m := by
  obtain ⟨p, hp⟩ := hmem
  constructor
  · intro heq hvalley
    have := lt_rises_of_valley hend hvalley p
    omega
  · intro hnone
    obtain ⟨q, _, heq, hmax⟩ := rises_eq_of_no_valley hnone (n + p)
    have hpq := hmax p (Nat.le_add_left p n)
    have hq := hle q
    -- beyond the end nothing goes up
    have hstop : ∀ d, rises m (n + d) = rises m n := by
      intro d
      induction d with
      | zero => rfl
      | succ d ih =>
        have hzero : rise m (n + d) = 0 := by
          cases hnd : n + d with
          | zero => exact hend 0 (by omega)
          | succ e =>
            show m (e + 1) - m e = 0
            have := hend (e + 1) (by omega)
            omega
        show rises m (n + d) + rise m (n + d) = rises m n
        omega
    have := hstop (p + 1)
    rw [← Nat.add_assoc] at this
    omega

theorem rises_add_interval {m' : Nat → Nat} {a b n : Nat} (hab : a < b) (han : a < n)
    (hlow : ∀ i < a, m i = 0) (hgap : m b = 0)
    (hm' : ∀ i, m' i = m i + if a ≤ i ∧ i < b then 1 else 0) : rises m' n = rises m n + 1 := by
  have hrise : ∀ i, rise m' i = rise m i + if i = a then 1 else 0 := by
    intro i
    cases i with
    | zero =>
      show m' 0 = m 0 + _
      rw [hm']
      congr 2
      exact propext (by omega)
    | succ i =>
      show m' (i + 1) - m' i = m (i + 1) - m i + _
      rw [hm', hm']
      -- the interval is entered at `a`, and left where the sequence is at nothing
      by_cases ha : i + 1 = a
      · have := hlow i (by omega)
        rw [if_pos (by omega : a ≤ i + 1 ∧ i + 1 < b), if_neg (by omega), if_pos ha]
        omega
      · rw [if_neg ha]
        by_cases hb : i + 1 = b
        · rw [hb, hgap, if_neg (by omega : ¬ (a ≤ b ∧ b < b))]
          omega
        · have hsame : (a ≤ i + 1 ∧ i + 1 < b) ↔ (a ≤ i ∧ i < b) := by omega
          simp only [hsame]
          omega
  have hgen : ∀ n, rises m' n = rises m n + if a < n then 1 else 0 := by
    intro n
    induction n with
    | zero => simp [rises]
    | succ n ih =>
      show rises m' n + rise m' n = rises m n + rise m n + _
      rw [ih, hrise]
      split_ifs <;> omega
  rw [hgen, if_pos han]

end N8n.Collections
