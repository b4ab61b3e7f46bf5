import Mathlib.Data.List.Basic
import Mathlib.Logic.Relation

/-!
# Recursive queries

A recursive query starts from the rows of a base condition and adds the rows that are linked to a
row already in it, until a round adds none. `queryRounds` makes as many rounds as there are rows,
and `mem_recursiveQuery` says that this is enough: the result has exactly the rows that links lead
to from a row of the base.
-/

namespace N8n.Collections

open Relation

variable {ρ : Type} (rows : List ρ) (base : ρ → Bool) (link : ρ → ρ → Bool)

/-- The rows found after a number of rounds. -/
def queryRounds : Nat → List ρ
  | 0 => []
  | n + 1 => rows.filter fun row => base row || (queryRounds n).any (link · row)

/-- All rows that the query finds. -/
def recursiveQuery : List ρ := queryRounds rows base link rows.length

variable {rows base link}

theorem queryRounds_sublist (n : Nat) :
    (queryRounds rows base link n).Sublist (queryRounds rows base link (n + 1)) := by
  induction n with
  | zero => exact List.nil_sublist _
  | succ n ih =>
    refine List.monotone_filter_right rows fun row hrow => ?_
    rw [Bool.or_eq_true] at hrow ⊢
    refine hrow.imp_right fun h => ?_
    obtain ⟨parent, hparent, hlink⟩ := List.any_eq_true.mp h
    exact List.any_eq_true.mpr ⟨parent, ih.subset hparent, hlink⟩

theorem queryRounds_grow (n : Nat) :
    queryRounds rows base link (n + 1) = queryRounds rows base link n ∨
      n ≤ (queryRounds rows base link n).length := by
  induction n with
  | zero => exact .inr (Nat.zero_le _)
  | succ n ih =>
    by_cases hdone : queryRounds rows base link (n + 1) = queryRounds rows base link n
    · refine .inl ?_
      show rows.filter (fun row => base row || (queryRounds rows base link (n + 1)).any
        (link · row)) = _
      rw [hdone]
      exact hdone
    · have hsub : (queryRounds rows base link n).Sublist (queryRounds rows base link (n + 1)) :=
        queryRounds_sublist n
      have hlength := hsub.length_le
      have hne : (queryRounds rows base link n).length ≠
          (queryRounds rows base link (n + 1)).length := fun h =>
        hdone (hsub.eq_of_length h).symm
      have hn := ih.resolve_left hdone
      exact .inr (by omega)

theorem recursiveQuery_fixed :
    rows.filter (fun row => base row || (recursiveQuery rows base link).any (link · row)) =
      recursiveQuery rows base link := by
  rcases queryRounds_grow rows.length with h | h
  · exact h
  · have hsub : (queryRounds rows base link (rows.length + 1)).Sublist rows :=
      List.filter_sublist
    exact ((queryRounds_sublist rows.length).eq_of_length_le (Nat.le_trans hsub.length_le h)).symm

theorem mem_recursiveQuery {row : ρ} :
    row ∈ recursiveQuery rows base link ↔ ∃ first ∈ rows, base first = true ∧
      ReflTransGen (fun parent child => child ∈ rows ∧ link parent child = true) first row := by
  constructor
  · have hsound : ∀ n, ∀ row ∈ queryRounds rows base link n, ∃ first ∈ rows, base first = true ∧
        ReflTransGen (fun parent child => child ∈ rows ∧ link parent child = true) first row := by
      intro n
      induction n with
      | zero => simp [queryRounds]
      | succ n ih =>
        intro row hrow
        obtain ⟨hmem, hcond⟩ := List.mem_filter.mp hrow
        rcases (Bool.or_eq_true _ _).mp hcond with hbase | hlinked
        · exact ⟨row, hmem, hbase, .refl⟩
        · obtain ⟨parent, hparent, hlink⟩ := List.any_eq_true.mp hlinked
          obtain ⟨first, hfirst, hbase, hwalk⟩ := ih parent hparent
          exact ⟨first, hfirst, hbase, hwalk.tail ⟨hmem, hlink⟩⟩
    exact hsound rows.length row
  · rintro ⟨first, hfirst, hbase, hwalk⟩
    induction hwalk with
    | refl =>
      rw [← recursiveQuery_fixed]
      exact List.mem_filter.mpr ⟨hfirst, by rw [hbase, Bool.true_or]⟩
    | @tail parent child _ hchild ih =>
      rw [← recursiveQuery_fixed]
      refine List.mem_filter.mpr ⟨hchild.1, (Bool.or_eq_true _ _).mpr (.inr ?_)⟩
      exact List.any_eq_true.mpr ⟨parent, ih, hchild.2⟩

end N8n.Collections
