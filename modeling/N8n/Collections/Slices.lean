import Mathlib.Algebra.Order.Floor.Div
import Mathlib.Data.List.Basic

/-!
# Slices of a list

A list is cut into slices of one size, of which the last one may be shorter. The slices that are
not empty are as many as the length divided by the size, rounded up, and make up the list.
-/

namespace N8n.Collections

variable {α : Type} {size : Nat}

/-- The slice with the number `k`. -/
def slice (l : List α) (size k : Nat) : List α := (l.drop (k * size)).take size

theorem flatMap_slice (l : List α) (size m : Nat) :
    (List.range m).flatMap (slice l size) = l.take (m * size) := by
  induction m with
  | zero => simp
  | succ m ih =>
    rw [List.range_succ, List.flatMap_append, ih, List.flatMap_singleton, slice, Nat.succ_mul,
      List.take_add]

theorem lt_ceilDiv_iff (hsize : 0 < size) (n k : Nat) : k < n ⌈/⌉ size ↔ k * size < n := by
  rw [← Nat.not_le, ceilDiv_le_iff_le_mul hsize, Nat.not_le, Nat.mul_comm]

theorem slice_eq_nil_iff (hsize : 0 < size) (l : List α) (k : Nat) :
    slice l size k = [] ↔ l.length ⌈/⌉ size ≤ k := by
  rw [← Nat.not_lt, lt_ceilDiv_iff hsize, slice, List.take_eq_nil_iff, List.drop_eq_nil_iff]
  omega

theorem flatMap_slice_all (hsize : 0 < size) (l : List α) :
    (List.range (l.length ⌈/⌉ size)).flatMap (slice l size) = l := by
  rw [flatMap_slice, List.take_of_length_le]
  have := lt_ceilDiv_iff hsize l.length (l.length ⌈/⌉ size)
  omega

theorem length_slice (hsize : 0 < size) {l : List α} {k : Nat}
    (hk : k + 1 < l.length ⌈/⌉ size) : (slice l size k).length = size := by
  have hlt := (lt_ceilDiv_iff hsize _ _).mp hk
  rw [Nat.succ_mul] at hlt
  rw [slice, List.length_take, List.length_drop]
  omega

end N8n.Collections
