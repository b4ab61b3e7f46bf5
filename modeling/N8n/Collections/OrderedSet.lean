import Mathlib.Data.List.Nodup
import Mathlib.Data.List.Perm.Lattice

/-!
# Sets in insertion order

`OrderedSet α` is a finite set whose elements are kept in the order in which they were first
added, as in a JavaScript `Set`. Every element occurs once, by a field of the structure.
-/

namespace N8n.Collections

/-- A finite set with its elements in insertion order. -/
structure OrderedSet (α : Type) where
  elems : List α
  nodup : elems.Nodup
  deriving DecidableEq, Repr

namespace OrderedSet

variable {α : Type}

@[ext] theorem ext {s t : OrderedSet α} (h : s.elems = t.elems) : s = t := by
  cases s
  cases t
  cases h
  rfl

/-- The set without elements. -/
def empty : OrderedSet α := ⟨[], List.nodup_nil⟩

instance instMembership : Membership α (OrderedSet α) := ⟨fun s a => a ∈ s.elems⟩

variable {s : OrderedSet α} {a : α}

theorem mem_elems : a ∈ s.elems ↔ a ∈ s := Iff.rfl

/-- The number of elements. -/
def size (s : OrderedSet α) : Nat := s.elems.length

/-- Keep the elements that satisfy a predicate. -/
def filter (s : OrderedSet α) (p : α → Bool) : OrderedSet α := ⟨s.elems.filter p, s.nodup.filter p⟩

@[simp] theorem mem_empty : a ∉ (empty : OrderedSet α) := List.not_mem_nil

variable {b : α}

@[simp] theorem mem_filter {p : α → Bool} : b ∈ s.filter p ↔ b ∈ s ∧ p b = true :=
  List.mem_filter

theorem size_eq_of_mem_iff {t : OrderedSet α} (h : ∀ a, a ∈ s ↔ a ∈ t) : s.size = t.size :=
  ((List.perm_ext_iff_of_nodup s.nodup t.nodup).mpr h).length_eq

theorem size_eq_zero_iff : s.size = 0 ↔ ∀ a, a ∉ s := by
  rw [size, List.length_eq_zero_iff, List.eq_nil_iff_forall_not_mem]
  rfl

theorem size_le_one_iff : s.size ≤ 1 ↔ ∀ a ∈ s, ∀ b ∈ s, a = b := by
  obtain ⟨elems, hnodup⟩ := s
  change elems.length ≤ 1 ↔ ∀ a ∈ elems, ∀ b ∈ elems, a = b
  match elems, hnodup with
  | [], _ => simp
  | [a], _ => simp
  | a :: b :: rest, hnodup =>
    refine iff_of_false (by simp) fun h => ?_
    have hab : a = b := h a (by simp) b (by simp)
    rw [hab] at hnodup
    simp at hnodup

theorem head_eq_some_iff (h : s.size ≤ 1) : s.elems.head? = some a ↔ a ∈ s := by
  refine ⟨fun hhead => List.mem_of_mem_head? hhead, fun ha => ?_⟩
  cases hhead : s.elems.head? with
  | none =>
    rw [List.head?_eq_none_iff] at hhead
    rw [← mem_elems, hhead] at ha
    cases ha
  | some b => rw [size_le_one_iff.mp h b (List.mem_of_mem_head? hhead) a ha]

variable [DecidableEq α]

instance instDecidableMem (s : OrderedSet α) (a : α) : Decidable (a ∈ s) :=
  inferInstanceAs (Decidable (a ∈ s.elems))

/-- Add an element at the end, unless the set has it. -/
def add (s : OrderedSet α) (a : α) : OrderedSet α where
  elems := if a ∈ s.elems then s.elems else s.elems ++ [a]
  nodup := by
    split
    · exact s.nodup
    · rename_i ha
      exact List.nodup_append.mpr ⟨s.nodup, List.nodup_singleton a, fun b hb c hc hbc =>
        ha ((List.mem_singleton.mp hc) ▸ hbc ▸ hb)⟩

/-- Add the elements of a list one after the other. -/
def addAll (s : OrderedSet α) (l : List α) : OrderedSet α := l.foldl add s

/-- The set of the elements of a list. -/
def ofList (l : List α) : OrderedSet α := empty.addAll l

@[simp] theorem mem_add : b ∈ s.add a ↔ b ∈ s ∨ b = a := by
  change b ∈ (if a ∈ s.elems then s.elems else s.elems ++ [a]) ↔ b ∈ s.elems ∨ b = a
  split
  · rename_i ha
    exact ⟨.inl, fun h => h.elim id (· ▸ ha)⟩
  · simp

@[simp] theorem mem_addAll {l : List α} : b ∈ s.addAll l ↔ b ∈ s ∨ b ∈ l := by
  induction l generalizing s with
  | nil => simp [addAll]
  | cons a l ih =>
    rw [addAll, List.foldl_cons, ← addAll, ih, mem_add, List.mem_cons, or_assoc]

@[simp] theorem mem_ofList {l : List α} : b ∈ ofList l ↔ b ∈ l := by
  simp [ofList]

theorem add_of_mem (h : a ∈ s) : s.add a = s :=
  ext (if_pos h)

end OrderedSet

end N8n.Collections
