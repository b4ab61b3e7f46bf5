import Mathlib.Data.List.Nodup
import Mathlib.Data.Nat.Init

/-!
# Distances

Walks by their length, and the length of a shortest walk from a node to another.
-/

namespace N8n.Graph

variable {ν : Type}

/-- A walk of `n` edges leads from one node to the other. -/
def Hops (Edge : ν → ν → Prop) : Nat → ν → ν → Prop
  | 0, a, b => a = b
  | n + 1, a, b => ∃ c, Edge a c ∧ Hops Edge n c b

/-- A shortest walk between the nodes has `n` edges. -/
def IsDistance (Edge : ν → ν → Prop) (a b : ν) (n : Nat) : Prop :=
  Hops Edge n a b ∧ ∀ m, Hops Edge m a b → n ≤ m

variable {Edge : ν → ν → Prop} {a b c : ν} {m n : Nat}

theorem hops_succ_iff : Hops Edge (n + 1) a b ↔ ∃ c, Hops Edge n a c ∧ Edge c b := by
  induction n generalizing a with
  | zero =>
    constructor
    · rintro ⟨c, hedge, rfl⟩
      exact ⟨a, rfl, hedge⟩
    · rintro ⟨c, rfl, hedge⟩
      exact ⟨b, hedge, rfl⟩
  | succ n ih =>
    constructor
    · rintro ⟨d, hedge, hrest⟩
      obtain ⟨c, hwalk, hlast⟩ := ih.mp hrest
      exact ⟨c, ⟨d, hedge, hwalk⟩, hlast⟩
    · rintro ⟨c, ⟨d, hedge, hwalk⟩, hlast⟩
      exact ⟨d, hedge, ih.mpr ⟨c, hwalk, hlast⟩⟩

theorem IsDistance.unique (h : IsDistance Edge a b m) (h' : IsDistance Edge a b n) : m = n :=
  Nat.le_antisymm (h.2 n h'.1) (h'.2 m h.1)

theorem isDistance_zero_iff : IsDistance Edge a b 0 ↔ b = a :=
  ⟨fun h => h.1.symm, fun h => ⟨h.symm, fun _ _ => Nat.zero_le _⟩⟩

theorem exists_distance (h : Hops Edge n a b) : ∃ m ≤ n, IsDistance Edge a b m := by
  induction n using Nat.strong_induction_on with
  | _ n ih =>
    by_cases hshorter : ∃ m < n, Hops Edge m a b
    · obtain ⟨m, hlt, hm⟩ := hshorter
      obtain ⟨k, hk, hdistance⟩ := ih m hlt hm
      exact ⟨k, Nat.le_trans hk (Nat.le_of_lt hlt), hdistance⟩
    · exact ⟨n, Nat.le_refl n, h, fun m hm => Nat.le_of_not_lt fun hlt => hshorter ⟨m, hlt, hm⟩⟩

theorem IsDistance.edge (h : IsDistance Edge a b n) (hedge : Edge b c) :
    ∃ m ≤ n + 1, IsDistance Edge a c m :=
  exists_distance (hops_succ_iff.mpr ⟨b, h.1, hedge⟩)

theorem IsDistance.pred (h : IsDistance Edge a c (n + 1)) :
    ∃ b, IsDistance Edge a b n ∧ Edge b c := by
  obtain ⟨b, hwalk, hedge⟩ := hops_succ_iff.mp h.1
  refine ⟨b, ⟨hwalk, fun m hm => ?_⟩, hedge⟩
  have := h.2 (m + 1) (hops_succ_iff.mpr ⟨b, hm, hedge⟩)
  omega

theorem IsDistance.on_the_way (h : IsDistance Edge a b n) (hle : m ≤ n) :
    ∃ c, IsDistance Edge a c m := by
  induction n generalizing b with
  | zero => exact ⟨b, by rwa [Nat.le_zero.mp hle]⟩
  | succ n ih =>
    rcases Nat.lt_or_ge n m with hlt | hge
    · exact ⟨b, by rwa [Nat.le_antisymm hle hlt]⟩
    · obtain ⟨c, hc, -⟩ := h.pred
      exact ih hc hge

theorem IsDistance.lt_length {keys : List ν} (hkeys : ∀ a b, Edge a b → a ∈ keys)
    (h : IsDistance Edge a b n) (hedge : Edge b c) : n < keys.length := by
  -- the nodes on a shortest walk have edges and are distinct
  have hwalk : ∃ l : List ν, l.length = n + 1 ∧ l.Nodup ∧ l ⊆ keys ∧
      ∀ x ∈ l, ∃ m ≤ n, IsDistance Edge a x m := by
    induction n generalizing b c with
    | zero => exact ⟨[b], rfl, List.nodup_singleton b, by simpa using hkeys b c hedge, by
        simpa using h⟩
    | succ n ih =>
      obtain ⟨d, hd, hdb⟩ := h.pred
      obtain ⟨l, hlength, hnodup, hsub, hnear⟩ := ih hd hdb
      refine ⟨b :: l, by simp [hlength], List.nodup_cons.mpr ⟨fun hb => ?_, hnodup⟩,
        List.cons_subset.mpr ⟨hkeys b c hedge, hsub⟩, fun x hx => ?_⟩
      · obtain ⟨m, hm, hdistance⟩ := hnear b hb
        have := h.unique hdistance
        omega
      · rcases List.mem_cons.mp hx with rfl | hx
        · exact ⟨n + 1, Nat.le_refl _, h⟩
        · obtain ⟨m, hm, hdistance⟩ := hnear x hx
          exact ⟨m, by omega, hdistance⟩
  obtain ⟨l, hlength, hnodup, hsub, -⟩ := hwalk
  have hle := hnodup.length_le_of_subset hsub
  omega

end N8n.Graph
