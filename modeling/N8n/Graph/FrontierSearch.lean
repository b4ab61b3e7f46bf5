import Mathlib.Logic.Relation

/-!
# Searching for a frontier

A search that follows the edges of a graph along all branches at once. A branch ends at a node of
the frontier, which it finds, or where it comes to a node for the second time.
`finds_iff_reached_first`: ending branches at cycles loses nothing.
-/

namespace N8n.Graph

open Relation

variable {ν : Type} (Edge : ν → ν → Prop) (Frontier : ν → Prop)

/-- An edge out of a node that is not in the frontier. -/
def Passes (a b : ν) : Prop := ¬ Frontier a ∧ Edge a b

/-- The node is in the frontier, and a walk from `start` over nodes outside it leads there. -/
def ReachedFirst (start n : ν) : Prop :=
  Frontier n ∧ ReflTransGen (Passes Edge Frontier) start n

/-- One step of a branch, which is the node it has come to with the nodes that it has passed. -/
def Follows (s s' : ν × List ν) : Prop :=
  ¬ Frontier s.1 ∧ s.1 ∉ s.2 ∧ ∃ b, Edge s.1 b ∧ s' = (b, s.2 ++ [s.1])

/-- The search from a branch finds the node. -/
def Finds (s : ν × List ν) (n : ν) : Prop :=
  Frontier n ∧ ∃ seen, ReflTransGen (Follows Edge Frontier) s (n, seen)

variable {Edge : ν → ν → Prop} {Frontier : ν → Prop} {start a n : ν} {seen : List ν}

theorem finds_of_frontier (h : Frontier a) : Finds Edge Frontier (a, seen) n ↔ n = a := by
  constructor
  · rintro ⟨-, seen', hrun⟩
    rcases hrun.cases_head with heq | ⟨next, hfollows, -⟩
    · cases heq
      rfl
    · exact absurd h hfollows.1
  · rintro rfl
    exact ⟨h, seen, .refl⟩

theorem not_finds_of_seen (h : ¬ Frontier a) (hseen : a ∈ seen) :
    ¬ Finds Edge Frontier (a, seen) n := by
  rintro ⟨hn, seen', hrun⟩
  rcases hrun.cases_head with heq | ⟨next, hfollows, -⟩
  · cases heq
    exact h hn
  · exact hfollows.2.1 hseen

theorem finds_of_open (h : ¬ Frontier a) (hnew : a ∉ seen) :
    Finds Edge Frontier (a, seen) n ↔ ∃ b, Edge a b ∧ Finds Edge Frontier (b, seen ++ [a]) n := by
  constructor
  · rintro ⟨hn, seen', hrun⟩
    rcases hrun.cases_head with heq | ⟨next, ⟨-, -, b, hedge, rfl⟩, hrest⟩
    · cases heq
      exact absurd hn h
    · exact ⟨b, hedge, hn, seen', hrest⟩
  · rintro ⟨b, hedge, hn, seen', hrest⟩
    exact ⟨hn, seen', .head ⟨h, hnew, b, hedge, rfl⟩ hrest⟩

theorem come_to_first (h : ReflTransGen (Follows Edge Frontier) (start, []) (n, seen))
    (ha : a ∈ seen) : ∃ before, ReflTransGen (Follows Edge Frontier) (start, []) (a, before) ∧
      a ∉ before := by
  have hgen : ∀ s, ReflTransGen (Follows Edge Frontier) (start, []) s → a ∈ s.2 →
      ∃ before, ReflTransGen (Follows Edge Frontier) (start, []) (a, before) ∧ a ∉ before := by
    intro s hs ha
    induction hs with
    | refl => cases ha
    | @tail s s' hs hfollows ih =>
      obtain ⟨-, hnew, b, -, rfl⟩ := hfollows
      rw [List.mem_append, List.mem_singleton] at ha
      rcases ha with ha | rfl
      · exact ih ha
      · exact ⟨s.2, hs, hnew⟩
  exact hgen _ h ha

/-- Every node reached over nodes outside the frontier is come to by a branch that has not passed
it. -/
theorem come_to_of_passes (h : ReflTransGen (Passes Edge Frontier) start n) :
    ∃ seen, ReflTransGen (Follows Edge Frontier) (start, []) (n, seen) ∧ n ∉ seen := by
  induction h with
  | refl => exact ⟨[], .refl, List.not_mem_nil⟩
  | @tail b c _ hpasses ih =>
    obtain ⟨seen, hrun, hnew⟩ := ih
    have hnext : ReflTransGen (Follows Edge Frontier) (start, []) (c, seen ++ [b]) :=
      .tail hrun ⟨hpasses.1, hnew, c, hpasses.2, rfl⟩
    by_cases hold : c ∈ seen ++ [b]
    · exact come_to_first hnext hold
    · exact ⟨seen ++ [b], hnext, hold⟩

theorem finds_iff_reached_first :
    Finds Edge Frontier (start, []) n ↔ ReachedFirst Edge Frontier start n := by
  refine and_congr_right fun _ => ⟨fun ⟨seen, hrun⟩ => ?_, fun h => ?_⟩
  · exact hrun.lift Prod.fst fun s s' ⟨hout, _, b, hedge, heq⟩ => heq ▸ ⟨hout, hedge⟩
  · obtain ⟨seen, hrun, -⟩ := come_to_of_passes h
    exact ⟨seen, hrun⟩

end N8n.Graph
