import Mathlib.Data.Nat.Init
import Mathlib.Logic.Relation
import N8n.Collections.OrderedSet

/-!
# Searching with a stack

A search for a node that keeps the nodes to visit on a stack. A node may be on the stack more than
once, and is then visited more than once. The search ends (`exists_stackSearch`), and it finds
the node when a walk leads to it (`stackSearch_iff`).
-/

namespace N8n.Graph

open Collections Relation

variable {ν : Type} [DecidableEq ν] (next : ν → OrderedSet ν) (stop : ν)

/-- Is `stop` come to from the nodes on the stack, the top of which comes first? -/
def stackSearch : Nat → OrderedSet ν → List ν → Option Bool
  | 0, _, _ => none
  | _ + 1, _, [] => some false
  | fuel + 1, seen, v :: rest =>
    if v = stop then some true
    else
      let seen := seen.add v
      stackSearch fuel seen (((next v).filter (· ∉ seen)).elems.reverse ++ rest)

variable {next stop}

variable {seen : OrderedSet ν}

theorem stackSearch_mono {fuel more : Nat} {stack : List ν} {b : Bool}
    (h : stackSearch next stop fuel seen stack = some b) :
    stackSearch next stop (fuel + more) seen stack = some b := by
  induction fuel generalizing seen stack with
  | zero => cases h
  | succ fuel ih =>
    rw [Nat.succ_add]
    cases stack with
    | nil => exact h
    | cons v rest =>
      rw [stackSearch] at h ⊢
      split at h
      · rename_i hv
        rw [if_pos hv]
        exact h
      · rename_i hv
        rw [if_neg hv]
        exact ih h

theorem walk_of_stackSearch {fuel : Nat} {stack : List ν}
    (h : stackSearch next stop fuel seen stack = some true) :
    ∃ p ∈ stack, ReflTransGen (fun a b => b ∈ next a) p stop := by
  induction fuel generalizing seen stack with
  | zero => cases h
  | succ fuel ih =>
    cases stack with
    | nil => cases h
    | cons v rest =>
      rw [stackSearch] at h
      split at h
      · rename_i hv
        exact ⟨v, List.mem_cons_self, hv ▸ .refl⟩
      · obtain ⟨p, hp, hwalk⟩ := ih h
        rcases List.mem_append.mp hp with hp | hp
        · rw [List.mem_reverse, OrderedSet.mem_elems, OrderedSet.mem_filter] at hp
          exact ⟨v, List.mem_cons_self, .head hp.1 hwalk⟩
        · exact ⟨p, List.mem_cons_of_mem v hp, hwalk⟩

/-- The nodes that were seen are not `stop`, and what they lead to was seen or is on the stack. -/
def SeenClosed (next : ν → OrderedSet ν) (stop : ν) (seen : OrderedSet ν) (stack : List ν) : Prop :=
  ∀ x ∈ seen, x ≠ stop ∧ ∀ y ∈ next x, y ∈ seen ∨ y ∈ stack

theorem SeenClosed.visit {v : ν} {rest : List ν} (h : SeenClosed next stop seen (v :: rest))
    (hv : v ≠ stop) :
    SeenClosed next stop (seen.add v)
      (((next v).filter (· ∉ seen.add v)).elems.reverse ++ rest) := by
  intro x hx
  rcases OrderedSet.mem_add.mp hx with hx | rfl
  · refine ⟨(h x hx).1, fun y hy => ?_⟩
    rcases (h x hx).2 y hy with hseen | hstack
    · exact .inl (OrderedSet.mem_add.mpr (.inl hseen))
    · rcases List.mem_cons.mp hstack with rfl | hrest
      · exact .inl (OrderedSet.mem_add.mpr (.inr rfl))
      · exact .inr (List.mem_append_right _ hrest)
  · refine ⟨hv, fun y hy => ?_⟩
    by_cases hseen : y ∈ seen.add x
    · exact .inl hseen
    · refine .inr (List.mem_append_left _ (List.mem_reverse.mpr ?_))
      exact OrderedSet.mem_filter.mpr ⟨hy, by simpa using hseen⟩

theorem no_walk_of_stackSearch {fuel : Nat} {stack : List ν}
    (hclosed : SeenClosed next stop seen stack)
    (h : stackSearch next stop fuel seen stack = some false) {p : ν} (hp : p ∈ seen ∨ p ∈ stack) :
    ¬ ReflTransGen (fun a b => b ∈ next a) p stop := by
  induction fuel generalizing seen stack with
  | zero => cases h
  | succ fuel ih =>
    cases stack with
    | nil =>
      -- nothing leads out of what was seen
      intro hwalk
      have hseen : stop ∈ seen := by
        have hgen : ∀ x, ReflTransGen (fun a b => b ∈ next a) p x → x ∈ seen := by
          intro x hx
          induction hx with
          | refl => exact hp.resolve_right List.not_mem_nil
          | tail _ hstep ihx =>
            exact ((hclosed _ ihx).2 _ hstep).resolve_right List.not_mem_nil
        exact hgen stop hwalk
      exact (hclosed stop hseen).1 rfl
    | cons v rest =>
      rw [stackSearch] at h
      split at h
      · cases h
      · rename_i hv
        refine ih (hclosed.visit hv) h ?_
        rcases hp with hp | hp
        · exact .inl (OrderedSet.mem_add.mpr (.inl hp))
        · rcases List.mem_cons.mp hp with rfl | hp
          · exact .inl (OrderedSet.mem_add.mpr (.inr rfl))
          · exact .inr (List.mem_append_right _ hp)

theorem stackSearch_iff {fuel : Nat} {start : ν} {b : Bool}
    (h : stackSearch next stop fuel .empty [start] = some b) :
    b = true ↔ ReflTransGen (fun a b => b ∈ next a) start stop := by
  cases b with
  | true =>
    obtain ⟨p, hp, hwalk⟩ := walk_of_stackSearch h
    rw [List.mem_singleton.mp hp] at hwalk
    exact iff_of_true rfl hwalk
  | false =>
    have hclosed : SeenClosed next stop .empty [start] := fun x hx => absurd hx (by simp)
    exact iff_of_false (by simp) (no_walk_of_stackSearch hclosed h (.inr (by simp)))

/-! ## The search ends -/

/-- The search ends when it stays among finitely many nodes: a visit sees a node for the first
time, or takes a node off the stack that was seen. -/
theorem exists_stackSearch {nodes : List ν} (hnext : ∀ v, ∀ y ∈ next v, y ∈ nodes)
    (seen : OrderedSet ν) (stack : List ν) (hstack : stack ⊆ nodes) :
    ∃ fuel b, stackSearch next stop fuel seen stack = some b := by
  induction hn : (nodes.filter (· ∉ seen)).length using Nat.strong_induction_on
    generalizing seen stack with
  | _ n ihn =>
    induction hm : (stack.filter (· ∈ seen)).length using Nat.strong_induction_on
      generalizing stack with
    | _ m ihm =>
      cases stack with
      | nil => exact ⟨1, false, rfl⟩
      | cons v rest =>
        by_cases hv : v = stop
        · exact ⟨1, true, by rw [stackSearch, if_pos hv]⟩
        · obtain ⟨hvnodes, hrest⟩ := List.cons_subset.mp hstack
          have hstack' :
              ((next v).filter (· ∉ seen.add v)).elems.reverse ++ rest ⊆ nodes := by
            refine List.append_subset.mpr ⟨fun y hy => ?_, hrest⟩
            exact hnext v y (OrderedSet.mem_filter.mp (List.mem_reverse.mp hy)).1
          have hmore : ∃ fuel b, stackSearch next stop fuel (seen.add v)
              (((next v).filter (· ∉ seen.add v)).elems.reverse ++ rest) = some b := by
            by_cases hseen : v ∈ seen
            · rw [OrderedSet.add_of_mem hseen] at hstack' ⊢
              refine ihm _ ?_ _ hstack' rfl
              have hnone : (((next v).filter (· ∉ seen)).elems.reverse.filter (· ∈ seen)) =
                  [] := by
                refine List.filter_eq_nil_iff.mpr fun y hy => ?_
                simpa using (OrderedSet.mem_filter.mp (List.mem_reverse.mp hy)).2
              rw [← hm, List.filter_append, hnone, List.filter_cons_of_pos (by simpa)]
              simp
            · refine ihn _ ?_ (seen.add v) _ hstack' rfl
              have hfilter : nodes.filter (· ∉ seen.add v) =
                  (nodes.filter (· ∉ seen)).filter (· ≠ v) := by
                rw [List.filter_filter]
                refine List.filter_congr fun y _ => ?_
                simp [and_comm]
              rw [← hn, hfilter]
              exact List.length_filter_lt_length_iff_exists.mpr
                ⟨v, List.mem_filter.mpr ⟨hvnodes, by simpa using hseen⟩, by simp⟩
          obtain ⟨fuel, b, hfuel⟩ := hmore
          exact ⟨fuel + 1, b, by rw [stackSearch, if_neg hv]; exact hfuel⟩

end N8n.Graph
