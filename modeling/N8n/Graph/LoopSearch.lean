import Mathlib.Data.List.Chain
import Mathlib.Logic.Relation

/-!
# Loops that a search upwards finds

In a graph that is given by the list of the parents of each node, a depth-first search upwards which
stops at the first node that it meets again always goes on to the first parent that has a loop
above it. `LeadsTo` is this step, and `mem_cycle_iff` says when the loop that the search ends in
goes through the node that it starts from.
-/

namespace N8n.Graph

open Relation

variable {ν : Type} {r : ν → ν → Prop} {a b m n x : ν} {l : List ν}

/-! ## Cycles -/

/-- The nodes of a cycle, each in front of the one that the relation leads to from it. -/
def IsCycle (r : ν → ν → Prop) : List ν → Prop
  | [] => False
  | a :: l => (a :: l).Nodup ∧ (a :: l ++ [a]).IsChain r

theorem transGen_of_isChain (h : (a :: l ++ [b]).IsChain r) : TransGen r a b := by
  induction l generalizing a with
  | nil => exact .single (List.isChain_pair.mp h)
  | cons c l ih =>
      obtain ⟨hstep, hrest⟩ := List.isChain_cons_cons.mp h
      exact .head hstep (ih hrest)

theorem transGen_of_mem (h : (l ++ [b]).IsChain r) (ha : a ∈ l) : TransGen r a b := by
  obtain ⟨before, after, rfl⟩ := List.append_of_mem ha
  rw [List.append_assoc] at h
  exact transGen_of_isChain h.right_of_append

theorem IsCycle.mono {s : ν → ν → Prop} (hsub : ∀ a b, r a b → s a b) (h : IsCycle r l) :
    IsCycle s l := by
  cases l with
  | nil => exact h
  | cons a l => exact ⟨h.1, h.2.imp hsub⟩

theorem IsCycle.transGen (h : IsCycle r l) (ha : a ∈ l) (hb : b ∈ l) : TransGen r a b := by
  cases l with
  | nil => exact h.elim
  | cons c l =>
      have hto : TransGen r a c := transGen_of_mem h.2 ha
      have hloop : TransGen r c c := transGen_of_isChain h.2
      rcases List.mem_cons.mp hb with rfl | hb
      · exact hto
      · obtain ⟨before, after, rfl⟩ := List.append_of_mem hb
        have hchain : ((c :: before ++ [b]) ++ (after ++ [c])).IsChain r := by simpa using h.2
        exact hto.trans (transGen_of_isChain hchain.left_of_append)

theorem IsCycle.closed (hfun : ∀ a b c, r a b → r a c → b = c) (h : IsCycle r l) (ha : a ∈ l)
    (hstep : r a b) : b ∈ l := by
  cases l with
  | nil => exact h.elim
  | cons c l =>
      obtain ⟨before, after, hsplit⟩ := List.append_of_mem ha
      have hchain := h.2
      rw [hsplit, List.append_assoc] at hchain
      have hrest := hchain.right_of_append
      cases after with
      | nil =>
          rw [hfun a b c hstep (List.isChain_pair.mp hrest)]
          exact List.mem_cons_self ..
      | cons d after =>
          rw [hfun a b d hstep (List.isChain_cons_cons.mp hrest).1, hsplit]
          simp

theorem IsCycle.closed_reach (hfun : ∀ a b c, r a b → r a c → b = c) (h : IsCycle r l)
    (ha : a ∈ l) (hreach : ReflTransGen r a b) : b ∈ l := by
  induction hreach with
  | refl => exact ha
  | tail _ hstep ih => exact h.closed hfun ih hstep

/-- A node that leads back to itself is reached from all that it leads to, where there is one step
from each node only. -/
theorem reaches_back (hfun : ∀ a b c, r a b → r a c → b = c) (hloop : TransGen r n n)
    (h : ReflTransGen r n m) : ReflTransGen r m n := by
  induction h with
  | refl => exact .refl
  | tail _ hstep ih =>
      rcases ReflTransGen.cases_head ih with heq | ⟨next, hnext, hrest⟩
      · rw [heq] at hstep
        obtain ⟨next, hnext, hrest⟩ := TransGen.head'_iff.mp hloop
        rwa [hfun _ _ _ hstep hnext]
      · rwa [hfun _ _ _ hstep hnext]

/-- The cycle that a node leads to goes through the node exactly when the node leads back to
itself. -/
theorem mem_cycle_iff (hfun : ∀ a b c, r a b → r a c → b = c) (h : IsCycle r l) (hx : x ∈ l)
    (hreach : ReflTransGen r n x) : n ∈ l ↔ TransGen r n n := by
  constructor
  · intro hn
    exact h.transGen hn hn
  · intro hloop
    exact h.closed_reach hfun hx (reaches_back hfun hloop hreach)

/-! ## Loops above a node -/

/-- The relation leads from the node to a node that is on a cycle. -/
def LoopAbove (r : ν → ν → Prop) (n : ν) : Prop := ∃ c, ReflTransGen r n c ∧ TransGen r c c

theorem loopAbove_of_step (hstep : r a b) (h : LoopAbove r b) : LoopAbove r a := by
  obtain ⟨c, hreach, hloop⟩ := h
  exact ⟨c, .head hstep hreach, hloop⟩

theorem LoopAbove.step (h : LoopAbove r a) : ∃ b, r a b ∧ LoopAbove r b := by
  obtain ⟨c, hreach, hloop⟩ := h
  rcases ReflTransGen.cases_head hreach with rfl | ⟨b, hstep, hrest⟩
  · obtain ⟨b, hstep, hrest⟩ := TransGen.head'_iff.mp hloop
    exact ⟨b, hstep, a, hrest, hloop⟩
  · exact ⟨b, hstep, c, hrest, hloop⟩

theorem IsCycle.loopAbove (h : IsCycle r l) (ha : a ∈ l) : LoopAbove r a :=
  ⟨a, .refl, h.transGen ha ha⟩

variable {parents : ν → List ν}

/-- The second node is a parent of the first. -/
def IsParent (parents : ν → List ν) (a b : ν) : Prop := b ∈ parents a

open Classical in
/-- The second node is the first one of the parents that has a loop above it. -/
def LeadsTo (parents : ν → List ν) (a b : ν) : Prop :=
  (parents a).find? (fun p => decide (LoopAbove (IsParent parents) p)) = some b

theorem leadsTo_functional (parents : ν → List ν) (a b c : ν) (hb : LeadsTo parents a b)
    (hc : LeadsTo parents a c) : b = c := Option.some.inj (hb.symm.trans hc)

theorem LeadsTo.isParent (h : LeadsTo parents a b) : IsParent parents a b :=
  List.mem_of_find?_eq_some h

theorem LeadsTo.loopAbove (h : LeadsTo parents a b) : LoopAbove (IsParent parents) b := by
  obtain ⟨hloop, -⟩ := List.find?_eq_some_iff_append.mp h
  simpa using hloop

theorem exists_leadsTo (h : LoopAbove (IsParent parents) a) :
    ∃ b before after, LeadsTo parents a b ∧ parents a = before ++ b :: after ∧
      ∀ p ∈ before, ¬ LoopAbove (IsParent parents) p := by
  classical
  obtain ⟨b, hstep, hloop⟩ := h.step
  cases hfind : (parents a).find? (fun p => decide (LoopAbove (IsParent parents) p)) with
  | none => exact absurd hloop (by simpa using List.find?_eq_none.mp hfind b hstep)
  | some first =>
      obtain ⟨-, before, after, hsplit, hbefore⟩ := List.find?_eq_some_iff_append.mp hfind
      exact ⟨first, before, after, hfind, hsplit, fun p hp => by simpa using hbefore p hp⟩

end N8n.Graph
