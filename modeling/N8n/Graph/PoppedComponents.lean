import Mathlib.Data.List.Pairwise
import N8n.Graph.LowLink

/-!
# What the computation by low-link values pops

Whether or not every low-link value arrives in time, the value of a node is the number of a node
that it reaches. So the nodes popped together reach the node that is left, and were entered under
it: each popped set lies in one strongly connected component, and no node is popped twice.
-/

namespace N8n.Graph

open Relation

variable {ν : Type} {children : ν → List ν} [DecidableEq ν]

/-- What holds of values, stack and popped sets in every state of the computation. -/
structure Bounded (children : ν → List ν) (s : LowLink ν) : Prop where
  reached : ∀ x ∈ s.order, ∃ w ∈ s.order, Reach children x w ∧ s.low x = s.order.idxOf w
  lowLe : ∀ x ∈ s.order, s.low x ≤ s.order.idxOf x
  stack : ∀ x ∈ s.stack, x ∈ s.order
  popped : ∀ x ∈ s.components.flatten, x ∈ s.order
  nodup : (s.stack ++ s.components.flatten).Nodup
  same : ∀ component ∈ s.components, ∀ x ∈ component, ∀ y ∈ component, Same children x y

theorem init_bounded : Bounded children (LowLink.init : LowLink ν) where
  reached := by simp [LowLink.init]
  lowLe := by simp [LowLink.init]
  stack := by simp [LowLink.init]
  popped := by simp [LowLink.init]
  nodup := by simp [LowLink.init]
  same := by simp [LowLink.init]

variable {s : LowLink ν} {v : ν}

theorem bounded_enter (hv : v ∉ s.order) (h : Bounded children s) :
    Bounded children (s.apply (.enter v)) := by
  have horder : (s.apply (.enter v)).order = s.order ++ [v] := rfl
  have hidx : ∀ y ∈ s.order, (s.order ++ [v]).idxOf y = s.order.idxOf y :=
    fun y hy => List.idxOf_append_of_mem hy
  have hidxv : (s.order ++ [v]).idxOf v = s.order.length := by
    rw [List.idxOf_append_of_notMem hv]
    simp
  have hnew : (s.apply (.enter v)).low v = s.order.length := Function.update_self ..
  have hold : ∀ x ∈ s.order, (s.apply (.enter v)).low x = s.low x := fun x hx =>
    Function.update_of_ne (fun heq : x = v => hv (heq ▸ hx)) _ _
  refine ⟨fun x hx => ?_, fun x hx => ?_, fun x hx => ?_, fun x hx => ?_, ?_, h.same⟩
  · rw [horder] at hx ⊢
    rcases List.mem_append.mp hx with hx | hx
    · obtain ⟨w, hw, hreach, heq⟩ := h.reached x hx
      refine ⟨w, List.mem_append_left _ hw, hreach, ?_⟩
      rw [hold x hx, hidx w hw, heq]
    · cases List.mem_singleton.mp hx
      exact ⟨v, by simp, .refl, by rw [hidxv, hnew]⟩
  · rw [horder] at hx ⊢
    rcases List.mem_append.mp hx with hx | hx
    · rw [hold x hx, hidx x hx]
      exact h.lowLe x hx
    · cases List.mem_singleton.mp hx
      rw [hidxv, hnew]
  · rw [horder]
    rcases List.mem_cons.mp hx with rfl | hx
    · simp
    · exact List.mem_append_left _ (h.stack x hx)
  · exact List.mem_append_left _ (h.popped x hx)
  · show (v :: s.stack ++ s.components.flatten).Nodup
    rw [List.cons_append, List.nodup_cons, List.mem_append]
    exact ⟨fun hmem => hv (hmem.elim (h.stack v) (h.popped v)), h.nodup⟩

theorem bounded_edge {c : ν} (hedge : c ∈ children v) (h : Bounded children s) :
    Bounded children (s.apply (.edge v c)) := by
  have horder : (s.apply (.edge v c)).order = s.order := by simp [apply_order]
  by_cases hc : c ∈ s.stack
  · have hlow : (s.apply (.edge v c)).low v = min (s.low c) (s.low v) := by
      rw [apply_edge, if_pos hc]
      exact Function.update_self ..
    refine ⟨fun x hx => ?_, fun x hx => ?_, ?_, ?_, ?_, ?_⟩
    · rw [horder] at hx ⊢
      by_cases hxv : x = v
      · subst hxv
        rw [hlow]
        -- the smaller of the two values is the number of a node that either end reaches
        by_cases hle : s.low x ≤ s.low c
        · obtain ⟨w, hw, hreach, heq⟩ := h.reached x hx
          exact ⟨w, hw, hreach, by rw [Nat.min_eq_right hle, heq]⟩
        · obtain ⟨w, hw, hreach, heq⟩ := h.reached c (h.stack c hc)
          exact ⟨w, hw, .head hedge hreach, by rw [Nat.min_eq_left (Nat.le_of_not_le hle), heq]⟩
      · rw [apply_edge_low hxv]
        exact h.reached x hx
    · rw [horder] at hx ⊢
      have hle := h.lowLe x hx
      by_cases hxv : x = v
      · subst hxv
        omega
      · rwa [apply_edge_low hxv]
    · rw [apply_edge_stack, horder]
      exact h.stack
    · rw [apply_edge_components, horder]
      exact h.popped
    · rw [apply_edge_stack, apply_edge_components]
      exact h.nodup
    · rw [apply_edge_components]
      exact h.same
  · rw [apply_edge, if_neg hc]
    exact h

theorem bounded_leave {log : List (ν × ν)} {pre seg below : List ν}
    (hl : Leaving children log s.order pre seg below v) (h : Bounded children s) :
    Bounded children (s.apply (.leave v)) := by
  rw [apply_leave]
  by_cases hroot : s.order.idxOf v = s.low v
  · rw [if_pos hroot]
    have hsplit : s.stack.takeWhile (s.low · = s.order.idxOf v) ++
        s.stack.dropWhile (s.low · = s.order.idxOf v) = s.stack := List.takeWhile_append_dropWhile
    have hvmem : v ∈ s.order := by simp [hl.split]
    -- a popped node reaches the node left, and was entered under it
    have hsame : ∀ x ∈ s.stack.takeWhile (s.low · = s.order.idxOf v), Same children v x := by
      intro x hx
      have hval : s.low x = s.order.idxOf v := by simpa using List.mem_takeWhile_imp hx
      have hmem : x ∈ s.order := h.stack x ((List.takeWhile_sublist _).subset hx)
      obtain ⟨w, hw, hreach, heq⟩ := h.reached x hmem
      have hwv : w = v := (List.idxOf_inj hw).mp (heq.symm.trans hval)
      have hseg : x ∈ v :: seg := by
        have hle := h.lowLe x hmem
        rw [hl.split] at hmem
        rcases List.mem_append.mp hmem with hpre | hseg
        · have := hl.idx_pre hpre
          omega
        · exact hseg
      exact ⟨(hl.trail hseg (trail_refl log x)).reach hl.edges, hwv ▸ hreach⟩
    generalize s.stack.takeWhile (s.low · = s.order.idxOf v) = top at hsplit hsame ⊢
    generalize s.stack.dropWhile (s.low · = s.order.idxOf v) = rest at hsplit ⊢
    have hflatten : (if top = [] then s.components else s.components ++ [top]).flatten =
        s.components.flatten ++ top := by
      split
      · rename_i hnil
        rw [hnil, List.append_nil]
      · simp
    refine ⟨h.reached, h.lowLe, fun x hx => ?_, fun x hx => ?_, ?_, fun component hcomponent => ?_⟩
    · exact h.stack x (hsplit ▸ List.mem_append_right _ hx)
    · rw [hflatten] at hx
      rcases List.mem_append.mp hx with hx | hx
      · exact h.popped x hx
      · exact h.stack x (hsplit ▸ List.mem_append_left _ hx)
    · rw [hflatten]
      refine List.Perm.nodup ?_ h.nodup
      rw [← hsplit, List.append_assoc]
      exact List.perm_append_comm.trans (by rw [List.append_assoc])
    · have hcases : component ∈ s.components ∨ component = top := by
        replace hcomponent : component ∈
          if top = [] then s.components else s.components ++ [top] := hcomponent
        split at hcomponent
        · exact .inl hcomponent
        · simpa using hcomponent
      rcases hcases with hold | rfl
      · exact h.same component hold
      · exact fun x hx y hy => (hsame x hx).symm.trans (hsame y hy)
  · rw [if_neg hroot]
    exact h

theorem bounded_leave_of_inv {nodes : List ν} {fs : List (ν × List ν)} {todo : List ν}
    {es : List (Event ν)} (hinv : Inv children nodes ⟨(v, []) :: fs, todo, es⟩)
    (h : Bounded children (LowLink.after es)) :
    Bounded children (LowLink.after (es ++ [.leave v])) := by
  obtain ⟨pre, seg, hl⟩ := leaving_of_inv hinv
  rw [after_snoc]
  exact bounded_leave hl h

theorem step_bounded {nodes : List ν} {c c' : Config ν} (hinv : Inv children nodes c)
    (h : Bounded children (LowLink.after c.events)) (hstep : Step children c c') :
    Bounded children (LowLink.after c'.events) := by
  have henter : ∀ {es : List (Event ν)} {v : ν}, v ∉ entered es →
      Bounded children (LowLink.after es) →
      Bounded children (LowLink.after (es ++ [.enter v])) := fun hv h => by
    rw [after_snoc]
    exact bounded_enter (by rwa [after_order]) h
  cases hstep with
  | rootSkip _ => exact h
  | rootEnter hr => exact henter hr h
  | enter hc => exact henter hc h
  | @skip v child cs fs todo es _ =>
    have hnested : Nested children (completed es) ((v, child :: cs) :: fs) (entered es) :=
      hinv.nested
    show Bounded children (LowLink.after (es ++ [.edge v child]))
    rw [after_snoc]
    exact bounded_edge (hnested.rem child (by simp)) h
  | @ret v child cs fs todo es =>
    have hnested : Nested children (completed es) ((child, []) :: (v, child :: cs) :: fs)
        (entered es) := hinv.nested
    obtain ⟨order, hbelow⟩ := hnested.tail
    show Bounded children (LowLink.after (es ++ [.leave child] ++ [.edge v child]))
    rw [after_snoc]
    exact bounded_edge (hbelow.rem child (by simp)) (bounded_leave_of_inv hinv h)
  | rootRet => exact bounded_leave_of_inv hinv h

theorem traverse_bounded {nodes : List ν}
    (hclosed : ∀ v ∈ nodes, ∀ y ∈ children v, y ∈ nodes) :
    Bounded children (LowLink.after (traverse children nodes)) := by
  have hgen : ∀ c, Steps children ⟨[], nodes, []⟩ c →
      Bounded children (LowLink.after c.events) := by
    intro c hsteps
    induction hsteps with
    | refl => exact init_bounded
    | tail hrun hstep ih =>
      exact step_bounded (steps_inv hclosed (init_inv children nodes) hrun) ih hstep
  exact hgen _ (traverse_run hclosed)

theorem Bounded.unique (h : Bounded children s) {C D : List ν} {x : ν} (hC : C ∈ s.components)
    (hD : D ∈ s.components) (hxC : x ∈ C) (hxD : x ∈ D) : C = D := by
  have hnodup := (List.nodup_append.mp h.nodup).2.1
  by_contra hne
  have : Std.Symm (@List.Disjoint ν) := ⟨fun _ _ hd _ hx hx' => hd hx' hx⟩
  exact (List.nodup_flatten.mp hnodup).2.forall hC hD hne hxC hxD

end N8n.Graph
