import N8n.Graph.LowLink

/-!
# The depth-first walk from a node

The nodes that a depth-first traversal enters when it starts at one node, or at some nodes in turn.
It meets every node that can be reached, once.
-/

namespace N8n.Graph

open Relation

variable {ν : Type} [DecidableEq ν] {children : ν → List ν} {nodes : List ν}

/-- The nodes in the order in which a depth-first walk from `v` meets them, in a graph of the given
nodes. -/
def walk (children : ν → List ν) (nodes : List ν) (v : ν) : List ν :=
  entered (follow children (nodes.length + 1) [] v)

variable {fuel : Nat} {visited : List ν} {v : ν}

/-- What holds of the visited nodes, when it stays true as they grow by a node with a property that
the children inherit, holds after a visit. -/
theorem follow_induction {P : List ν → Prop} {Q : ν → Prop}
    (hclosed : ∀ v, Q v → ∀ y ∈ children v, Q y)
    (hP : ∀ visited v, P visited → v ∉ visited → Q v → P (visited ++ [v])) (h : P visited)
    (hv : Q v) : P (visited ++ entered (follow children fuel visited v)) := by
  induction fuel generalizing visited v with
  | zero => simpa [follow] using h
  | succ fuel ih =>
    by_cases hmem : v ∈ visited
    · simpa [follow_visited hmem] using h
    · have hloop : ∀ (cs : List ν) (es : List (Event ν)), (∀ c ∈ cs, Q c) →
          P (visited ++ v :: entered es) →
          P (visited ++ v :: entered (followChildren children fuel visited v cs es)) := by
        intro cs
        induction cs with
        | nil => exact fun es _ hes => hes
        | cons c cs ihcs =>
          intro es hcs hes
          rw [followChildren, List.foldl_cons, ← followChildren]
          refine ihcs _ (fun c' hc' => hcs c' (by simp [hc'])) ?_
          simpa using ih hes (hcs c (by simp))
      have hdone := hloop (children v) [] (hclosed v hv) (by simpa using hP visited v h hmem hv)
      rw [follow_new hmem]
      simpa using hdone

theorem follow_visited_nodup (hclosed : ∀ v ∈ nodes, ∀ y ∈ children v, y ∈ nodes)
    (hnodup : visited.Nodup) (hin : ∀ x ∈ visited, x ∈ nodes) (hv : v ∈ nodes) :
    (visited ++ entered (follow children fuel visited v)).Nodup ∧
      ∀ x ∈ visited ++ entered (follow children fuel visited v), x ∈ nodes := by
  refine follow_induction (P := fun l => l.Nodup ∧ ∀ x ∈ l, x ∈ nodes) hclosed ?_ ⟨hnodup, hin⟩ hv
  rintro l w ⟨hl, hlin⟩ hw hwin
  refine ⟨?_, by simpa [or_imp, forall_and, hwin] using hlin⟩
  simpa [List.nodup_append] using ⟨hl, fun a ha heq => hw (heq ▸ ha)⟩

/-! ## Visits -/

/-- The visited nodes after a visit. -/
def visit (children : ν → List ν) (fuel : Nat) (visited : List ν) (v : ν) : List ν :=
  visited ++ entered (follow children fuel visited v)

theorem visit_old (h : v ∈ visited) : visit children fuel visited v = visited := by
  simp [visit, follow_visited h]

theorem visit_new (h : v ∉ visited) :
    visit children (fuel + 1) visited v =
      (children v).foldl (visit children fuel) (visited ++ [v]) := by
  have hloop : ∀ (cs : List ν) (es : List (Event ν)),
      visited ++ v :: entered (followChildren children fuel visited v cs es) =
        cs.foldl (visit children fuel) (visited ++ v :: entered es) := by
    intro cs
    induction cs with
    | nil => exact fun es => rfl
    | cons c cs ih =>
      intro es
      rw [followChildren, List.foldl_cons, ← followChildren, ih, List.foldl_cons]
      simp [visit]
  have hdone := hloop (children v) []
  rw [visit, follow_new h]
  simpa using hdone

theorem foldl_visit_eq (roots : List ν) (es : List (Event ν)) :
    roots.foldl (visit children fuel) (entered es) =
      entered (roots.foldl (fun es v => es ++ follow children fuel (entered es) v) es) := by
  induction roots generalizing es with
  | nil => rfl
  | cons r roots ih =>
    rw [List.foldl_cons, List.foldl_cons, ← ih, entered_append]
    rfl

theorem subset_foldl_visit (roots visited : List ν) :
    visited ⊆ roots.foldl (visit children fuel) visited := by
  induction roots generalizing visited with
  | nil => exact List.Subset.refl _
  | cons r roots ih => exact List.Subset.trans (List.subset_append_left _ _) (ih _)

theorem roots_subset_visits (roots visited : List ν) :
    roots ⊆ roots.foldl (visit children (fuel + 1)) visited := by
  induction roots generalizing visited with
  | nil => exact List.nil_subset _
  | cons r roots ih =>
    have hmem : r ∈ visit children (fuel + 1) visited r := by
      by_cases hr : r ∈ visited
      · rwa [visit_old hr]
      · rw [visit_new hr]
        exact subset_foldl_visit _ _ (by simp)
    exact List.cons_subset.mpr ⟨subset_foldl_visit roots _ hmem, ih _⟩

theorem mem_visits_iff (hclosed : ∀ v ∈ nodes, ∀ y ∈ children v, y ∈ nodes) {roots : List ν}
    (hroots : ∀ r ∈ roots, r ∈ nodes) {x : ν} :
    x ∈ roots.foldl (visit children (nodes.length + 1)) [] ↔ ∃ r ∈ roots, Reach children r x := by
  have hstart : Inv children nodes ⟨[], roots ++ nodes, []⟩ := by
    refine ⟨List.nodup_nil, by simp, ?_, fun v hv => .inl (List.mem_append_right _ hv), by simp,
      by simp, .nil [], by simp⟩
    intro v hv
    exact (List.mem_append.mp hv).elim (hroots v) id
  have hsteps := roots_run hclosed hstart
  have hend := steps_inv hclosed hstart hsteps
  have heq : roots.foldl (visit children (nodes.length + 1)) [] =
      entered (roots.foldl (fun es v =>
        es ++ follow children (nodes.length + 1) (entered es) v) []) := foldl_visit_eq roots []
  generalize roots.foldl (fun es v => es ++ follow children (nodes.length + 1) (entered es) v) [] =
    es at *
  constructor
  · have hsound : ∀ (todo visited : List ν), (∀ r ∈ todo, r ∈ roots) →
        (∀ y ∈ visited, ∃ r ∈ roots, Reach children r y) →
        ∀ y ∈ todo.foldl (visit children (nodes.length + 1)) visited,
          ∃ r ∈ roots, Reach children r y := by
      intro todo
      induction todo with
      | nil => exact fun _ _ h => h
      | cons r todo ih =>
        intro visited htodo h
        refine ih _ (fun r' hr' => htodo r' (by simp [hr'])) ?_
        exact follow_induction (P := fun l => ∀ y ∈ l, ∃ r ∈ roots, Reach children r y)
          (Q := fun y => ∃ r ∈ roots, Reach children r y)
          (fun w ⟨r, hr, hw⟩ y hy => ⟨r, hr, hw.tail hy⟩)
          (fun l w hl _ hw => by simpa [or_imp, forall_and, hw] using hl) h
          ⟨r, htodo r (by simp), .refl⟩
    exact fun hx => hsound roots [] (fun _ h => h) (by simp) x hx
  · rintro ⟨r, hr, hreach⟩
    induction hreach with
    | refl => exact roots_subset_visits roots [] hr
    | tail _ hedge ih =>
      -- no node is being visited any more, so the children of all visited nodes are visited
      rw [heq] at ih ⊢
      exact (hend.left _ ih (by simp [Config.active]) _ hedge).mem
        (fun e he => (hend.ends e he).2) ih

theorem mem_walk_iff (hclosed : ∀ v ∈ nodes, ∀ y ∈ children v, y ∈ nodes) (hv : v ∈ nodes) {x : ν} :
    x ∈ walk children nodes v ↔ Reach children v x := by
  have h : x ∈ [v].foldl (visit children (nodes.length + 1)) [] ↔ ∃ r ∈ [v], Reach children r x :=
    mem_visits_iff hclosed (by simpa using hv)
  simpa [visit, walk] using h

end N8n.Graph
