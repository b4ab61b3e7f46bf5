import Mathlib.Data.List.Basic
import Mathlib.Data.List.Nodup
import Mathlib.Logic.Relation

/-!
# Depth-first traversals

A depth-first traversal of a graph, given by the list of the children of each node, as the
sequence of its events: a node is entered, an edge is completed once its target has been
visited, and a node is left. `follow` is the recursive traversal. `Step` takes it apart into
steps of a machine with an explicit stack of frames, and `follow_runs` shows that the recursion
performs runs of that machine. Its invariant `Inv` is the general part of a proof about any
computation that listens to the events.

A *trail* is a walk whose edges were completed from the last one to the first; what a node
learns from its children during the traversal travels along trails.
-/

namespace N8n.Graph

open Relation

variable {ν : Type}

/-- The events of a traversal. -/
inductive Event (ν : Type) where
  | enter (v : ν)
  | edge (v c : ν)
  | leave (v : ν)
  deriving DecidableEq, Repr

/-- The nodes entered, in the order of their entries. -/
def entered (es : List (Event ν)) : List ν :=
  es.filterMap fun
    | .enter v => some v
    | _ => none

/-- The edges completed, the last one first. -/
def completed (es : List (Event ν)) : List (ν × ν) :=
  (es.filterMap fun
    | .edge v c => some (v, c)
    | _ => none).reverse

@[simp] theorem entered_append (es es' : List (Event ν)) :
    entered (es ++ es') = entered es ++ entered es' := List.filterMap_append ..

@[simp] theorem entered_nil : entered ([] : List (Event ν)) = [] := rfl

@[simp] theorem entered_enter (v : ν) (es : List (Event ν)) :
    entered (.enter v :: es) = v :: entered es := rfl

@[simp] theorem entered_edge (v c : ν) (es : List (Event ν)) :
    entered (.edge v c :: es) = entered es := rfl

@[simp] theorem entered_leave (v : ν) (es : List (Event ν)) :
    entered (.leave v :: es) = entered es := rfl

@[simp] theorem completed_nil : completed ([] : List (Event ν)) = [] := rfl

@[simp] theorem completed_snoc_enter (es : List (Event ν)) (v : ν) :
    completed (es ++ [.enter v]) = completed es := by
  simp [completed]

@[simp] theorem completed_snoc_edge (es : List (Event ν)) (v c : ν) :
    completed (es ++ [.edge v c]) = (v, c) :: completed es := by
  simp [completed]

@[simp] theorem completed_snoc_leave (es : List (Event ν)) (v : ν) :
    completed (es ++ [.leave v]) = completed es := by
  simp [completed]

@[simp] theorem completed_return (es : List (Event ν)) (c v c' : ν) :
    completed (es ++ [.leave c, .edge v c']) = (v, c') :: completed es := by
  simp [completed]

/-! ## Trails -/

/-- A walk from the first node to the second whose edges were completed from the last one to
the first. -/
def Trail : List (ν × ν) → ν → ν → Prop
  | [], v, w => v = w
  | (a, b) :: log, v, w => Trail log v w ∨ v = a ∧ Trail log b w

/-- Trails can be searched for. -/
instance instDecidableTrail [DecidableEq ν] :
    (log : List (ν × ν)) → (v w : ν) → Decidable (Trail log v w)
  | [], v, w => inferInstanceAs (Decidable (v = w))
  | (a, b) :: log, v, w =>
    have := instDecidableTrail log v w
    have := instDecidableTrail log b w
    inferInstanceAs (Decidable (Trail log v w ∨ v = a ∧ Trail log b w))

theorem trail_refl (log : List (ν × ν)) (v : ν) : Trail log v v := by
  induction log with
  | nil => rfl
  | cons e log ih => exact .inl ih

variable {v : ν}

theorem trail_cons_of_ne {log : List (ν × ν)} {a b w : ν} (h : v ≠ a) :
    Trail ((a, b) :: log) v w ↔ Trail log v w := by
  simp [Trail, h]

theorem trail_cons_self {log : List (ν × ν)} {a b w : ν} :
    Trail ((a, b) :: log) a w ↔ Trail log a w ∨ Trail log b w := by
  simp [Trail]

theorem Trail.reach {children : ν → List ν} {log : List (ν × ν)} {v w : ν}
    (hlog : ∀ e ∈ log, e.2 ∈ children e.1) (h : Trail log v w) :
    ReflTransGen (fun a b => b ∈ children a) v w := by
  induction log generalizing v with
  | nil => exact h ▸ .refl
  | cons e log ih =>
    have hrest : ∀ e ∈ log, e.2 ∈ children e.1 := fun e he => hlog e (by simp [he])
    rcases h with h | ⟨rfl, h⟩
    · exact ih hrest h
    · exact .head (hlog e (by simp)) (ih hrest h)

theorem Trail.mem {log : List (ν × ν)} {nodes : List ν} {v w : ν}
    (hlog : ∀ e ∈ log, e.2 ∈ nodes) (hv : v ∈ nodes) (h : Trail log v w) : w ∈ nodes := by
  induction log generalizing v with
  | nil => exact h ▸ hv
  | cons e log ih =>
    have hrest : ∀ e ∈ log, e.2 ∈ nodes := fun e he => hlog e (by simp [he])
    rcases h with h | ⟨rfl, h⟩
    · exact ih hrest hv h
    · exact ih hrest (hlog e (by simp)) h

/-! ## The machine -/

/-- A state of the traversal: the nodes that are being visited, the innermost first, each with
the children that it has yet to complete; the nodes to start from; and the events so far. -/
structure Config (ν : Type) where
  frames : List (ν × List ν)
  todo : List ν
  events : List (Event ν)

/-- The nodes that are being visited. -/
def Config.active (c : Config ν) : List ν := c.frames.map Prod.fst

/-- The steps of the traversal. Returning from a child completes the edge to it. -/
inductive Step (children : ν → List ν) : Config ν → Config ν → Prop where
  | rootSkip {r todo es} : r ∈ entered es →
      Step children ⟨[], r :: todo, es⟩ ⟨[], todo, es⟩
  | rootEnter {r todo es} : r ∉ entered es →
      Step children ⟨[], r :: todo, es⟩ ⟨[(r, children r)], todo, es ++ [.enter r]⟩
  | enter {v c cs fs todo es} : c ∉ entered es →
      Step children ⟨(v, c :: cs) :: fs, todo, es⟩
        ⟨(c, children c) :: (v, c :: cs) :: fs, todo, es ++ [.enter c]⟩
  | skip {v c cs fs todo es} : c ∈ entered es →
      Step children ⟨(v, c :: cs) :: fs, todo, es⟩ ⟨(v, cs) :: fs, todo, es ++ [.edge v c]⟩
  | ret {v c cs fs todo es} :
      Step children ⟨(c, []) :: (v, c :: cs) :: fs, todo, es⟩
        ⟨(v, cs) :: fs, todo, (es ++ [.leave c]) ++ [.edge v c]⟩
  | rootRet {r todo es} :
      Step children ⟨[(r, [])], todo, es⟩ ⟨[], todo, es ++ [.leave r]⟩

/-- Several steps. -/
abbrev Steps (children : ν → List ν) : Config ν → Config ν → Prop :=
  ReflTransGen (Step children)

/-! ## The invariant -/

/-- How the frames lie in the order of entries. Each node being visited is followed by the nodes
entered under it that have been left, whose trails are trails of it as well; the trails of the
children that it has completed are trails of it, too. -/
inductive Nested (children : ν → List ν) (log : List (ν × ν)) :
    List (ν × List ν) → List ν → Prop where
  | nil (done : List ν) : Nested children log [] done
  | cons {v rem fs pre seg} : Nested children log fs pre →
      (∀ f ∈ fs.head?, f.2.head? = some v) →
      (∀ x ∈ seg, ∀ w, Trail log x w → Trail log v w) →
      (∀ y ∈ rem, y ∈ children v) →
      (∀ y ∈ children v, y ∈ rem ∨ Trail log v y) →
      Nested children log ((v, rem) :: fs) (pre ++ v :: seg)

/-- What holds in every state of a traversal. -/
structure Inv (children : ν → List ν) (nodes : List ν) (c : Config ν) : Prop where
  nodup : (entered c.events).Nodup
  inNodes : ∀ v ∈ entered c.events, v ∈ nodes
  todo : ∀ v ∈ c.todo, v ∈ nodes
  seen : ∀ v ∈ nodes, v ∈ c.todo ∨ v ∈ entered c.events
  edges : ∀ e ∈ completed c.events, e.2 ∈ children e.1
  ends : ∀ e ∈ completed c.events, e.1 ∈ entered c.events ∧ e.2 ∈ entered c.events
  nested : Nested children (completed c.events) c.frames (entered c.events)
  left : ∀ x ∈ entered c.events, x ∉ c.active → ∀ y ∈ children x,
    Trail (completed c.events) x y

variable {children : ν → List ν} {log : List (ν × ν)} {nodes : List ν}

theorem Nested.mem {fs : List (ν × List ν)} {order : List ν} (h : Nested children log fs order)
    {f : ν × List ν} (hf : f ∈ fs) : f.1 ∈ order := by
  induction h with
  | nil => cases hf
  | cons _ _ _ _ _ ih =>
    rcases List.mem_cons.mp hf with rfl | hf
    · simp
    · simp [ih hf]

theorem Nested.edge {fs : List (ν × List ν)} {order : List ν} {a b : ν}
    (h : Nested children log fs order) (ha : a ∉ order) :
    Nested children ((a, b) :: log) fs order := by
  induction h with
  | nil done => exact .nil done
  | @cons v rem fs pre seg _ hlink hseg hrem hdone ih =>
    have hne : ∀ x ∈ v :: seg, x ≠ a := fun x hx heq => ha (by simp [← heq, hx])
    refine .cons (ih fun hmem => ha (by simp [hmem])) hlink (fun x hx w => ?_) hrem
      fun y hy => ?_
    · rw [trail_cons_of_ne (hne x (by simp [hx])), trail_cons_of_ne (hne v (by simp))]
      exact hseg x hx w
    · rw [trail_cons_of_ne (hne v (by simp))]
      exact hdone y hy

theorem Nested.reach {f : ν × List ν} {fs : List (ν × List ν)} {order : List ν}
    (h : Nested children log (f :: fs) order) {g : ν × List ν} (hg : g ∈ f :: fs) :
    ReflTransGen (fun a b => b ∈ children a) g.1 f.1 := by
  induction fs generalizing f order with
  | nil =>
    rw [List.mem_singleton] at hg
    exact hg ▸ .refl
  | cons f' fs ih =>
    rcases List.mem_cons.mp hg with rfl | hbelowTop
    · exact .refl
    · cases h with
      | cons hbelow hlink _ _ _ =>
        refine (ih hbelow hbelowTop).tail ?_
        cases hbelow with
        | cons _ _ _ hrem _ => exact hrem _ (List.mem_of_mem_head? (hlink _ rfl))

theorem Nested.enter {fs : List (ν × List ν)} {order : List ν} {c : ν}
    (h : Nested children log fs order) (hlink : ∀ f ∈ fs.head?, f.2.head? = some c) :
    Nested children log ((c, children c) :: fs) (order ++ [c]) :=
  .cons h hlink (by simp) (fun _ hy => hy) fun _ hy => .inl hy

theorem Nested.skip {v c : ν} {cs : List ν} {fs : List (ν × List ν)} {order : List ν}
    (hnodup : order.Nodup) (h : Nested children log ((v, c :: cs) :: fs) order) :
    Nested children ((v, c) :: log) ((v, cs) :: fs) order := by
  cases h with
  | @cons _ _ _ pre seg hbelow hlink hseg hrem hdone =>
    have hv : v ∉ pre ∧ v ∉ seg := by
      rw [List.nodup_middle, List.nodup_cons, List.mem_append, not_or] at hnodup
      exact hnodup.1
    refine .cons (hbelow.edge hv.1) hlink (fun x hx w => ?_)
      (fun y hy => hrem y (by simp [hy])) fun y hy => ?_
    · have hne : x ≠ v := fun heq => hv.2 (heq ▸ hx)
      rw [trail_cons_of_ne hne, trail_cons_self]
      exact fun ht => .inl (hseg x hx w ht)
    · rw [trail_cons_self]
      rcases hdone y hy with hmem | ht
      · rcases List.mem_cons.mp hmem with rfl | hmem
        · exact .inr (.inr (trail_refl _ _))
        · exact .inl hmem
      · exact .inr (.inl ht)

theorem Nested.ret {v c : ν} {cs : List ν} {fs : List (ν × List ν)} {order : List ν}
    (hnodup : order.Nodup) (h : Nested children log ((c, []) :: (v, c :: cs) :: fs) order) :
    Nested children ((v, c) :: log) ((v, cs) :: fs) order := by
  cases h with
  | @cons _ _ _ pre seg hbelow _ hseg _ _ =>
    have hv : v ≠ c ∧ v ∉ seg := by
      have hmem : v ∈ pre := hbelow.mem (List.mem_cons_self ..)
      have hdisjoint := (List.nodup_append.mp hnodup).2.2 v hmem
      exact ⟨fun heq => hdisjoint c (by simp) heq, fun hin => hdisjoint v (by simp [hin]) rfl⟩
    have hskip := hbelow.skip (List.nodup_append.mp hnodup).1
    cases hskip with
    | @cons _ _ _ pre' seg' hbelow' hlink' hseg' hrem' hdone' =>
      rw [List.append_assoc, List.cons_append]
      refine .cons hbelow' hlink' (fun x hx w ht => ?_) hrem' hdone'
      rw [List.mem_append, List.mem_cons] at hx
      rw [trail_cons_self]
      rcases hx with hx | rfl | hx
      · exact trail_cons_self.mp (hseg' x hx w ht)
      · exact .inr ((trail_cons_of_ne (Ne.symm hv.1)).mp ht)
      · have hne : x ≠ v := fun heq => hv.2 (heq ▸ hx)
        exact .inr (hseg x hx w ((trail_cons_of_ne hne).mp ht))

variable {fs : List (ν × List ν)}

/-- When the innermost node has completed all of its children, all children of it have been
visited. -/
theorem Nested.all_done {order : List ν} (h : Nested children log ((v, []) :: fs) order) :
    ∀ y ∈ children v, Trail log v y := by
  cases h with
  | cons _ _ _ _ hdone => exact fun y hy => (hdone y hy).resolve_left (by simp)

theorem init_inv (children : ν → List ν) (nodes : List ν) :
    Inv children nodes ⟨[], nodes, []⟩ where
  nodup := List.nodup_nil
  inNodes := by simp
  todo := fun _ h => h
  seen := fun _ h => .inl h
  edges := by simp
  ends := by simp
  nested := .nil []
  left := by simp

theorem Nested.rem {v : ν} {rem : List ν} {fs : List (ν × List ν)} {order : List ν}
    (h : Nested children log ((v, rem) :: fs) order) : ∀ y ∈ rem, y ∈ children v := by
  cases h with
  | cons _ _ _ hrem _ => exact hrem

theorem Nested.tail {f : ν × List ν} {order : List ν} (h : Nested children log (f :: fs) order) :
    ∃ order', Nested children log fs order' := by
  cases h with
  | cons hbelow _ _ _ _ => exact ⟨_, hbelow⟩

theorem Inv.rem {c : Config ν} {v : ν} {rem : List ν} {fs : List (ν × List ν)}
    (h : Inv children nodes c) (hframes : c.frames = (v, rem) :: fs) :
    v ∈ entered c.events ∧ ∀ y ∈ rem, y ∈ children v := by
  have hnested := h.nested
  rw [hframes] at hnested
  exact ⟨hnested.mem (List.mem_cons_self ..), hnested.rem⟩

variable {c c' : Config ν}

theorem step_inv (hclosed : ∀ v ∈ nodes, ∀ y ∈ children v, y ∈ nodes) (h : Inv children nodes c)
    (hstep : Step children c c') : Inv children nodes c' := by
  cases hstep with
  | @rootSkip r todo es hr =>
    refine ⟨h.nodup, h.inNodes, fun v hv => h.todo v (by simp [hv]), fun v hv => ?_, h.edges,
      h.ends, h.nested, h.left⟩
    rcases h.seen v hv with hmem | hmem
    · rcases List.mem_cons.mp hmem with rfl | hmem
      · exact .inr hr
      · exact .inl hmem
    · exact .inr hmem
  | @rootEnter r todo es hr =>
    refine ⟨?_, ?_, fun v hv => h.todo v (by simp [hv]), fun v hv => ?_, ?_, ?_, ?_, ?_⟩
    · simpa [List.nodup_append] using ⟨h.nodup, fun a ha heq => hr (heq ▸ ha)⟩
    · simpa [or_imp, forall_and, h.todo r (by simp)] using h.inNodes
    · rcases h.seen v hv with hmem | hmem
      · rcases List.mem_cons.mp hmem with rfl | hmem
        · exact .inr (by simp)
        · exact .inl hmem
      · exact .inr (by simp [show v ∈ entered es from hmem])
    · simpa using h.edges
    · intro e he
      obtain ⟨hsource, htarget⟩ := h.ends e (by simpa using he)
      simp only [entered_append]
      exact ⟨List.mem_append_left _ hsource, List.mem_append_left _ htarget⟩
    · simpa using h.nested.enter (by simp)
    · intro x hx hactive
      simp only [entered_append, entered_enter, entered_nil, List.mem_append,
        List.mem_singleton] at hx
      rcases hx with hx | rfl
      · simpa using h.left x hx (by simp [Config.active])
      · simp [Config.active] at hactive
  | @enter v child cs fs todo es hchild =>
    have hmem := h.rem rfl
    have hnode : child ∈ nodes := hclosed v (h.inNodes v hmem.1) child (hmem.2 child (by simp))
    refine ⟨?_, ?_, h.todo, fun v hv => ?_, ?_, ?_, ?_, ?_⟩
    · simpa [List.nodup_append] using ⟨h.nodup, fun a ha heq => hchild (heq ▸ ha)⟩
    · simpa [or_imp, forall_and, hnode] using h.inNodes
    · simpa [or_assoc] using (h.seen v hv).imp_right Or.inl
    · simpa using h.edges
    · intro e he
      obtain ⟨hsource, htarget⟩ := h.ends e (by simpa using he)
      simp only [entered_append]
      exact ⟨List.mem_append_left _ hsource, List.mem_append_left _ htarget⟩
    · simpa using h.nested.enter (by simp)
    · intro x hx hactive
      simp only [Config.active, List.map_cons, List.mem_cons, not_or] at hactive
      simp only [entered_append, entered_enter, entered_nil, List.mem_append,
        List.mem_singleton] at hx
      rcases hx with hx | rfl
      · simpa using h.left x hx (by simpa [Config.active] using hactive.2)
      · exact absurd rfl hactive.1
  | @skip v child cs fs todo es hchild =>
    have hmem := h.rem rfl
    refine ⟨by simpa using h.nodup, by simpa using h.inNodes, h.todo, by simpa using h.seen,
      ?_, ?_, ?_, ?_⟩
    · simpa [hmem.2 child (by simp)] using h.edges
    · simpa [hchild, show v ∈ entered es from hmem.1] using h.ends
    · simpa using h.nested.skip h.nodup
    · intro x hx hactive y hy
      simp only [Config.active, List.map_cons, List.mem_cons, not_or] at hactive
      rw [completed_snoc_edge, trail_cons_of_ne hactive.1]
      exact h.left x (by simpa using hx) (by simpa [Config.active] using hactive) y hy
  | @ret v child cs fs todo es =>
    have hchild : child ∈ entered es := (h.rem rfl).1
    have hnested := h.nested
    have hv : v ∈ entered es := hnested.mem (by simp : (v, child :: cs) ∈ _)
    refine ⟨by simpa using h.nodup, by simpa using h.inNodes, h.todo, by simpa using h.seen,
      ?_, ?_, ?_, ?_⟩
    · obtain ⟨_, hbelow⟩ := hnested.tail
      have hedge : child ∈ children v := hbelow.rem child (by simp)
      simpa [hedge] using h.edges
    · simpa [hchild, hv] using h.ends
    · simpa using hnested.ret h.nodup
    · intro x hx hactive y hy
      simp only [Config.active, List.map_cons, List.mem_cons, not_or] at hactive
      rw [completed_snoc_edge, completed_snoc_leave, trail_cons_of_ne hactive.1]
      by_cases heq : x = child
      · exact heq ▸ hnested.all_done y (heq ▸ hy)
      · exact h.left x (by simpa using hx) (by simpa [Config.active, heq] using hactive) y hy
  | @rootRet r todo es =>
    refine ⟨by simpa using h.nodup, by simpa using h.inNodes, h.todo, by simpa using h.seen,
      by simpa using h.edges, by simpa using h.ends, .nil _, fun x hx _ y hy => ?_⟩
    rw [completed_snoc_leave]
    by_cases heq : x = r
    · exact heq ▸ h.nested.all_done y (heq ▸ hy)
    · exact h.left x (by simpa using hx) (by simpa [Config.active] using heq) y hy

theorem Inv.length_le (h : Inv children nodes c) : (entered c.events).length ≤ nodes.length :=
  h.nodup.length_le_of_subset h.inNodes

theorem steps_inv (hclosed : ∀ v ∈ nodes, ∀ y ∈ children v, y ∈ nodes) (h : Inv children nodes c)
    (hsteps : Steps children c c') : Inv children nodes c' := by
  induction hsteps with
  | refl => exact h
  | tail _ hstep ih => exact step_inv hclosed ih hstep

theorem steps_events (hsteps : Steps children c c') : c.events <+: c'.events := by
  induction hsteps with
  | refl => exact List.prefix_rfl
  | tail _ hstep ih =>
    refine ih.trans ?_
    cases hstep with
    | rootSkip => exact List.prefix_rfl
    | rootEnter | enter | skip | rootRet => exact List.prefix_append ..
    | ret => exact (List.prefix_append ..).trans (List.prefix_append ..)

/-! ## The recursive traversal -/

variable [DecidableEq ν]

/-- The events of visiting a node when `visited` were entered before, at most `fuel` nodes
deep. -/
def follow (children : ν → List ν) : Nat → List ν → ν → List (Event ν)
  | 0, _, _ => []
  | fuel + 1, visited, v =>
    if v ∈ visited then []
    else .enter v :: ((children v).foldl (fun es c =>
        es ++ follow children fuel (visited ++ v :: entered es) c ++ [.edge v c]) [] ++
      [.leave v])

/-- The events of the loop over the children of a node. -/
def followChildren (children : ν → List ν) (fuel : Nat) (visited : List ν) (v : ν)
    (cs : List ν) (es : List (Event ν)) : List (Event ν) :=
  cs.foldl (fun es c =>
    es ++ follow children fuel (visited ++ v :: entered es) c ++ [.edge v c]) es

/-- The events of visiting all nodes in turn. -/
def traverse (children : ν → List ν) (nodes : List ν) : List (Event ν) :=
  nodes.foldl (fun es v => es ++ follow children (nodes.length + 1) (entered es) v) []

variable {fuel : Nat} {visited : List ν}

theorem follow_visited (h : v ∈ visited) : follow children fuel visited v = [] := by
  cases fuel with
  | zero => rfl
  | succ fuel => rw [follow, if_pos h]

theorem follow_new (h : v ∉ visited) :
    follow children (fuel + 1) visited v =
      .enter v :: (followChildren children fuel visited v (children v) [] ++ [.leave v]) := by
  rw [follow, if_neg h]
  rfl

variable {es : List (Event ν)}

theorem follow_children_run {todo : List ν} {es₀ : List (Event ν)}
    (hvisited : entered es₀ = visited ++ [v]) (hclosed : ∀ v ∈ nodes, ∀ y ∈ children v, y ∈ nodes)
    (hvisit : ∀ c es F, c ∉ entered es → Inv children nodes ⟨(c, children c) :: F, todo,
      es ++ [.enter c]⟩ → nodes.length < fuel + (entered es).length → ∃ es',
        follow children fuel (entered es) c = .enter c :: (es' ++ [.leave c]) ∧
          Steps children ⟨(c, children c) :: F, todo, es ++ [.enter c]⟩
            ⟨(c, []) :: F, todo, es ++ .enter c :: es'⟩) {cs : List ν}
    (h : Inv children nodes ⟨(v, cs) :: fs, todo, es₀ ++ es⟩)
    (hfuel : nodes.length < fuel + (entered (es₀ ++ es)).length) :
    Steps children ⟨(v, cs) :: fs, todo, es₀ ++ es⟩
      ⟨(v, []) :: fs, todo, es₀ ++ followChildren children fuel visited v cs es⟩ := by
  induction cs generalizing es with
  | nil => exact .refl
  | cons c cs ih =>
    have horder : visited ++ v :: entered es = entered (es₀ ++ es) := by
      rw [entered_append, hvisited, List.append_assoc, List.singleton_append]
    rw [followChildren, List.foldl_cons, ← followChildren, horder]
    -- the machine arrives where the edge to the child is completed
    have hround : ∃ es', follow children fuel (entered (es₀ ++ es)) c = es' ∧
        Steps children ⟨(v, c :: cs) :: fs, todo, es₀ ++ es⟩
          ⟨(v, cs) :: fs, todo, es₀ ++ (es ++ es' ++ [.edge v c])⟩ := by
      by_cases hc : c ∈ entered (es₀ ++ es)
      · refine ⟨[], follow_visited hc, .single ?_⟩
        have hskip : Step children ⟨(v, c :: cs) :: fs, todo, es₀ ++ es⟩
            ⟨(v, cs) :: fs, todo, es₀ ++ es ++ [.edge v c]⟩ := .skip hc
        simpa using hskip
      · have henter : Step children ⟨(v, c :: cs) :: fs, todo, es₀ ++ es⟩
            ⟨(c, children c) :: (v, c :: cs) :: fs, todo, es₀ ++ es ++ [.enter c]⟩ := .enter hc
        obtain ⟨es', hes', hsteps⟩ := hvisit c _ _ hc (step_inv hclosed h henter) hfuel
        refine ⟨_, hes', .head henter (hsteps.tail ?_)⟩
        have hret : Step children
            ⟨(c, []) :: (v, c :: cs) :: fs, todo, es₀ ++ es ++ .enter c :: es'⟩
            ⟨(v, cs) :: fs, todo, es₀ ++ es ++ .enter c :: es' ++ [.leave c] ++ [.edge v c]⟩ :=
          .ret
        simpa using hret
    obtain ⟨es', hes', hsteps⟩ := hround
    rw [hes']
    refine hsteps.trans (ih (steps_inv hclosed h hsteps) ?_)
    have hlen := (steps_events hsteps).length_le
    simp only [entered_append, List.length_append] at hfuel ⊢
    omega

theorem follow_run (hclosed : ∀ v ∈ nodes, ∀ y ∈ children v, y ∈ nodes) {c : ν}
    {F : List (ν × List ν)} {todo : List ν} (hc : c ∉ entered es)
    (h : Inv children nodes ⟨(c, children c) :: F, todo, es ++ [.enter c]⟩)
    (hfuel : nodes.length < fuel + (entered es).length) :
    ∃ es', follow children fuel (entered es) c = .enter c :: (es' ++ [.leave c]) ∧
      Steps children ⟨(c, children c) :: F, todo, es ++ [.enter c]⟩
        ⟨(c, []) :: F, todo, es ++ .enter c :: es'⟩ := by
  induction fuel generalizing c F es with
  | zero =>
    have hlen := h.length_le
    simp only [entered_append, entered_enter, entered_nil, List.length_append,
      List.length_singleton] at hlen
    omega
  | succ fuel ih =>
    refine ⟨_, follow_new hc, ?_⟩
    have hstart : Inv children nodes
        ⟨(c, children c) :: F, todo, (es ++ [.enter c]) ++ []⟩ := by simpa using h
    have hvisited : entered (es ++ [.enter c]) = entered es ++ [c] := by simp
    have hrun := follow_children_run hvisited hclosed
      (fun c es F hc h hfuel => ih hc h hfuel) hstart (by simp; omega)
    simpa using hrun

theorem roots_run (hclosed : ∀ v ∈ nodes, ∀ y ∈ children v, y ∈ nodes) {roots rest : List ν}
    (h : Inv children nodes ⟨[], roots ++ rest, es⟩) :
    Steps children ⟨[], roots ++ rest, es⟩ ⟨[], rest, roots.foldl (fun es v =>
      es ++ follow children (nodes.length + 1) (entered es) v) es⟩ := by
  induction roots generalizing es with
  | nil => exact .refl
  | cons r roots ih =>
    rw [List.foldl_cons]
    by_cases hr : r ∈ entered es
    · rw [follow_visited hr, List.append_nil]
      have hskip : Step children ⟨[], r :: (roots ++ rest), es⟩ ⟨[], roots ++ rest, es⟩ :=
        .rootSkip hr
      exact .head hskip (ih (step_inv hclosed h hskip))
    · have henter : Step children ⟨[], r :: (roots ++ rest), es⟩
          ⟨[(r, children r)], roots ++ rest, es ++ [.enter r]⟩ := .rootEnter hr
      have hinv := step_inv hclosed h henter
      have hfuel : nodes.length < (nodes.length + 1) + (entered es).length := by omega
      obtain ⟨es', hes', hsteps⟩ := follow_run hclosed hr hinv hfuel
      have hret : Step children ⟨[(r, [])], roots ++ rest, es ++ .enter r :: es'⟩
          ⟨[], roots ++ rest, es ++ .enter r :: es' ++ [.leave r]⟩ := .rootRet
      have hall := (ReflTransGen.head henter hsteps).tail hret
      have heq : es ++ .enter r :: es' ++ [.leave r] =
          es ++ follow children (nodes.length + 1) (entered es) r := by
        rw [hes']
        simp
      rw [heq] at hall
      exact hall.trans (ih (steps_inv hclosed h hall))

theorem traverse_run (hclosed : ∀ v ∈ nodes, ∀ y ∈ children v, y ∈ nodes) :
    Steps children ⟨[], nodes, []⟩ ⟨[], [], traverse children nodes⟩ := by
  have h : Inv children nodes ⟨[], nodes ++ [], []⟩ := by
    rw [List.append_nil]
    exact init_inv children nodes
  simpa only [List.append_nil, traverse] using roots_run hclosed h

end N8n.Graph
