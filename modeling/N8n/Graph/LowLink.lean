import Mathlib.Data.List.Induction
import Mathlib.Data.List.TakeWhile
import Mathlib.Logic.Function.Basic
import N8n.Graph.DepthFirst

/-!
# Components by low-link values

A computation of strongly connected components during a depth-first traversal. Every node is
numbered when it is entered and gets a low-link value, which is lowered to that of each child
that is on the stack when the edge to it is completed. When a node is left whose value is still
its number, nodes are popped from the stack for as long as they have that value.

A value travels along trails only, so a node gets the number of the first node of its component
exactly when a trail leads there. As long as all do, the state is `Ideal`; the first node that
does not is `Stuck`: it is never popped. `components_exact_iff` puts both together.
-/

namespace N8n.Graph

open Relation

variable {ν : Type} {children : ν → List ν}

/-- The second node can be reached from the first. -/
abbrev Reach (children : ν → List ν) : ν → ν → Prop :=
  ReflTransGen fun a b => b ∈ children a

/-- Each node can be reached from the other. -/
def Same (children : ν → List ν) (x y : ν) : Prop := Reach children x y ∧ Reach children y x

theorem Same.refl (x : ν) : Same children x x := ⟨.refl, .refl⟩

variable {x y : ν}

theorem Same.symm (h : Same children x y) : Same children y x := ⟨h.2, h.1⟩

theorem Same.trans {x y z : ν} (h : Same children x y) (h' : Same children y z) :
    Same children x z := ⟨h.1.trans h'.1, h'.2.trans h.2⟩

theorem trail_fresh {log : List (ν × ν)} {w : ν} (hlog : ∀ e ∈ log, e.1 ≠ x) (h : Trail log x w) :
    w = x := by
  induction log with
  | nil => exact h.symm
  | cons e log ih =>
    rcases h with h | ⟨rfl, _⟩
    · exact ih (fun e he => hlog e (by simp [he])) h
    · exact absurd rfl (hlog e (by simp))

/-- The sets are the strongly connected components of the graph on the given nodes. -/
structure IsComponents (children : ν → List ν) (nodes : List ν) (components : List (List ν)) :
    Prop where
  disjoint : components.Pairwise List.Disjoint
  union : ∀ x, x ∈ components.flatten ↔ x ∈ nodes
  same : ∀ x ∈ nodes, ∀ y ∈ nodes,
    (∃ component ∈ components, x ∈ component ∧ y ∈ component) ↔ Same children x y

/-- The state of the computation. The number of a node is its place in the order of entries. The
top of the stack comes first. -/
structure LowLink (ν : Type) where
  order : List ν
  low : ν → Nat
  stack : List ν
  components : List (List ν)

variable [DecidableEq ν]

/-- The start of the computation. -/
def LowLink.init : LowLink ν := ⟨[], fun _ => 0, [], []⟩

/-- What the computation does at an event. -/
def LowLink.apply (s : LowLink ν) : Event ν → LowLink ν
  | .enter v =>
    { s with order := s.order ++ [v], low := Function.update s.low v s.order.length,
             stack := v :: s.stack }
  | .edge v c =>
    if c ∈ s.stack then { s with low := Function.update s.low v (min (s.low c) (s.low v)) }
    else s
  | .leave v =>
    if s.order.idxOf v = s.low v then
      let component := s.stack.takeWhile (s.low · = s.order.idxOf v)
      { s with stack := s.stack.dropWhile (s.low · = s.order.idxOf v),
               components := if component = [] then s.components
                 else s.components ++ [component] }
    else s

/-- The state after a sequence of events. -/
def LowLink.after (es : List (Event ν)) : LowLink ν := es.foldl apply init

@[simp] theorem after_snoc (es : List (Event ν)) (e : Event ν) :
    LowLink.after (es ++ [e]) = (LowLink.after es).apply e := List.foldl_append ..

theorem apply_enter (s : LowLink ν) (v : ν) :
    s.apply (.enter v) =
      { s with order := s.order ++ [v], low := Function.update s.low v s.order.length,
               stack := v :: s.stack } := rfl

theorem apply_edge (s : LowLink ν) (v c : ν) :
    s.apply (.edge v c) =
      if c ∈ s.stack then { s with low := Function.update s.low v (min (s.low c) (s.low v)) }
      else s := rfl

theorem apply_leave (s : LowLink ν) (v : ν) :
    s.apply (.leave v) =
      if s.order.idxOf v = s.low v then
        let component := s.stack.takeWhile (s.low · = s.order.idxOf v)
        { s with stack := s.stack.dropWhile (s.low · = s.order.idxOf v),
                 components := if component = [] then s.components
                   else s.components ++ [component] }
      else s := rfl

variable {a c : ν}

theorem apply_edge_low {s : LowLink ν} (hx : x ≠ a) : (s.apply (.edge a c)).low x = s.low x := by
  rw [apply_edge]
  split
  · exact Function.update_of_ne hx _ _
  · rfl

@[simp] theorem apply_edge_stack (s : LowLink ν) (a c : ν) :
    (s.apply (.edge a c)).stack = s.stack := by
  rw [apply_edge]
  split <;> rfl

@[simp] theorem apply_edge_components (s : LowLink ν) (a c : ν) :
    (s.apply (.edge a c)).components = s.components := by
  rw [apply_edge]
  split <;> rfl

@[simp] theorem apply_leave_low (s : LowLink ν) (v : ν) :
    (s.apply (.leave v)).low = s.low := by
  rw [apply_leave]
  split <;> rfl

theorem apply_order (s : LowLink ν) (e : Event ν) :
    (s.apply e).order = s.order ++ entered [e] := by
  cases e with
  | enter v => rfl
  | edge v c =>
    rw [apply_edge]
    split <;> simp
  | leave v =>
    rw [apply_leave]
    split <;> simp

@[simp] theorem after_order (es : List (Event ν)) : (LowLink.after es).order = entered es := by
  induction es using List.reverseRecOn with
  | nil => rfl
  | append_singleton es e ih => rw [after_snoc, apply_order, ih, entered_append]

/-- The node was entered first among the nodes of the component of `x`. -/
def IsFirst (children : ν → List ν) (order : List ν) (r x : ν) : Prop :=
  Same children x r ∧ ∀ y, Same children x y → order.idxOf r ≤ order.idxOf y

/-- The state in which the computation has found all components that were left, while `active`
are the nodes being visited. -/
structure Ideal (children : ν → List ν) (active : List ν) (log : List (ν × ν))
    (s : LowLink ν) : Prop where
  lower : ∀ x ∈ s.order, ∀ w, Trail log x w → Same children x w → s.low x ≤ s.order.idxOf w
  attained : ∀ x ∈ s.order, ∃ w, Trail log x w ∧ Same children x w ∧ s.low x = s.order.idxOf w
  stack : s.stack = s.order.reverse.filter (· ∉ s.components.flatten)
  exact : ∀ component ∈ s.components, ∀ x ∈ component, ∀ y, y ∈ component ↔ Same children x y
  nodup : s.components.flatten.Nodup
  left : ∀ x ∈ s.components.flatten, x ∈ s.order ∧ x ∉ active
  root : ∀ x ∈ s.order, x ∉ s.components.flatten →
    ∃ g ∈ active, Same children x g ∧ s.order.idxOf g ≤ s.order.idxOf x
  dated : ∀ x ∈ s.components.flatten, ∀ r, IsFirst children s.order r x → Trail log x r

/-- A node that was left but can never be popped, since no node being visited has its value as
its number; and no trail leads from it to the first node of its component. -/
structure Stuck (children : ν → List ν) (active : List ν) (log : List (ν × ν)) (s : LowLink ν)
    (x : ν) : Prop where
  mem : x ∈ s.order
  unpopped : x ∉ s.components.flatten
  notActive : x ∉ active
  low : ∀ a ∈ active, s.order.idxOf a ≠ s.low x
  lowLt : s.low x < s.order.length
  noTrail : ∃ r, IsFirst children s.order r x ∧ (∀ y, Same children x y → y ∈ s.order) ∧
    ¬ Trail log x r

theorem init_ideal : Ideal children [] [] (LowLink.init : LowLink ν) where
  lower := by simp [LowLink.init]
  attained := by simp [LowLink.init]
  stack := rfl
  exact := by simp [LowLink.init]
  nodup := by simp [LowLink.init]
  left := by simp [LowLink.init]
  root := by simp [LowLink.init]
  dated := by simp [LowLink.init]

variable {active : List ν} {log : List (ν × ν)} {s : LowLink ν}

theorem Ideal.popped_mem (h : Ideal children active log s) (hx : x ∈ s.components.flatten)
    (hy : Same children x y) : y ∈ s.components.flatten := by
  obtain ⟨component, hcomponent, hmem⟩ := List.mem_flatten.mp hx
  exact List.mem_flatten.mpr ⟨component, hcomponent, (h.exact component hcomponent x hmem y).mpr hy⟩

theorem first_append {order : List ν} {r v : ν} (hall : ∀ y, Same children x y → y ∈ order) :
    IsFirst children (order ++ [v]) r x ↔ IsFirst children order r x := by
  refine and_congr_right fun hr => forall_congr' fun y => forall_congr' fun hy => ?_
  rw [List.idxOf_append_of_mem (hall r hr), List.idxOf_append_of_mem (hall y hy)]

theorem ideal_enter {v : ν} (hlog : ∀ e ∈ log, e.1 ∈ s.order ∧ e.2 ∈ s.order)
    (hv : v ∉ s.order) (h : Ideal children active log s) :
    Ideal children (v :: active) log (s.apply (.enter v)) := by
  have hidx : ∀ y ∈ s.order, (s.order ++ [v]).idxOf y = s.order.idxOf y :=
    fun y hy => List.idxOf_append_of_mem hy
  have hidxv : (s.order ++ [v]).idxOf v = s.order.length := by
    rw [List.idxOf_append_of_notMem hv]
    simp
  have hclosed : ∀ x ∈ s.order, ∀ w, Trail log x w → w ∈ s.order :=
    fun x hx w => Trail.mem (fun e he => (hlog e he).2) hx
  have hfresh : ∀ w, Trail log v w → w = v :=
    fun w => trail_fresh fun e he heq => hv (heq ▸ (hlog e he).1)
  have hne : ∀ x ∈ s.order, x ≠ v := fun x hx heq => hv (heq ▸ hx)
  have hout : v ∉ s.components.flatten := fun hmem => hv (h.left v hmem).1
  refine ⟨fun x hx w ht hs => ?_, fun x hx => ?_, ?_, h.exact, h.nodup, fun x hx => ?_,
    fun x hx hnot => ?_, fun x hx r hr => ?_⟩
  · simp only [LowLink.apply, List.mem_append, List.mem_singleton] at hx ⊢
    rcases hx with hx | rfl
    · rw [Function.update_of_ne (hne x hx), hidx w (hclosed x hx w ht)]
      exact h.lower x hx w ht hs
    · rw [hfresh w ht, Function.update_self, hidxv]
  · simp only [LowLink.apply, List.mem_append, List.mem_singleton] at hx ⊢
    rcases hx with hx | rfl
    · obtain ⟨w, ht, hs, heq⟩ := h.attained x hx
      refine ⟨w, ht, hs, ?_⟩
      rw [Function.update_of_ne (hne x hx), hidx w (hclosed x hx w ht), heq]
    · exact ⟨x, trail_refl log x, Same.refl x, by rw [Function.update_self, hidxv]⟩
  · rw [apply_enter, List.reverse_append, List.reverse_singleton, List.singleton_append]
    show v :: s.stack = (v :: s.order.reverse).filter (· ∉ s.components.flatten)
    simp only [List.filter_cons, hout, not_false_eq_true, decide_true, if_true, h.stack]
  · obtain ⟨hmem, hactive⟩ := h.left x hx
    refine ⟨by simp [LowLink.apply, hmem], ?_⟩
    simpa [hne x hmem] using hactive
  · simp only [LowLink.apply, List.mem_append, List.mem_singleton] at hx ⊢
    rcases hx with hx | rfl
    · obtain ⟨g, hg, hs, hle⟩ := h.root x hx hnot
      refine ⟨g, by simp [hg], hs, ?_⟩
      by_cases hgmem : g ∈ s.order
      · rwa [hidx g hgmem, hidx x hx]
      · rw [List.idxOf_eq_length hgmem] at hle
        exact absurd (List.idxOf_lt_length_of_mem hx) (Nat.not_lt.mpr hle)
    · exact ⟨x, by simp, Same.refl x, Nat.le_refl _⟩
  · exact h.dated x hx r
      ((first_append fun y hy => (h.left y (h.popped_mem hx hy)).1).mp hr)

theorem ideal_edge (h : Ideal children active log s) (ha : a ∈ active) (hc : c ∈ s.order)
    (hedge : c ∈ children a) (hlog : ∀ e ∈ log, e.2 ∈ children e.1)
    (hreach : ∀ g ∈ active, Reach children g a) :
    Ideal children active ((a, c) :: log) (s.apply (.edge a c)) := by
  -- the child is on the stack exactly when it is in the component of the node
  have hsame : c ∈ s.stack ↔ Same children a c := by
    rw [h.stack, List.mem_filter, List.mem_reverse, decide_eq_true_eq]
    refine ⟨fun ⟨_, hnot⟩ => ?_, fun hs => ⟨hc, fun hmem => ?_⟩⟩
    · obtain ⟨g, hg, hcg, _⟩ := h.root c hc hnot
      exact ⟨.single hedge, hcg.1.trans (hreach g hg)⟩
    · exact (h.left a (h.popped_mem hmem hs.symm)).2 ha
  have horder : (s.apply (.edge a c)).order = s.order := by simp [apply_order]
  have hon : c ∈ s.stack → (s.apply (.edge a c)).low a = min (s.low c) (s.low a) := fun hmem => by
    rw [apply_edge, if_pos hmem]
    exact Function.update_self ..
  have hoff : c ∉ s.stack → (s.apply (.edge a c)).low a = s.low a := fun hmem => by
    rw [apply_edge, if_neg hmem]
  refine ⟨fun x hx w ht hs => ?_, fun x hx => ?_, ?_, ?_, ?_, ?_, ?_, ?_⟩
  · rw [horder] at hx ⊢
    by_cases hxa : x = a
    · subst hxa
      rcases trail_cons_self.mp ht with ht | ht
      · have hle := h.lower x hx w ht hs
        by_cases hmem : c ∈ s.stack
        · rw [hon hmem]
          omega
        · rwa [hoff hmem]
      · -- the trail stays in the component, and so does the child
        have hcw := ht.reach hlog
        have hsx : Same children x c := ⟨.single hedge, hcw.trans hs.2⟩
        have hle := h.lower c hc w ht (hsx.symm.trans hs)
        rw [hon (hsame.mpr hsx)]
        omega
    · rw [apply_edge_low hxa]
      exact h.lower x hx w ((trail_cons_of_ne hxa).mp ht) hs
  · rw [horder] at hx ⊢
    by_cases hxa : x = a
    · subst hxa
      obtain ⟨w, ht, hs, heq⟩ := h.attained x hx
      by_cases hmem : c ∈ s.stack
      · rw [hon hmem]
        by_cases hle : s.low x ≤ s.low c
        · exact ⟨w, trail_cons_self.mpr (.inl ht), hs, by rw [Nat.min_eq_right hle, heq]⟩
        · obtain ⟨w', ht', hs', heq'⟩ := h.attained c hc
          refine ⟨w', trail_cons_self.mpr (.inr ht'), (hsame.mp hmem).trans hs', ?_⟩
          rw [Nat.min_eq_left (Nat.le_of_not_le hle), heq']
      · exact ⟨w, trail_cons_self.mpr (.inl ht), hs, by rw [hoff hmem, heq]⟩
    · obtain ⟨w, ht, hs, heq⟩ := h.attained x hx
      exact ⟨w, (trail_cons_of_ne hxa).mpr ht, hs, by rw [apply_edge_low hxa, heq]⟩
  · rw [apply_edge_stack, horder, apply_edge_components, h.stack]
  · rw [apply_edge_components]
    exact h.exact
  · rw [apply_edge_components]
    exact h.nodup
  · rw [apply_edge_components, horder]
    exact h.left
  · rw [apply_edge_components, horder]
    exact h.root
  · rw [apply_edge_components, horder]
    intro x hx r hr
    have hxa : x ≠ a := fun heq => (h.left x hx).2 (heq ▸ ha)
    exact (trail_cons_of_ne hxa).mpr (h.dated x hx r hr)

/-! ## Leaving a node -/

/-- What the traversal knows of the innermost node `v` when it is left: `seg` are the nodes
entered under it, and `below` the other nodes being visited. -/
structure Leaving (children : ν → List ν) (log : List (ν × ν)) (order pre seg below : List ν)
    (v : ν) : Prop where
  split : order = pre ++ v :: seg
  nodup : order.Nodup
  before : ∀ g ∈ below, g ∈ pre
  reach : ∀ g ∈ below, Reach children g v
  done : ∀ x ∈ v :: seg, ∀ y ∈ children x, Trail log x y
  inherits : ∀ x ∈ seg, ∀ w, Trail log x w → Trail log v w
  edges : ∀ e ∈ log, e.2 ∈ children e.1
  closed : ∀ x ∈ order, ∀ w, Trail log x w → w ∈ order

variable {order pre seg below : List ν} {v : ν}

omit [DecidableEq ν] in
theorem Leaving.trail (hl : Leaving children log order pre seg below v) {x w : ν}
    (hx : x ∈ v :: seg) (ht : Trail log x w) : Trail log v w := by
  rcases List.mem_cons.mp hx with rfl | hx
  · exact ht
  · exact hl.inherits x hx w ht

omit [DecidableEq ν] in
/-- A walk from under the node stays there, or leaves at a node entered before to which a trail
leads. -/
theorem Leaving.exits (hl : Leaving children log order pre seg below v) (h : Reach children x y)
    (hx : x ∈ v :: seg) : y ∈ v :: seg ∨ ∃ b ∈ pre, Trail log v b ∧ Reach children b y := by
  induction h using ReflTransGen.head_induction_on with
  | refl => exact .inl hx
  | @head x x' hstep hrest ih =>
    have ht := hl.done x hx x' hstep
    have hmem : x' ∈ order := hl.closed x (by rw [hl.split]; simp at hx; simp [hx]) x' ht
    rw [hl.split, List.mem_append] at hmem
    rcases hmem with hpre | hseg
    · exact .inr ⟨x', hpre, hl.trail hx ht, hrest⟩
    · exact ih hseg

omit [DecidableEq ν] in
theorem Leaving.separate (hl : Leaving children log order pre seg below v) :
    ∀ x ∈ pre, x ∉ v :: seg := fun x hx hseg =>
  (List.nodup_append.mp (hl.split ▸ hl.nodup)).2.2 x hx x hseg rfl

theorem Leaving.idx_pre (hl : Leaving children log order pre seg below v) (hx : x ∈ pre) :
    order.idxOf x < order.idxOf v := by
  have hv : v ∉ pre := fun hmem => hl.separate v hmem (by simp)
  rw [hl.split, List.idxOf_append_of_mem hx, List.idxOf_append_of_notMem hv, List.idxOf_cons_self]
  exact Nat.lt_of_lt_of_le (List.idxOf_lt_length_of_mem hx) (Nat.le_add_right _ _)

/-- Nodes entered under the node do not have smaller numbers. -/
theorem Leaving.idx_seg (hl : Leaving children log order pre seg below v) (hx : x ∈ v :: seg) :
    order.idxOf v ≤ order.idxOf x := by
  have hv : v ∉ pre := fun hmem => hl.separate v hmem (by simp)
  have hxpre : x ∉ pre := fun hmem => hl.separate x hmem hx
  rw [hl.split, List.idxOf_append_of_notMem hv, List.idxOf_append_of_notMem hxpre,
    List.idxOf_cons_self]
  omega

/-- A node of another component than those below it is the first of its component, all of which
was entered under it. -/
theorem Leaving.component (hl : Leaving children log s.order pre seg below v)
    (h : Ideal children (v :: below) log s) (hroot : ∀ g ∈ below, ¬ Same children v g) {y : ν}
    (hy : Same children v y) : y ∈ v :: seg := by
  rcases hl.exits hy.1 (List.mem_cons_self ..) with hmem | ⟨b, hb, ht, hby⟩
  · exact hmem
  · -- the walk comes by a node entered before, whose component is still being visited
    have hvb : Same children v b := ⟨ht.reach hl.edges, hby.trans hy.2⟩
    have hbmem : b ∈ s.order := by simp [hl.split, hb]
    have hbout : b ∉ s.components.flatten := fun hpopped =>
      (h.left v (h.popped_mem hpopped hvb.symm)).2 (List.mem_cons_self ..)
    obtain ⟨g, hg, hbg, hle⟩ := h.root b hbmem hbout
    rcases List.mem_cons.mp hg with rfl | hg
    · have := hl.idx_pre hb
      omega
    · exact absurd (hvb.trans hbg) (hroot g hg)

/-- A node that can reach one visited below it has a value that is not its number, and leaving
it changes nothing. -/
theorem leave_inner (hl : Leaving children log s.order pre seg below v)
    (h : Ideal children (v :: below) log s) {g : ν} (hg : g ∈ below) (hvg : Same children v g) :
    s.apply (.leave v) = s ∧ Ideal children below log s := by
  have hvmem : v ∈ s.order := by simp [hl.split]
  have hlow : s.low v < s.order.idxOf v := by
    have hgpre := hl.before g hg
    obtain ⟨b, hb, ht, hbg⟩ :=
      (hl.exits hvg.1 (List.mem_cons_self ..)).resolve_left (hl.separate g hgpre)
    have hvb : Same children v b := ⟨ht.reach hl.edges, hbg.trans hvg.2⟩
    exact Nat.lt_of_le_of_lt (h.lower v hvmem b ht hvb) (hl.idx_pre hb)
  refine ⟨?_, h.lower, h.attained, h.stack, h.exact, h.nodup, fun x hx => ?_, fun x hx hout => ?_,
    h.dated⟩
  · rw [apply_leave, if_neg (by omega)]
  · obtain ⟨hmem, hactive⟩ := h.left x hx
    exact ⟨hmem, fun hbelow => hactive (List.mem_cons_of_mem _ hbelow)⟩
  · obtain ⟨g', hg', hs, hle⟩ := h.root x hx hout
    rcases List.mem_cons.mp hg' with rfl | hg'
    · have := hl.idx_pre (hl.before g hg)
      exact ⟨g, hg, hs.trans hvg, by omega⟩
    · exact ⟨g', hg', hs, hle⟩

/-- The value of the first node of a component is its number. -/
theorem low_first (hl : Leaving children log s.order pre seg below v)
    (h : Ideal children (v :: below) log s) (hroot : ∀ g ∈ below, ¬ Same children v g)
    (hx : Same children v x) :
    s.order.idxOf v ≤ s.low x ∧ (s.low x = s.order.idxOf v ↔ Trail log x v) := by
  have hmem : ∀ y, Same children v y → y ∈ v :: seg := fun y hy => hl.component h hroot hy
  have hin : ∀ y ∈ v :: seg, y ∈ s.order := fun y hy => by
    rw [hl.split]
    exact List.mem_append_right _ hy
  obtain ⟨w, ht, hs, heq⟩ := h.attained x (hin x (hmem x hx))
  have hle : s.order.idxOf v ≤ s.low x := heq ▸ hl.idx_seg (hmem w (hx.trans hs))
  refine ⟨hle, fun hval => ?_, fun htrail => ?_⟩
  · have hwv : w = v := by
      rw [heq] at hval
      exact (List.idxOf_inj (hin w (hmem w (hx.trans hs)))).mp hval
    exact hwv ▸ ht
  · have := h.lower x (hin x (hmem x hx)) v htrail hx.symm
    omega

theorem stack_split (hl : Leaving children log s.order pre seg below v)
    (h : Ideal children (v :: below) log s) (hroot : ∀ g ∈ below, ¬ Same children v g) :
    ∃ top rest, s.stack = top ++ rest ∧ (∀ x, x ∈ top ↔ Same children v x) ∧ top.Nodup ∧
      rest = pre.reverse.filter (· ∉ s.components.flatten) := by
  refine ⟨(v :: seg).reverse.filter (· ∉ s.components.flatten),
    pre.reverse.filter (· ∉ s.components.flatten), ?_, fun x => ?_, ?_, rfl⟩
  · rw [h.stack, hl.split, List.reverse_append, List.filter_append]
  · rw [List.mem_filter, List.mem_reverse, decide_eq_true_eq]
    refine ⟨fun ⟨hmem, hout⟩ => ?_, fun hs => ⟨hl.component h hroot hs, fun hpopped => ?_⟩⟩
    · have hin : x ∈ s.order := by
        rw [hl.split]
        exact List.mem_append_right _ hmem
      obtain ⟨g, hg, hxg, _⟩ := h.root x hin hout
      have hgv : Reach children g v := by
        rcases List.mem_cons.mp hg with rfl | hg
        · exact .refl
        · exact hl.reach g hg
      exact ⟨(hl.trail hmem (trail_refl log x)).reach hl.edges, hxg.1.trans hgv⟩
    · exact (h.left v (h.popped_mem hpopped hs.symm)).2 (List.mem_cons_self ..)
  · exact (List.nodup_reverse.mpr (List.nodup_append.mp (hl.split ▸ hl.nodup)).2.1).filter _

/-- When all nodes of its component have the number of the first node as their value, leaving the
latter takes the component from the top of the stack. -/
theorem leave_pops (hl : Leaving children log s.order pre seg below v)
    (h : Ideal children (v :: below) log s) (hroot : ∀ g ∈ below, ¬ Same children v g)
    (hall : ∀ x, Same children v x → Trail log x v) :
    ∃ top, s.apply (.leave v) =
        { s with
          stack := pre.reverse.filter (· ∉ s.components.flatten)
          components := s.components ++ [top] } ∧
      s.stack = top ++ pre.reverse.filter (· ∉ s.components.flatten) ∧
      (∀ x, x ∈ top ↔ Same children v x) ∧ top.Nodup := by
  obtain ⟨top, rest, hstack, htop, hnodup, hrest⟩ := stack_split hl h hroot
  refine ⟨top, ?_, hrest ▸ hstack, htop, hnodup⟩
  have hval : ∀ x ∈ top, s.low x = s.order.idxOf v := fun x hx =>
    (low_first hl h hroot ((htop x).mp hx)).2.mpr (hall x ((htop x).mp hx))
  have hbelow : ∀ x ∈ rest, s.low x ≠ s.order.idxOf v := by
    intro x hx
    have hpre : x ∈ pre := by
      rw [hrest, List.mem_filter, List.mem_reverse] at hx
      exact hx.1
    have hmem : x ∈ s.order := by simp [hl.split, hpre]
    have hle := h.lower x hmem x (trail_refl log x) (Same.refl x)
    have hlt := hl.idx_pre hpre
    omega
  have hvtop : v ∈ top := (htop v).mpr (Same.refl v)
  have htake : s.stack.takeWhile (s.low · = s.order.idxOf v) = top := by
    rw [hstack, List.takeWhile_append_of_pos (by simpa using hval)]
    cases rest with
    | nil => simp
    | cons x rest => simp [hbelow x (by simp)]
  have hdrop : s.stack.dropWhile (s.low · = s.order.idxOf v) = rest := by
    rw [hstack, List.dropWhile_append_of_pos (by simpa using hval)]
    cases rest with
    | nil => rfl
    | cons x rest => simp [hbelow x (by simp)]
  rw [apply_leave, if_pos (hval v hvtop).symm, htake, hdrop, hrest]
  simp only [if_neg (List.ne_nil_of_mem hvtop)]

theorem stack_remains (hl : Leaving children log s.order pre seg below v)
    (h : Ideal children (v :: below) log s) (hroot : ∀ g ∈ below, ¬ Same children v g)
    {top : List ν} (hstack : s.stack = top ++ pre.reverse.filter (· ∉ s.components.flatten))
    (htop : ∀ x, x ∈ top ↔ Same children v x) :
    pre.reverse.filter (· ∉ s.components.flatten) =
      s.order.reverse.filter (· ∉ (s.components ++ [top]).flatten) := by
  have hmem : ∀ x, Same children v x → x ∈ v :: seg := fun x hx => hl.component h hroot hx
  rw [hl.split, List.reverse_append, List.filter_append]
  have hgone : (v :: seg).reverse.filter (· ∉ (s.components ++ [top]).flatten) = [] := by
    rw [List.filter_eq_nil_iff]
    intro x hx
    rw [List.mem_reverse] at hx
    simp only [List.flatten_append, List.flatten_singleton, List.mem_append, not_or,
      decide_eq_true_eq, not_and, not_not]
    intro hnot
    have hstackmem : x ∈ s.stack := by
      rw [h.stack, List.mem_filter, List.mem_reverse, hl.split]
      exact ⟨List.mem_append_right _ hx, decide_eq_true hnot⟩
    rw [hstack, List.mem_append] at hstackmem
    refine hstackmem.resolve_right fun hxrest => ?_
    rw [List.mem_filter, List.mem_reverse] at hxrest
    exact hl.separate x hxrest.1 hx
  rw [hgone, List.nil_append]
  refine List.filter_congr fun x hx => ?_
  have hxtop : x ∉ top := fun hxtop =>
    hl.separate x (List.mem_reverse.mp hx) (hmem x ((htop x).mp hxtop))
  simp [hxtop]

/-- When all nodes of its component have the number of the first node as their value, leaving the
latter pops exactly the component. -/
theorem leave_root (hl : Leaving children log s.order pre seg below v)
    (h : Ideal children (v :: below) log s) (hroot : ∀ g ∈ below, ¬ Same children v g)
    (hall : ∀ x, Same children v x → Trail log x v) :
    Ideal children below log (s.apply (.leave v)) := by
  obtain ⟨top, happly, hstack, htop, hnodup⟩ := leave_pops hl h hroot hall
  have hmem : ∀ x, Same children v x → x ∈ v :: seg := fun x hx => hl.component h hroot hx
  have hin : ∀ x ∈ top, x ∈ s.order := fun x hx => by
    rw [hl.split]
    exact List.mem_append_right _ (hmem x ((htop x).mp hx))
  have hout : ∀ x ∈ top, x ∉ s.components.flatten := fun x hx hpopped =>
    (h.left v (h.popped_mem hpopped ((htop x).mp hx).symm)).2 (List.mem_cons_self ..)
  rw [happly]
  refine ⟨h.lower, h.attained, stack_remains hl h hroot hstack htop, ?_, ?_, ?_, ?_, ?_⟩
  · intro component hcomponent x hx y
    rw [List.mem_append, List.mem_singleton] at hcomponent
    rcases hcomponent with hcomponent | rfl
    · exact h.exact component hcomponent x hx y
    · rw [htop] at hx ⊢
      exact ⟨fun hy => hx.symm.trans hy, fun hy => hx.trans hy⟩
  · show (s.components ++ [top]).flatten.Nodup
    rw [List.flatten_append, List.flatten_singleton]
    exact List.Nodup.append h.nodup hnodup fun x hx hxtop => hout x hxtop hx
  · intro x hx
    rw [List.flatten_append, List.flatten_singleton, List.mem_append] at hx
    rcases hx with hx | hx
    · obtain ⟨hmem, hactive⟩ := h.left x hx
      exact ⟨hmem, fun hb => hactive (List.mem_cons_of_mem _ hb)⟩
    · exact ⟨hin x hx, fun hb => hl.separate x (hl.before x hb) (hmem x ((htop x).mp hx))⟩
  · intro x hx hnot
    rw [List.flatten_append, List.flatten_singleton, List.mem_append, not_or] at hnot
    obtain ⟨g, hg, hs, hle⟩ := h.root x hx hnot.1
    rcases List.mem_cons.mp hg with rfl | hg
    · exact absurd ((htop x).mpr hs.symm) hnot.2
    · exact ⟨g, hg, hs, hle⟩
  · intro x hx r hr
    rw [List.flatten_append, List.flatten_singleton, List.mem_append] at hx
    rcases hx with hx | hx
    · exact h.dated x hx r hr
    · have hvx := (htop x).mp hx
      have hrmem := hmem r (hvx.trans hr.1)
      have hle := hr.2 v hvx.symm
      have hge := hl.idx_seg hrmem
      have hrv : r = v := by
        refine (List.idxOf_inj ?_).mp (Nat.le_antisymm hle hge)
        rw [hl.split]
        exact List.mem_append_right _ hrmem
      exact hrv ▸ hall x hvx

/-- A node of the component from which no trail leads to the first node is stuck when the first
node is left. -/
theorem leave_stuck (hl : Leaving children log s.order pre seg below v)
    (h : Ideal children (v :: below) log s) (hroot : ∀ g ∈ below, ¬ Same children v g)
    (hx : Same children v x) (hno : ¬ Trail log x v) :
    Stuck children below log (s.apply (.leave v)) x := by
  have hmem : ∀ y, Same children v y → y ∈ v :: seg := fun y hy => hl.component h hroot hy
  have hin : ∀ y ∈ v :: seg, y ∈ s.order := fun y hy => by
    rw [hl.split]
    exact List.mem_append_right _ hy
  have hseparate : ∀ y ∈ below, y ∉ v :: seg := fun y hy => hl.separate y (hl.before y hy)
  have hval : s.low x ≠ s.order.idxOf v := fun heq =>
    hno ((low_first hl h hroot hx).2.mp heq)
  have horder : (s.apply (.leave v)).order = s.order := by simp [apply_order]
  obtain ⟨w, ht, hs, heq⟩ := h.attained x (hin x (hmem x hx))
  have hw := hmem w (hx.trans hs)
  refine ⟨?_, fun hpopped => ?_, fun hb => hseparate x hb (hmem x hx), fun a ha => ?_, ?_,
    v, ⟨hx.symm, fun y hy => ?_⟩, fun y hy => ?_, hno⟩
  · rw [horder]
    exact hin x (hmem x hx)
  · -- neither was it popped before, nor is it now
    have hout : x ∉ s.components.flatten := fun hpopped =>
      (h.left v (h.popped_mem hpopped hx.symm)).2 (List.mem_cons_self ..)
    have htake : x ∉ s.stack.takeWhile (s.low · = s.order.idxOf v) := fun hmem =>
      hval (by simpa using List.mem_takeWhile_imp hmem)
    rw [apply_leave] at hpopped
    split at hpopped
    · simp only at hpopped
      split at hpopped
      · exact hout hpopped
      · rw [List.flatten_append, List.flatten_singleton, List.mem_append] at hpopped
        exact hpopped.elim hout htake
    · exact hout hpopped
  · rw [apply_leave_low, horder, heq]
    have hlt := hl.idx_pre (hl.before a ha)
    have hge := hl.idx_seg hw
    omega
  · rw [apply_leave_low, horder, heq]
    exact List.idxOf_lt_length_of_mem (hin w hw)
  · rw [horder]
    exact hl.idx_seg (hmem y (hx.trans hy))
  · rw [horder]
    exact hin y (hmem y (hx.trans hy))

theorem ideal_leave (hl : Leaving children log s.order pre seg below v)
    (h : Ideal children (v :: below) log s) :
    Ideal children below log (s.apply (.leave v)) ∨
      ∃ x, Stuck children below log (s.apply (.leave v)) x := by
  by_cases hroot : ∀ g ∈ below, ¬ Same children v g
  · by_cases hall : ∀ x, Same children v x → Trail log x v
    · exact .inl (leave_root hl h hroot hall)
    · obtain ⟨x, hx⟩ := not_forall.mp hall
      obtain ⟨hs, hno⟩ := Classical.not_imp.mp hx
      exact .inr ⟨x, leave_stuck hl h hroot hs hno⟩
  · obtain ⟨g, hg⟩ := not_forall.mp hroot
    obtain ⟨hmem, hs⟩ := Classical.not_imp.mp hg
    obtain ⟨happly, hideal⟩ := leave_inner hl h hmem (not_not.mp hs)
    rw [happly]
    exact .inl hideal

/-! ## Runs -/

theorem stuck_enter (hv : v ∉ s.order) (hactive : ∀ a ∈ active, a ∈ s.order)
    (h : Stuck children active log s x) :
    Stuck children (v :: active) log (s.apply (.enter v)) x := by
  have hne : x ≠ v := fun heq => hv (heq ▸ h.mem)
  have hlow : (s.apply (.enter v)).low x = s.low x := Function.update_of_ne hne _ _
  obtain ⟨r, hr, hall, hno⟩ := h.noTrail
  refine ⟨by simp [apply_order, h.mem], h.unpopped, by simp [hne, h.notActive], fun a ha => ?_, ?_,
    r, (first_append hall).mpr hr, fun y hy => ?_, hno⟩
  · rw [hlow, apply_enter]
    show (s.order ++ [v]).idxOf a ≠ _
    rcases List.mem_cons.mp ha with rfl | ha
    · rw [List.idxOf_append_of_notMem hv]
      have := h.lowLt
      omega
    · rw [List.idxOf_append_of_mem (hactive a ha)]
      exact h.low a ha
  · rw [hlow, apply_order, List.length_append]
    exact Nat.lt_of_lt_of_le h.lowLt (Nat.le_add_right _ _)
  · rw [apply_order]
    exact List.mem_append_left _ (hall y hy)

theorem stuck_edge (ha : a ∈ active) (h : Stuck children active log s x) :
    Stuck children active ((a, c) :: log) (s.apply (.edge a c)) x := by
  have hne : x ≠ a := fun heq => h.notActive (heq ▸ ha)
  obtain ⟨r, hr, hall, hno⟩ := h.noTrail
  have hno' : ¬ Trail ((a, c) :: log) x r := fun ht => hno ((trail_cons_of_ne hne).mp ht)
  have horder : (s.apply (.edge a c)).order = s.order := by simp [apply_order]
  refine ⟨?_, ?_, h.notActive, ?_, ?_, r, ?_, ?_, hno'⟩
  · rw [horder]
    exact h.mem
  · rw [apply_edge_components]
    exact h.unpopped
  · rw [horder, apply_edge_low hne]
    exact h.low
  · rw [horder, apply_edge_low hne]
    exact h.lowLt
  · rw [horder]
    exact hr
  · rw [horder]
    exact hall

theorem stuck_leave (h : Stuck children (v :: active) log s x) :
    Stuck children active log (s.apply (.leave v)) x := by
  have hval : s.low x ≠ s.order.idxOf v := (h.low v (List.mem_cons_self ..)).symm
  have htake : x ∉ s.stack.takeWhile (s.low · = s.order.idxOf v) := fun hmem =>
    hval (by simpa using List.mem_takeWhile_imp hmem)
  have hactive : x ∉ active := fun hmem => h.notActive (List.mem_cons_of_mem _ hmem)
  have hlow : ∀ a ∈ active, s.order.idxOf a ≠ s.low x :=
    fun a ha => h.low a (List.mem_cons_of_mem _ ha)
  rw [apply_leave]
  split
  · refine ⟨h.mem, ?_, hactive, hlow, h.lowLt, h.noTrail⟩
    show x ∉ List.flatten (if _ then _ else _)
    split
    · exact h.unpopped
    · rw [List.flatten_append, List.flatten_singleton, List.mem_append]
      exact fun hmem => hmem.elim h.unpopped htake
  · exact ⟨h.mem, h.unpopped, hactive, hlow, h.lowLt, h.noTrail⟩

/-- A state of the traversal in which the computation is ideal or some node is stuck. -/
def Sound (children : ν → List ν) (c : Config ν) : Prop :=
  Ideal children c.active (completed c.events) (LowLink.after c.events) ∨
    ∃ x, Stuck children c.active (completed c.events) (LowLink.after c.events) x

variable {nodes todo : List ν} {fs : List (ν × List ν)} {es : List (Event ν)}

theorem leaving_of_inv (h : Inv children nodes ⟨(v, []) :: fs, todo, es⟩) :
    ∃ pre seg, Leaving children (completed es) (LowLink.after es).order pre seg
      (fs.map Prod.fst) v := by
  rw [after_order]
  have hnested : Nested children (completed es) ((v, []) :: fs) (entered es) := h.nested
  have hreach : ∀ g ∈ fs.map Prod.fst, Reach children g v := by
    intro g hg
    obtain ⟨f, hf, rfl⟩ := List.mem_map.mp hg
    exact hnested.reach (List.mem_cons_of_mem _ hf)
  have hdone := hnested.all_done
  have hleft : ∀ x ∈ entered es, x ∉ v :: fs.map Prod.fst → ∀ y ∈ children x,
      Trail (completed es) x y := h.left
  have hnodup : (entered es).Nodup := h.nodup
  have hclosed : ∀ x ∈ entered es, ∀ w, Trail (completed es) x w → w ∈ entered es :=
    fun x hx w => Trail.mem (fun e he => (h.ends e he).2) hx
  have hedges := h.edges
  generalize entered es = order at *
  cases hnested with
  | @cons _ _ _ pre seg hbelow _ hseg _ _ =>
    have hbefore : ∀ g ∈ fs.map Prod.fst, g ∈ pre := by
      intro g hg
      obtain ⟨f, hf, rfl⟩ := List.mem_map.mp hg
      exact hbelow.mem hf
    refine ⟨pre, seg, rfl, hnodup, hbefore, hreach, fun x hx => ?_, hseg, hedges, hclosed⟩
    by_cases hxv : x = v
    · exact hxv ▸ hdone
    · refine hleft x (List.mem_append_right _ hx) fun hactive => ?_
      have hxpre := hbefore x ((List.mem_cons.mp hactive).resolve_left hxv)
      exact (List.nodup_append.mp hnodup).2.2 x hxpre x hx rfl

theorem sound_enter {c : Config ν} (hinv : Inv children nodes c) (hes : c.events = es)
    (hfs : c.frames = fs) (hv : v ∉ entered es) (h : Sound children c) :
    Sound children ⟨(v, children v) :: fs, todo, es ++ [.enter v]⟩ := by
  subst hes hfs
  have hv' : v ∉ (LowLink.after c.events).order := by rwa [after_order]
  have hactive : ∀ a ∈ c.active, a ∈ (LowLink.after c.events).order := by
    intro a ha
    obtain ⟨f, hf, rfl⟩ := List.mem_map.mp ha
    rw [after_order]
    exact hinv.nested.mem hf
  have hends : ∀ e ∈ completed c.events, e.1 ∈ (LowLink.after c.events).order ∧
      e.2 ∈ (LowLink.after c.events).order := by
    rw [after_order]
    exact hinv.ends
  simp only [Sound, Config.active, List.map_cons, completed_snoc_enter, after_snoc]
  rcases h with h | ⟨x, h⟩
  · exact .inl (ideal_enter hends hv' h)
  · exact .inr ⟨x, stuck_enter hv' hactive h⟩

omit [DecidableEq ν] in
theorem nested_reach {rem : List ν} (h : Nested children log ((v, rem) :: fs) order) :
    ∀ g ∈ v :: fs.map Prod.fst, Reach children g v := by
  intro g hg
  obtain ⟨f, hf, rfl⟩ := List.mem_map.mp (show g ∈ ((v, rem) :: fs).map Prod.fst from hg)
  exact h.reach hf

theorem sound_edge (ha : a ∈ active) (hc : c ∈ s.order) (hedge : c ∈ children a)
    (hlog : ∀ e ∈ log, e.2 ∈ children e.1) (hreach : ∀ g ∈ active, Reach children g a)
    (h : Ideal children active log s ∨ ∃ x, Stuck children active log s x) :
    Ideal children active ((a, c) :: log) (s.apply (.edge a c)) ∨
      ∃ x, Stuck children active ((a, c) :: log) (s.apply (.edge a c)) x := by
  rcases h with h | ⟨x, h⟩
  · exact .inl (ideal_edge h ha hc hedge hlog hreach)
  · exact .inr ⟨x, stuck_edge ha h⟩

theorem sound_leave (hinv : Inv children nodes ⟨(v, []) :: fs, todo, es⟩)
    (h : Sound children ⟨(v, []) :: fs, todo, es⟩) :
    Ideal children (fs.map Prod.fst) (completed es) (LowLink.after (es ++ [.leave v])) ∨
      ∃ x, Stuck children (fs.map Prod.fst) (completed es)
        (LowLink.after (es ++ [.leave v])) x := by
  obtain ⟨pre, seg, hl⟩ := leaving_of_inv hinv
  rw [after_snoc]
  rcases h with h | ⟨x, h⟩
  · exact ideal_leave hl h
  · exact .inr ⟨x, stuck_leave h⟩

theorem step_sound {c c' : Config ν} (hinv : Inv children nodes c) (h : Sound children c)
    (hstep : Step children c c') : Sound children c' := by
  cases hstep with
  | rootSkip _ => exact h
  | rootEnter hr => exact sound_enter hinv rfl rfl hr h
  | enter hc => exact sound_enter hinv rfl rfl hc h
  | @skip v child cs fs todo es hc =>
    have hnested : Nested children (completed es) ((v, child :: cs) :: fs) (entered es) :=
      hinv.nested
    have hsound := sound_edge (List.mem_cons_self ..) (by rwa [after_order])
      (hnested.rem child (by simp)) hinv.edges (nested_reach hnested) h
    simpa only [Sound, Config.active, List.map_cons, completed_snoc_edge, after_snoc]
      using hsound
  | @ret v child cs fs todo es =>
    have hnested : Nested children (completed es) ((child, []) :: (v, child :: cs) :: fs)
        (entered es) := hinv.nested
    obtain ⟨order, hbelow⟩ := hnested.tail
    have hc : child ∈ (LowLink.after (es ++ [.leave child])).order := by
      rw [after_order, entered_append]
      exact List.mem_append_left _ (hnested.mem (List.mem_cons_self ..))
    have hsound := sound_edge (List.mem_cons_self ..) hc (hbelow.rem child (by simp))
      hinv.edges (nested_reach hbelow) (sound_leave hinv h)
    simpa only [Sound, Config.active, List.map_cons, completed_snoc_edge, completed_snoc_leave,
      after_snoc] using hsound
  | @rootRet r todo es =>
    have hleft := sound_leave hinv h
    simpa only [Sound, Config.active, List.map_nil, completed_snoc_leave] using hleft

theorem steps_sound {c c' : Config ν} (hclosed : ∀ v ∈ nodes, ∀ y ∈ children v, y ∈ nodes)
    (hinv : Inv children nodes c) (h : Sound children c) (hsteps : Steps children c c') :
    Sound children c' := by
  induction hsteps with
  | refl => exact h
  | tail hrun hstep ih => exact step_sound (steps_inv hclosed hinv hrun) ih hstep

/-- The computation finds the strongly connected components exactly when from every node a trail
leads to the first node of its component. -/
theorem components_exact_iff (hclosed : ∀ v ∈ nodes, ∀ y ∈ children v, y ∈ nodes) :
    IsComponents children nodes (LowLink.after (traverse children nodes)).components ↔
      ∀ x ∈ nodes, ∀ r, IsFirst children (entered (traverse children nodes)) r x →
        Trail (completed (traverse children nodes)) x r := by
  have hrun := traverse_run hclosed
  have hinv := steps_inv hclosed (init_inv children nodes) hrun
  have hsound : Sound children ⟨[], [], traverse children nodes⟩ :=
    steps_sound hclosed (init_inv children nodes) (.inl init_ideal) hrun
  have hmem : ∀ x, x ∈ entered (traverse children nodes) ↔ x ∈ nodes :=
    fun x => ⟨hinv.inNodes x, fun hx => (hinv.seen x hx).resolve_left (by simp)⟩
  rcases hsound with h | ⟨x, h⟩
  · have horder := h.root
    have hdated := h.dated
    rw [after_order] at horder hdated
    have hall : ∀ x, x ∈ (LowLink.after (traverse children nodes)).components.flatten ↔
        x ∈ nodes := by
      refine fun x => ⟨fun hx => ?_, fun hx => ?_⟩
      · have hin := (h.left x hx).1
        rw [after_order] at hin
        exact (hmem x).mp hin
      · by_contra hnot
        obtain ⟨g, hg, _⟩ := horder x ((hmem x).mpr hx) hnot
        cases hg
    refine iff_of_true ⟨(List.nodup_flatten.mp h.nodup).2, hall, fun x hx y _ => ?_⟩
      fun x hx r hr => hdated x ((hall x).mpr hx) r hr
    refine ⟨fun ⟨component, hcomponent, hxc, hyc⟩ => ?_, fun hs => ?_⟩
    · exact (h.exact component hcomponent x hxc y).mp hyc
    · obtain ⟨component, hcomponent, hxc⟩ := List.mem_flatten.mp ((hall x).mpr hx)
      exact ⟨component, hcomponent, hxc, (h.exact component hcomponent x hxc y).mpr hs⟩
  · have hx := h.mem
    obtain ⟨r, hr, _, hno⟩ := h.noTrail
    rw [after_order] at hx hr
    refine iff_of_false (fun hc => ?_) fun hall => hno (hall x ((hmem x).mp hx) r hr)
    exact h.unpopped ((hc.union x).mpr ((hmem x).mp hx))

end N8n.Graph
