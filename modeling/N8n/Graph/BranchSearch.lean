import Mathlib.Data.List.Chain
import Mathlib.Data.List.Induction
import Mathlib.Logic.Relation

/-!
# Searching branches backwards

A search that walks a multigraph backwards from a node `stop`, along all branches at once. A
branch ends at the node `start`, or where it comes to a node for the second time; unless that
node is `stop`, the edges of the branch are kept. `keeps_iff_on_passage` says when the edges
kept are those of the passages: the walks from `start` to `stop` that visit both only at their
ends. The branches that end in a loop make the difference: every loop from which `stop` can be
reached must be reachable from `start`.
-/

namespace N8n.Graph

open Relation

/-- A multigraph with nodes `ν` and edges `ε`. -/
structure Multigraph (ν ε : Type) where
  IsEdge : ε → Prop
  source : ε → ν
  target : ε → ν

variable {ν ε : Type}

/-- An edge leads from the first node to the second. -/
def Multigraph.Step (G : Multigraph ν ε) (a b : ν) : Prop :=
  ∃ e, G.IsEdge e ∧ G.source e = a ∧ G.target e = b

/-! ## Passages -/

/-- The node is neither of the two ends. -/
def Inner (start stop v : ν) : Prop := v ≠ start ∧ v ≠ stop

/-- The node is reached from `start` over inner nodes. -/
inductive FromStart (G : Multigraph ν ε) (start stop : ν) : ν → Prop where
  | start : FromStart G start stop start
  | step {e : ε} : G.IsEdge e → FromStart G start stop (G.source e) →
      Inner start stop (G.target e) → FromStart G start stop (G.target e)

/-- From the node, `stop` is reached over inner nodes. -/
inductive ToStop (G : Multigraph ν ε) (start stop : ν) : ν → Prop where
  | stop : ToStop G start stop stop
  | step {e : ε} : G.IsEdge e → ToStop G start stop (G.target e) →
      Inner start stop (G.source e) → ToStop G start stop (G.source e)

/-- The end of a passage: a walk to `stop` that does not visit `start` again, nor leave
`stop`. -/
structure IsTail (G : Multigraph ν ε) (start stop : ν) (walk : List ε) : Prop where
  edges : ∀ e ∈ walk, G.IsEdge e
  chain : walk.IsChain fun e e' => G.target e = G.source e'
  ends : ∀ e ∈ walk.getLast?, G.target e = stop
  startOnce : ∀ e ∈ walk, G.target e ≠ start
  stopOnce : ∀ e ∈ walk, G.source e ≠ stop

/-- A walk from `start` to `stop` that visits `start` only as its first node and `stop` only as
its last. -/
structure IsPassage (G : Multigraph ν ε) (start stop : ν) (walk : List ε) : Prop extends
    IsTail G start stop walk where
  begins : ∀ e ∈ walk.head?, G.source e = start

/-- The edge lies on a passage. -/
def OnPassage (G : Multigraph ν ε) (start stop : ν) (e : ε) : Prop :=
  ∃ walk, IsPassage G start stop walk ∧ e ∈ walk

variable {G : Multigraph ν ε} {start stop : ν}

variable {v : ν}

theorem FromStart.ne_stop (h : FromStart G start stop v) (hne : start ≠ stop) : v ≠ stop := by
  cases h with
  | start => exact hne
  | step _ _ hinner => exact hinner.2

theorem ToStop.ne_start (h : ToStop G start stop v) (hne : start ≠ stop) : v ≠ start := by
  cases h with
  | stop => exact hne.symm
  | step _ _ hinner => exact hinner.1

variable {post : List ε} {e : ε}

theorem passage_from_start {pre : List ε} (h : IsPassage G start stop (pre ++ e :: post)) :
    FromStart G start stop (G.source e) := by
  induction pre using List.reverseRecOn generalizing e post with
  | nil =>
    rw [h.begins e (by simp)]
    exact .start
  | append_singleton pre e' ih =>
    rw [List.append_assoc, List.singleton_append] at h
    have hlink : G.target e' = G.source e := by
      have hchain := (List.isChain_append.mp h.chain).2.1
      exact (List.isChain_cons_cons.mp hchain).1
    have hinner : Inner start stop (G.target e') :=
      ⟨h.startOnce e' (by simp), hlink ▸ h.stopOnce e (by simp)⟩
    exact hlink ▸ .step (h.edges e' (by simp)) (ih h) hinner

theorem tail_to_stop {pre : List ε} (h : IsTail G start stop (pre ++ e :: post)) :
    ToStop G start stop (G.target e) := by
  induction post generalizing pre e with
  | nil =>
    rw [h.ends e (by simp)]
    exact .stop
  | cons e' post ih =>
    have hlink : G.target e = G.source e' := by
      have hchain := (List.isChain_append.mp h.chain).2.1
      exact (List.isChain_cons_cons.mp hchain).1
    have hinner : Inner start stop (G.source e') :=
      ⟨hlink ▸ h.startOnce e (by simp), h.stopOnce e' (by simp)⟩
    have hrest : IsTail G start stop ((pre ++ [e]) ++ e' :: post) := by simpa using h
    exact hlink ▸ .step (h.edges e' (by simp)) (ih hrest) hinner

theorem exists_tail (h : ToStop G start stop v) (hne : start ≠ stop) (he : G.IsEdge e)
    (htarget : G.target e = v) (hsource : G.source e ≠ stop) :
    ∃ post, IsTail G start stop (e :: post) := by
  induction h generalizing e with
  | stop => exact ⟨[], by simp [he], by simp, by simp [htarget], by simp [htarget, hne.symm],
      by simp [hsource]⟩
  | @step e' he' hstop hinner ih =>
    obtain ⟨post, hpost⟩ := ih he' rfl hinner.2
    refine ⟨e' :: post, ?_, ?_, ?_, ?_, ?_⟩
    · simpa [he] using hpost.edges
    · exact List.isChain_cons_cons.mpr ⟨htarget, hpost.chain⟩
    · simpa using hpost.ends
    · simpa [htarget, hinner.1] using hpost.startOnce
    · simpa [hsource] using hpost.stopOnce

theorem exists_passage (h : FromStart G start stop v) (hne : start ≠ stop)
    (htail : IsTail G start stop (e :: post)) (hsource : G.source e = v) :
    ∃ pre, IsPassage G start stop (pre ++ e :: post) := by
  induction h generalizing e post with
  | start => exact ⟨[], htail, by simpa using hsource⟩
  | @step e' he' hstart hinner ih =>
    have htail' : IsTail G start stop (e' :: e :: post) := by
      refine ⟨?_, ?_, ?_, ?_, ?_⟩
      · simpa [he'] using htail.edges
      · exact List.isChain_cons_cons.mpr ⟨hsource.symm, htail.chain⟩
      · simpa using htail.ends
      · simpa [hinner.1] using htail.startOnce
      · simpa [hstart.ne_stop hne] using htail.stopOnce
    obtain ⟨pre, hpre⟩ := ih htail' rfl
    exact ⟨pre ++ [e'], by simpa using hpre⟩

/-- The edges on passages lead from nodes reached from `start` to nodes from which `stop` is
reached. -/
theorem on_passage_iff :
    OnPassage G start stop e ↔ start ≠ stop ∧ G.IsEdge e ∧
      FromStart G start stop (G.source e) ∧ ToStop G start stop (G.target e) := by
  refine ⟨fun ⟨walk, hwalk, he⟩ => ?_, fun ⟨hne, he, hfrom, hto⟩ => ?_⟩
  · obtain ⟨pre, post, rfl⟩ := List.append_of_mem he
    obtain ⟨last, hlast⟩ := Option.isSome_iff_exists.mp
      (List.getLast?_isSome.mpr (List.ne_nil_of_mem he))
    have hne : start ≠ stop := by
      rw [← hwalk.ends last hlast]
      exact (hwalk.startOnce last (List.mem_of_getLast? hlast)).symm
    exact ⟨hne, hwalk.edges e he, passage_from_start hwalk, tail_to_stop hwalk.toIsTail⟩
  · obtain ⟨post, hpost⟩ := exists_tail hto hne he rfl (hfrom.ne_stop hne)
    obtain ⟨pre, hpre⟩ := exists_passage hfrom hne hpost rfl
    exact ⟨_, hpre, by simp⟩

/-! ## Branches -/

/-- One step of the search: a branch that has not ended grows by an edge into its node. A branch
is paired with the node that it has come to. -/
def Up (G : Multigraph ν ε) (start : ν) (s s' : ν × List ε) : Prop :=
  s.1 ≠ start ∧ (∀ e ∈ s.2, G.target e ≠ s.1) ∧
    ∃ e, G.IsEdge e ∧ G.target e = s.1 ∧ s' = (G.source e, s.2 ++ [e])

/-- A branch ends and is kept: it has come to `start`, or back to a node other than `stop`. -/
def Ends (G : Multigraph ν ε) (start stop : ν) (s : ν × List ε) : Prop :=
  s.1 = start ∨ s.1 ≠ stop ∧ ∃ e ∈ s.2, G.target e = s.1

/-- The search from a branch keeps an edge. -/
def Keeps (G : Multigraph ν ε) (start stop : ν) (s : ν × List ε) (e : ε) : Prop :=
  ∃ s', ReflTransGen (Up G start) s s' ∧ Ends G start stop s' ∧ e ∈ s'.2

variable {s : ν × List ε}

theorem keeps_iff :
    Keeps G start stop s e ↔
      Ends G start stop s ∧ e ∈ s.2 ∨ ∃ s', Up G start s s' ∧ Keeps G start stop s' e := by
  refine ⟨fun ⟨s', hrun, hends, he⟩ => ?_, fun h => ?_⟩
  · rcases hrun.cases_head with rfl | ⟨next, hup, hrest⟩
    · exact .inl ⟨hends, he⟩
    · exact .inr ⟨next, hup, s', hrest, hends, he⟩
  · rcases h with ⟨hends, he⟩ | ⟨next, hup, s', hrest, hends, he⟩
    · exact ⟨s, .refl, hends, he⟩
    · exact ⟨s', .head hup hrest, hends, he⟩

/-- A step between inner nodes. -/
def InnerStep (G : Multigraph ν ε) (start stop a b : ν) : Prop :=
  G.Step a b ∧ Inner start stop a ∧ Inner start stop b

/-- Every loop of inner nodes from which `stop` is reached is reached from `start`. -/
def NoStrayLoop (G : Multigraph ν ε) (start stop : ν) : Prop :=
  ∀ v, TransGen (InnerStep G start stop) v v → ToStop G start stop v → FromStart G start stop v

/-- The search has come to the node with a branch. -/
def Visits (G : Multigraph ν ε) (start stop : ν) (s : ν × List ε) : Prop :=
  ReflTransGen (Up G start) (stop, []) s

/-- A branch consists of edges of the graph, all of which lead towards `stop`. Only the node of
an empty branch, or one that came back to it, is `stop`. -/
structure IsBranch (G : Multigraph ν ε) (start stop : ν) (s : ν × List ε) : Prop where
  edges : ∀ e ∈ s.2, G.IsEdge e
  toStop : ∀ e ∈ s.2, ToStop G start stop (G.target e)
  root : s.2 = [] → s.1 = stop
  rooted : s.2 ≠ [] → ∃ e ∈ s.2, G.target e = stop
  current : Inner start stop s.1 → ToStop G start stop s.1

theorem visits_is_branch (h : Visits G start stop s) : IsBranch G start stop s := by
  induction h with
  | refl => exact ⟨by simp, by simp, fun _ => rfl, fun h => absurd rfl h,
      fun h => absurd rfl h.2⟩
  | @tail s s' _ hup ih =>
    obtain ⟨hne, hnew, e, he, htarget, rfl⟩ := hup
    -- the node of the branch is `stop`, or an inner node on the way to it
    have hto : ToStop G start stop (G.target e) := by
      rw [htarget]
      by_cases hstop : s.1 = stop
      · exact hstop ▸ .stop
      · exact ih.current ⟨hne, hstop⟩
    refine ⟨?_, ?_, by simp, fun _ => ?_, fun hinner => .step he hto hinner⟩
    · simpa [or_imp, forall_and, he] using ih.edges
    · simpa [or_imp, forall_and, hto] using ih.toStop
    · by_cases hnil : s.2 = []
      · exact ⟨e, by simp, htarget.trans (ih.root hnil)⟩
      · obtain ⟨e', he', hstop⟩ := ih.rooted hnil
        exact ⟨e', by simp [he'], hstop⟩

theorem visits_target (h : Visits G start stop s) (he : e ∈ s.2) :
    ∃ b, Visits G start stop (G.target e, b) ∧ ∀ e' ∈ b, G.target e' ≠ G.target e := by
  induction h with
  | refl => simp at he
  | @tail s s' hvisit hup ih =>
    obtain ⟨hne, hnew, e', he', htarget, rfl⟩ := hup
    rw [List.mem_append, List.mem_singleton] at he
    rcases he with he | rfl
    · exact ih he
    · exact ⟨s.2, htarget ▸ hvisit, fun e' he' => htarget ▸ hnew e' he'⟩

theorem visits_of_to_stop (h : ToStop G start stop v) (hne : start ≠ stop) :
    ∃ b, Visits G start stop (v, b) ∧ ∀ e ∈ b, G.target e ≠ v := by
  induction h with
  | stop => exact ⟨[], .refl, by simp⟩
  | @step e he hstop hinner ih =>
    obtain ⟨b, hvisit, hnew⟩ := ih
    have hup : Up G start (G.target e, b) (G.source e, b ++ [e]) :=
      ⟨hstop.ne_start hne, hnew, e, he, rfl, rfl⟩
    have hnext : Visits G start stop (G.source e, b ++ [e]) := .tail hvisit hup
    by_cases hold : ∃ e' ∈ b ++ [e], G.target e' = G.source e
    · obtain ⟨e', he', htarget⟩ := hold
      exact htarget ▸ visits_target hnext he'
    · exact ⟨b ++ [e], hnext, fun e' he' htarget => hold ⟨e', he', htarget⟩⟩

theorem keeps_of_from_start (h : FromStart G start stop v) (b : List ε) (he : e ∈ b) :
    Keeps G start stop (v, b) e := by
  induction h generalizing b with
  | start => exact keeps_iff.mpr (.inl ⟨.inl rfl, he⟩)
  | @step e' he' hstart hinner ih =>
    by_cases hold : ∃ e'' ∈ b, G.target e'' = G.target e'
    · exact keeps_iff.mpr (.inl ⟨.inr ⟨hinner.2, hold⟩, he⟩)
    · refine keeps_iff.mpr (.inr ⟨(G.source e', b ++ [e']), ?_, ih _ (by simp [he])⟩)
      exact ⟨hinner.1, fun e'' he'' htarget => hold ⟨e'', he'', htarget⟩, e', he', rfl, rfl⟩

theorem keeps_of_on_passage (h : OnPassage G start stop e) : Keeps G start stop (stop, []) e := by
  obtain ⟨hne, he, hfrom, hto⟩ := on_passage_iff.mp h
  obtain ⟨b, hvisit, hnew⟩ := visits_of_to_stop hto hne
  have hup : Up G start (G.target e, b) (G.source e, b ++ [e]) :=
    ⟨hto.ne_start hne, hnew, e, he, rfl, rfl⟩
  have hlast : e ∈ b ++ [e] := by simp
  obtain ⟨s, hrun, hends, hmem⟩ := keeps_of_from_start hfrom (b ++ [e]) hlast
  exact ⟨s, hvisit.trans (.head hup hrun), hends, hmem⟩

theorem branch_from_start (h : Visits G start stop s) (hfrom : FromStart G start stop s.1)
    (he : e ∈ s.2) : FromStart G start stop (G.source e) := by
  induction h with
  | refl => simp at he
  | @tail s s' hvisit hup ih =>
    obtain ⟨hne, hnew, e', he', htarget, rfl⟩ := hup
    rw [List.mem_append, List.mem_singleton] at he
    rcases he with he | rfl
    · refine ih ?_ he
      -- the node is not `stop` again: the branch is not empty, so `stop` ended an edge of it
      obtain ⟨e'', he'', hroot⟩ := (visits_is_branch hvisit).rooted (List.ne_nil_of_mem he)
      have hstop : s.1 ≠ stop := fun heq => hnew e'' he'' (hroot.trans heq.symm)
      rw [← htarget]
      exact .step he' hfrom (htarget.symm ▸ ⟨hne, hstop⟩)
    · exact hfrom

theorem branch_inner_steps (h : Visits G start stop s) (hinner : Inner start stop s.1)
    (he : e ∈ s.2) (hstop : G.target e ≠ stop) :
    TransGen (InnerStep G start stop) s.1 (G.target e) := by
  induction h with
  | refl => simp at he
  | @tail s s' hvisit hup ih =>
    obtain ⟨hne, hnew, e', he', htarget, rfl⟩ := hup
    have hstep (hcurrent : s.1 ≠ stop) : InnerStep G start stop (G.source e') s.1 :=
      ⟨⟨e', he', rfl, htarget⟩, hinner, hne, hcurrent⟩
    rw [List.mem_append, List.mem_singleton] at he
    rcases he with he | rfl
    · obtain ⟨e'', he'', hroot⟩ := (visits_is_branch hvisit).rooted (List.ne_nil_of_mem he)
      have hcurrent : s.1 ≠ stop := fun heq => hnew e'' he'' (hroot.trans heq.symm)
      exact .head (hstep hcurrent) (ih ⟨hne, hcurrent⟩ he)
    · rw [htarget] at hstop ⊢
      exact .single (hstep hstop)

theorem on_passage_of_keeps (hne : start ≠ stop) (hstray : NoStrayLoop G start stop)
    (h : Keeps G start stop (stop, []) e) : OnPassage G start stop e := by
  obtain ⟨s, hvisit, hends, he⟩ := h
  have hbranch := visits_is_branch hvisit
  have hfrom : FromStart G start stop s.1 := by
    rcases hends with hstart | ⟨hstop, e', he', htarget⟩
    · exact hstart ▸ .start
    · by_cases hstart : s.1 = start
      · exact hstart ▸ .start
      · have hloop := branch_inner_steps hvisit ⟨hstart, hstop⟩ he' (htarget ▸ hstop)
        rw [htarget] at hloop
        exact hstray s.1 hloop (hbranch.current ⟨hstart, hstop⟩)
  exact on_passage_iff.mpr
    ⟨hne, hbranch.edges e he, branch_from_start hvisit hfrom he, hbranch.toStop e he⟩

theorem keeps_of_inner_steps {w : ν} (h : ReflTransGen (InnerStep G start stop) v w)
    (hw : Inner start stop w) (b : List ε) (hb : ∃ e ∈ b, G.target e = v) (he : e ∈ b) :
    Keeps G start stop (w, b) e := by
  induction h generalizing b with
  | refl => exact keeps_iff.mpr (.inl ⟨.inr ⟨hw.2, hb⟩, he⟩)
  | @tail u w _ hstep ih =>
    obtain ⟨⟨e', he', hsource, htarget⟩, hu, _⟩ := hstep
    by_cases hold : ∃ e'' ∈ b, G.target e'' = w
    · exact keeps_iff.mpr (.inl ⟨.inr ⟨hw.2, hold⟩, he⟩)
    · obtain ⟨e₀, he₀, hv⟩ := hb
      refine keeps_iff.mpr (.inr ⟨(u, b ++ [e']), ?_, ih hu _ ⟨e₀, by simp [he₀], hv⟩
        (by simp [he])⟩)
      exact ⟨hw.1, fun e'' he'' htarget' => hold ⟨e'', he'', htarget'⟩, e', he', htarget,
        by rw [hsource]⟩

theorem no_stray_loop_of_keeps (hne : start ≠ stop)
    (h : ∀ e, Keeps G start stop (stop, []) e → OnPassage G start stop e) :
    NoStrayLoop G start stop := by
  intro v hloop hto
  obtain ⟨b, hvisit, hnew⟩ := visits_of_to_stop hto hne
  obtain ⟨u, hsteps, ⟨e, he, rfl, rfl⟩, hu, hv⟩ := TransGen.tail'_iff.mp hloop
  have hup : Up G start (G.target e, b) (G.source e, b ++ [e]) := ⟨hv.1, hnew, e, he, rfl, rfl⟩
  obtain ⟨s, hrun, hends, hmem⟩ :=
    keeps_of_inner_steps hsteps hu (b ++ [e]) ⟨e, by simp, rfl⟩ (by simp : e ∈ b ++ [e])
  have hpassage := h e ⟨s, hvisit.trans (.head hup hrun), hends, hmem⟩
  exact .step he (on_passage_iff.mp hpassage).2.2.1 hv

theorem not_keeps_start : ¬ Keeps G start start (start, []) e := by
  intro h
  rcases keeps_iff.mp h with ⟨_, he⟩ | ⟨s', hup, _⟩
  · cases he
  · exact hup.1 rfl

theorem keeps_iff_on_passage :
    (∀ e, Keeps G start stop (stop, []) e ↔ OnPassage G start stop e) ↔
      (start ≠ stop → NoStrayLoop G start stop) := by
  refine ⟨fun h hne => no_stray_loop_of_keeps hne fun e => (h e).mp, fun h e => ?_⟩
  by_cases hne : start = stop
  · subst hne
    have hnone : ¬ OnPassage G start start e := fun hpass => (on_passage_iff.mp hpass).1 rfl
    simp [not_keeps_start, hnone]
  · exact ⟨on_passage_of_keeps hne (h hne), keeps_of_on_passage⟩

end N8n.Graph
