import Mathlib.Data.List.Nodup
import Mathlib.Data.Set.Insert
import Mathlib.Order.RelIso.Basic

/-!
# Searching with shared visits

A depth-first search of a graph without cycles, along lists of successors. It does not enter an
inner node again that it has been through, so that what the search from a node finds depends on
the nodes that it has been through when it enters the node. These are the inner nodes below the
earlier successors on the way (`Enters`, `Calls`). `entered_iff` says what the search comes to from
there, and `last_iff_topmost` when the nodes after which it finds nothing are the topmost ones.
-/

namespace N8n.Graph

open Relation

variable {ν : Type} (next : ν → List ν) (Inner : ν → Prop)

/-- One step of the search. -/
def Leads (a b : ν) : Prop := b ∈ next a

/-- One step that avoids some nodes. -/
def LeadsOutside (S : Set ν) (a b : ν) : Prop := b ∈ next a ∧ b ∉ S

/-- The inner nodes that can be reached from the nodes of a list. -/
def Below (l : List ν) : Set ν := {u | Inner u ∧ ∃ p ∈ l, ReflTransGen (Leads next) p u}

/-- The loop over `l` enters a node, after the search has been through `S`: the pair is the node
with the inner nodes that the search has been through by then. -/
def Enters (l : List ν) (S : Set ν) (c : ν × Set ν) : Prop :=
  ∃ pre post, l = pre ++ c.1 :: post ∧ c.2 = S ∪ Below next Inner pre ∧ c.1 ∉ c.2

/-- The search from a node enters one of its successors. -/
def Calls (c c' : ν × Set ν) : Prop := Enters next Inner (next c.1) (insert c.1 c.2) c'

/-- The search along `l` comes to a node with the inner nodes that it has been through. -/
def Entered (l : List ν) (S : Set ν) (c : ν × Set ν) : Prop :=
  ∃ first, Enters next Inner l S first ∧ ReflTransGen (Calls next Inner) first c

/-- What was visited of the nodes that can be reached from `l` was visited with all below it. -/
def ClosedBelow (S : Set ν) (l : List ν) : Prop :=
  ∀ u ∈ S, (∃ x ∈ l, ReflTransGen (Leads next) x u) →
    ∀ w, ReflTransGen (Leads next) u w → Inner w → w ∈ S

variable {next Inner} {S : Set ν} {l : List ν} {x : ν} {c : ν × Set ν}

/-! ## The loop over successors -/

theorem below_nil : Below next Inner [] = ∅ := by
  ext u
  simp [Below]

theorem below_cons (x : ν) (l : List ν) :
    Below next Inner (x :: l) = Below next Inner [x] ∪ Below next Inner l := by
  ext u
  constructor
  · rintro ⟨hu, p, hp, hwalk⟩
    rcases List.mem_cons.mp hp with rfl | hp
    · exact .inl ⟨hu, p, by simp, hwalk⟩
    · exact .inr ⟨hu, p, hp, hwalk⟩
  · rintro (⟨hu, p, hp, hwalk⟩ | ⟨hu, p, hp, hwalk⟩)
    · exact ⟨hu, p, List.mem_cons.mpr (.inl (List.mem_singleton.mp hp)), hwalk⟩
    · exact ⟨hu, p, List.mem_cons_of_mem x hp, hwalk⟩

theorem enters_cons_iff :
    Enters next Inner (x :: l) S c ↔
      c = (x, S) ∧ x ∉ S ∨ Enters next Inner l (S ∪ Below next Inner [x]) c := by
  obtain ⟨y, T⟩ := c
  constructor
  · rintro ⟨pre, post, hl, hT, hout⟩
    cases pre with
    | nil =>
      obtain ⟨rfl, rfl⟩ := List.cons.inj hl
      rw [below_nil, Set.union_empty] at hT
      cases hT
      exact .inl ⟨rfl, hout⟩
    | cons x' pre =>
      obtain ⟨rfl, hrest⟩ := List.cons.inj hl
      rw [below_cons, ← Set.union_assoc] at hT
      exact .inr ⟨pre, post, hrest, hT, hout⟩
  · rintro (⟨heq, hout⟩ | ⟨pre, post, hl, hT, hout⟩)
    · cases heq
      exact ⟨[], l, rfl, by simp [below_nil], hout⟩
    · refine ⟨x :: pre, post, by rw [hl]; rfl, ?_, hout⟩
      rw [below_cons, ← Set.union_assoc, hT]

theorem below_subset (h : ClosedBelow next Inner S (x :: l)) (hx : x ∈ S) :
    Below next Inner [x] ⊆ S := by
  rintro w ⟨hw, p, hp, hwalk⟩
  rw [List.mem_singleton] at hp
  subst hp
  exact h p hx ⟨p, by simp, .refl⟩ w hwalk hw

theorem closed_tail (h : ClosedBelow next Inner S (x :: l)) :
    ClosedBelow next Inner (S ∪ Below next Inner [x]) l := by
  rintro u (hu | ⟨_, p, hp, hpu⟩) ⟨x', hx', hwalk⟩ w huw hw
  · exact .inl (h u hu ⟨x', by simp [hx'], hwalk⟩ w huw hw)
  · exact .inr ⟨hw, p, hp, hpu.trans huw⟩

theorem closed_entered (h : ClosedBelow next Inner S l) (henters : Enters next Inner l S c) :
    ClosedBelow next Inner c.2 [c.1] := by
  obtain ⟨pre, post, hl, hT, -⟩ := henters
  rw [hT]
  rintro u (hu | ⟨_, p, hp, hpu⟩) ⟨x', hx', hwalk⟩ w huw hw
  · rw [List.mem_singleton] at hx'
    exact .inl (h u hu ⟨c.1, by simp [hl], hx' ▸ hwalk⟩ w huw hw)
  · exact .inr ⟨hw, p, hp, hpu.trans huw⟩

/-! ## Graphs without cycles -/

/-- Walks end when they do not come back to a node and finitely many nodes have successors. -/
theorem wellFounded_of_acyclic {keys : List ν} (hkeys : ∀ v, next v ≠ [] → v ∈ keys)
    (hacyclic : ∀ v, ¬ TransGen (Leads next) v v) :
    WellFounded fun b a : ν => Leads next a b := by
  have hgen : ∀ (n : Nat) (passed : List ν) (v : ν), passed.Nodup → passed ⊆ keys →
      (∀ p ∈ passed, TransGen (Leads next) p v) → keys.length < n + passed.length →
      Acc (fun b a : ν => Leads next a b) v := by
    intro n
    induction n with
    | zero =>
      intro passed v hnodup hsub _ hn
      have hle := hnodup.length_le_of_subset hsub
      omega
    | succ n ih =>
      intro passed v hnodup hsub hpassed hn
      refine ⟨v, fun x hx => ih (v :: passed) x ?_ ?_ ?_ ?_⟩
      · exact List.nodup_cons.mpr ⟨fun hv => hacyclic v (hpassed v hv), hnodup⟩
      · exact List.cons_subset.mpr ⟨hkeys v (List.ne_nil_of_mem hx), hsub⟩
      · intro p hp
        rcases List.mem_cons.mp hp with rfl | hp
        · exact .single hx
        · exact (hpassed p hp).tail hx
      · rw [List.length_cons]
        omega
  exact ⟨fun v => hgen (keys.length + 1) [] v List.nodup_nil (List.nil_subset _) (by simp)
    (by simp)⟩

variable {v z : ν}

theorem not_leads_back (hwf : WellFounded fun b a : ν => Leads next a b) (hx : Leads next v x) :
    ¬ ReflTransGen (Leads next) x v := by
  intro hwalk
  have hcycle : TransGen (Leads next) v v := .head' hx hwalk
  have hswap : TransGen (fun b a => Leads next a b) v v := transGen_swap.mpr hcycle
  exact hwf.transGen.asymmetric _ _ hswap hswap

theorem below_inner (hv : Inner v) :
    Below next Inner [v] = insert v (Below next Inner (next v)) := by
  ext u
  constructor
  · rintro ⟨hu, p, hp, hwalk⟩
    rw [List.mem_singleton] at hp
    subst hp
    rcases hwalk.cases_head with rfl | ⟨x, hx, hrest⟩
    · exact .inl rfl
    · exact .inr ⟨hu, x, hx, hrest⟩
  · rintro (rfl | ⟨hu, x, hx, hrest⟩)
    · exact ⟨hv, u, by simp, .refl⟩
    · exact ⟨hu, v, by simp, .head hx hrest⟩

theorem below_leaf (hv : ¬ Inner v) (hnext : next v = []) : Below next Inner [v] = ∅ := by
  refine Set.eq_empty_of_forall_notMem ?_
  rintro u ⟨hu, p, hp, hwalk⟩
  rw [List.mem_singleton] at hp
  subst hp
  rcases hwalk.cases_head with rfl | ⟨x, hx, -⟩
  · exact hv hu
  · rw [Leads, hnext] at hx
    cases hx

theorem closed_next (hwf : WellFounded fun b a : ν => Leads next a b)
    (h : ClosedBelow next Inner S [v]) : ClosedBelow next Inner (insert v S) (next v) := by
  rintro u (rfl | hu) ⟨x, hx, hwalk⟩ w huw hw
  · exact absurd hwalk (not_leads_back hwf hx)
  · exact .inr (h u hu ⟨v, by simp, .head hx hwalk⟩ w huw hw)

theorem closed_calls (hwf : WellFounded fun b a : ν => Leads next a b) {c' : ν × Set ν}
    (h : ClosedBelow next Inner c.2 [c.1]) (hcalls : Calls next Inner c c') :
    ClosedBelow next Inner c'.2 [c'.1] :=
  closed_entered (closed_next hwf h) hcalls

/-! ## What the search comes to -/

theorem enters_grows (h : Enters next Inner l S c) : S ⊆ c.2 ∧ c.1 ∉ c.2 := by
  obtain ⟨pre, post, -, hT, hout⟩ := h
  exact ⟨hT ▸ Set.subset_union_left, hout⟩

theorem calls_outside {c' : ν × Set ν} (h : Calls next Inner c c') :
    c.2 ⊆ c'.2 ∧ LeadsOutside next c.2 c.1 c'.1 := by
  have hgrows := enters_grows h
  have hsub : c.2 ⊆ c'.2 := (Set.subset_insert _ _).trans hgrows.1
  obtain ⟨pre, post, hnext, -, -⟩ := h
  exact ⟨hsub, by rw [hnext]; simp, fun hmem => hgrows.2 (hsub hmem)⟩

theorem outside_of_calls {c' : ν × Set ν} (h : ReflTransGen (Calls next Inner) c c') :
    c.2 ⊆ c'.2 ∧ ReflTransGen (LeadsOutside next c.2) c.1 c'.1 := by
  induction h with
  | refl => exact ⟨subset_rfl, .refl⟩
  | tail _ hcall ih =>
    obtain ⟨hsub, hstep⟩ := calls_outside hcall
    exact ⟨ih.1.trans hsub, ih.2.tail ⟨hstep.1, fun hmem => hstep.2 (ih.1 hmem)⟩⟩

theorem leads_of_outside {a b : ν} (h : ReflTransGen (LeadsOutside next S) a b) :
    ReflTransGen (Leads next) a b :=
  h.lift id fun _ _ hstep => hstep.1

theorem outside_of_leads (hclosed : ClosedBelow next Inner S [x]) {u : ν} (hu : Inner u)
    (hout : u ∉ S) (h : ReflTransGen (Leads next) x u) :
    ReflTransGen (LeadsOutside next S) x u := by
  have hgen : ∀ t, ReflTransGen (Leads next) x t → ReflTransGen (Leads next) t u →
      ReflTransGen (LeadsOutside next S) x t := by
    intro t hxt
    induction hxt with
    | refl => exact fun _ => .refl
    | @tail a b hxa hab ih =>
      intro hbu
      refine (ih (.head hab hbu)).tail ⟨hab, fun hb => hout ?_⟩
      exact hclosed b hb ⟨x, by simp, hxa.tail hab⟩ u hbu hu
  exact hgen u h .refl

theorem walk_changes {r r' : ν → ν → Prop} {a b : ν} (h : ReflTransGen r a b)
    (hstep : ∀ t d, ReflTransGen r a t → r t d → ReflTransGen r d b → r' t d) :
    ReflTransGen r' a b := by
  induction h using ReflTransGen.head_induction_on with
  | refl => exact .refl
  | head hac hcb ih =>
    refine .head (hstep _ _ .refl hac hcb) (ih fun t d hct htd hdb => ?_)
    exact hstep t d (.head hac hct) htd hdb

/-- Where each node of a list comes to what it can reach, the loop over the list does. -/
theorem entered_of_outside (hclosed : ClosedBelow next Inner S l) {z : ν}
    (hfrom : ∀ x ∈ l, ∀ T, ClosedBelow next Inner T [x] → ReflTransGen (LeadsOutside next T) x z →
      ∃ U, ReflTransGen (Calls next Inner) (x, T) (z, U))
    (h : ∃ x ∈ l, x ∉ S ∧ ReflTransGen (LeadsOutside next S) x z) :
    ∃ U, Entered next Inner l S (z, U) := by
  induction l generalizing S with
  | nil => simp at h
  | cons x l ih =>
    by_cases hx : x ∉ S ∧ ReflTransGen (LeadsOutside next S) x z
    · -- the first node from which there is such a walk
      have henters : Enters next Inner (x :: l) S (x, S) := enters_cons_iff.mpr (.inl ⟨rfl, hx.1⟩)
      obtain ⟨U, hU⟩ := hfrom x (by simp) S (closed_entered hclosed henters) hx.2
      exact ⟨U, (x, S), henters, hU⟩
    · obtain ⟨x', hx', hout, hwalk⟩ := h
      have hmem : x' ∈ l := by
        rcases List.mem_cons.mp hx' with rfl | hmem
        · exact absurd ⟨hout, hwalk⟩ hx
        · exact hmem
      -- what is below `x` is on no such walk
      have havoid : ∀ t, t ∉ S → ReflTransGen (LeadsOutside next S) t z →
          t ∉ Below next Inner [x] := by
        rintro t ht htz ⟨hinner, p, hp, hpt⟩
        rw [List.mem_singleton] at hp
        subst hp
        have hp : p ∉ S := fun hp => ht (hclosed p hp ⟨p, by simp, .refl⟩ t hpt hinner)
        have hclosedp : ClosedBelow next Inner S [p] := fun u hu ⟨y, hy, hyu⟩ =>
          hclosed u hu ⟨y, by simp [List.mem_singleton.mp hy], hyu⟩
        exact hx ⟨hp, (outside_of_leads hclosedp hinner ht hpt).trans htz⟩
      have hwalk' : ReflTransGen (LeadsOutside next (S ∪ Below next Inner [x])) x' z :=
        walk_changes hwalk fun t d _ htd hdz =>
          ⟨htd.1, fun hd => hd.elim htd.2 (havoid d htd.2 hdz)⟩
      obtain ⟨U, first, henters, hU⟩ := ih (closed_tail hclosed)
        (fun y hy => hfrom y (by simp [hy]))
        ⟨x', hmem, fun hd => hd.elim hout (havoid x' hout hwalk), hwalk'⟩
      exact ⟨U, first, enters_cons_iff.mpr (.inr henters), hU⟩

theorem calls_of_outside (hwf : WellFounded fun b a : ν => Leads next a b) (x : ν) :
    ∀ T, ClosedBelow next Inner T [x] → ReflTransGen (LeadsOutside next T) x z →
      ∃ U, ReflTransGen (Calls next Inner) (x, T) (z, U) := by
  induction x using hwf.induction with
  | _ x ih =>
    intro T hclosed hwalk
    rcases hwalk.cases_head with rfl | ⟨x', hstep, hrest⟩
    · exact ⟨T, .refl⟩
    · -- the walk does not come back to `x`
      have hne : ∀ d, ReflTransGen (LeadsOutside next T) x' d → d ≠ x := fun d hd heq =>
        not_leads_back hwf hstep.1 (heq ▸ leads_of_outside hd)
      have hrest' : ReflTransGen (LeadsOutside next (insert x T)) x' z :=
        walk_changes hrest fun t d hxt htd _ =>
          ⟨htd.1, fun hd => hd.elim (hne d (hxt.tail htd)) htd.2⟩
      obtain ⟨U, first, henters, hU⟩ := entered_of_outside (closed_next hwf hclosed)
        (fun y hy => ih y hy) ⟨x', hstep.1, fun hd => hd.elim (hne x' .refl) hstep.2, hrest'⟩
      exact ⟨U, .head henters hU⟩

theorem entered_iff (hwf : WellFounded fun b a : ν => Leads next a b)
    (hclosed : ClosedBelow next Inner S l) :
    (∃ U, Entered next Inner l S (z, U)) ↔
      ∃ x ∈ l, x ∉ S ∧ ReflTransGen (LeadsOutside next S) x z := by
  refine ⟨fun ⟨U, first, henters, hcalls⟩ => ?_, fun h => ?_⟩
  · obtain ⟨hsub, hout⟩ := enters_grows henters
    have hwalk := (outside_of_calls hcalls).2
    obtain ⟨pre, post, hl, -, -⟩ := henters
    refine ⟨first.1, by simp [hl], fun hS => hout (hsub hS), ?_⟩
    exact hwalk.lift id fun a b hab => ⟨hab.1, fun hb => hab.2 (hsub hb)⟩
  · exact entered_of_outside hclosed (fun x _ => calls_of_outside hwf x) h

theorem calls_iff (hwf : WellFounded fun b a : ν => Leads next a b)
    (hclosed : ClosedBelow next Inner c.2 [c.1]) :
    (∃ U, TransGen (Calls next Inner) c (z, U)) ↔ TransGen (LeadsOutside next c.2) c.1 z := by
  constructor
  · rintro ⟨U, h⟩
    obtain ⟨c', hcall, hrest⟩ := TransGen.head'_iff.mp h
    obtain ⟨hsub, hstep⟩ := calls_outside hcall
    refine .head' hstep ((outside_of_calls hrest).2.lift id fun a b hab => ?_)
    exact ⟨hab.1, fun hb => hab.2 (hsub hb)⟩
  · intro h
    obtain ⟨x, hstep, hrest⟩ := TransGen.head'_iff.mp h
    obtain ⟨U, hU⟩ := calls_of_outside hwf c.1 c.2 hclosed h.to_reflTransGen
    have hne : c ≠ (z, U) := by
      rintro rfl
      exact not_leads_back hwf hstep.1 (leads_of_outside hrest)
    exact ⟨U, (reflTransGen_iff_eq_or_transGen.mp hU).resolve_left fun heq => hne heq.symm⟩

/-! ## The last enabled nodes -/

section Last

variable (next Inner) (Enabled : ν → Prop)

/-- The search comes to no enabled node after it has entered this one. -/
def Last (c : ν × Set ν) : Prop :=
  ∀ c', TransGen (Calls next Inner) c c' → ¬ Enabled c'.1

/-- The node is the last enabled one that the search along `l` comes to on its way. -/
def LastOf (l : List ν) (S : Set ν) (y : ν) : Prop :=
  ∃ U, Entered next Inner l S (y, U) ∧ Enabled y ∧ Last next Inner Enabled (y, U)

/-- The same for the search from a node that it has entered, itself included. -/
def LastFrom (c : ν × Set ν) (y : ν) : Prop :=
  ∃ U, ReflTransGen (Calls next Inner) c (y, U) ∧ Enabled y ∧ Last next Inner Enabled (y, U)

/-- The node is enabled and can be reached from the list, and no enabled node from it. -/
def Topmost (l : List ν) (y : ν) : Prop :=
  (∃ x ∈ l, ReflTransGen (Leads next) x y) ∧ Enabled y ∧
    ∀ z, TransGen (Leads next) y z → ¬ Enabled z

/-- Wherever the search enters an enabled node from which an enabled node can be reached, one can
be reached outside of what the search has been through by then. -/
def NoneCutOff (l : List ν) (S : Set ν) : Prop :=
  ∀ c, Entered next Inner l S c → Enabled c.1 → (∃ z, TransGen (Leads next) c.1 z ∧ Enabled z) →
    ∃ z, TransGen (LeadsOutside next c.2) c.1 z ∧ Enabled z

variable {next Inner Enabled} {y : ν}

theorem lastOf_nil : ¬ LastOf next Inner Enabled [] S y := by
  rintro ⟨U, ⟨first, ⟨pre, post, hl, -⟩, -⟩, -⟩
  simp at hl

/-- The loop finds what the search from its first node finds, and what it finds afterwards. -/
theorem lastOf_cons_iff :
    LastOf next Inner Enabled (x :: l) S y ↔ x ∉ S ∧ LastFrom next Inner Enabled (x, S) y ∨
      LastOf next Inner Enabled l (S ∪ Below next Inner [x]) y := by
  constructor
  · rintro ⟨U, ⟨first, henters, hcalls⟩, hlast⟩
    rcases enters_cons_iff.mp henters with ⟨rfl, hx⟩ | henters
    · exact .inl ⟨hx, U, hcalls, hlast⟩
    · exact .inr ⟨U, ⟨first, henters, hcalls⟩, hlast⟩
  · rintro (⟨hx, U, hcalls, hlast⟩ | ⟨U, ⟨first, henters, hcalls⟩, hlast⟩)
    · exact ⟨U, ⟨(x, S), enters_cons_iff.mpr (.inl ⟨rfl, hx⟩), hcalls⟩, hlast⟩
    · exact ⟨U, ⟨first, enters_cons_iff.mpr (.inr henters), hcalls⟩, hlast⟩

theorem exists_last (hwf : WellFounded fun b a : ν => Leads next a b) {c' : ν × Set ν}
    (h : TransGen (Calls next Inner) c c') (henabled : Enabled c'.1) :
    ∃ y, LastOf next Inner Enabled (next c.1) (insert c.1 c.2) y := by
  have hcalls : WellFounded fun c' c : ν × Set ν => Calls next Inner c c' :=
    Subrelation.wf (fun hcall => (calls_outside hcall).2.1) (InvImage.wf Prod.fst hwf)
  induction c' using hcalls.transGen.induction with
  | _ c' ih =>
    by_cases hlast : Last next Inner Enabled c'
    · obtain ⟨first, hfirst, hrest⟩ := TransGen.head'_iff.mp h
      exact ⟨c'.1, c'.2, ⟨first, hfirst, hrest⟩, henabled, hlast⟩
    · simp only [Last, not_forall, not_not] at hlast
      obtain ⟨c'', hmore, henabled''⟩ := hlast
      exact ih c'' (transGen_swap.mpr hmore) (h.trans hmore) henabled''

/-- The search from a node finds the node itself when it is enabled and nothing is found after
it. -/
theorem lastFrom_iff (hwf : WellFounded fun b a : ν => Leads next a b) :
    LastFrom next Inner Enabled c y ↔
      LastOf next Inner Enabled (next c.1) (insert c.1 c.2) y ∨
        y = c.1 ∧ Enabled y ∧ ∀ z, ¬ LastOf next Inner Enabled (next c.1) (insert c.1 c.2) z := by
  constructor
  · rintro ⟨U, hcalls, henabled, hlast⟩
    rcases hcalls.cases_head with heq | ⟨first, hfirst, hrest⟩
    · subst heq
      refine .inr ⟨rfl, henabled, fun z ⟨U', ⟨first, hfirst, hrest⟩, hz, _⟩ => ?_⟩
      exact hlast (z, U') (.head' hfirst hrest) hz
    · exact .inl ⟨U, ⟨first, hfirst, hrest⟩, henabled, hlast⟩
  · rintro (⟨U, ⟨first, hfirst, hrest⟩, hlast⟩ | ⟨rfl, henabled, hnone⟩)
    · exact ⟨U, .head hfirst hrest, hlast⟩
    · refine ⟨c.2, .refl, henabled, fun c' hcalls hc' => ?_⟩
      obtain ⟨z, hz⟩ := exists_last hwf hcalls hc'
      exact hnone z hz

/-! ## The topmost enabled nodes -/

/-- Nothing that can be reached from the list was visited. -/
def Fresh (next : ν → List ν) (l : List ν) (S : Set ν) : Prop :=
  ∀ x ∈ l, ∀ u, ReflTransGen (Leads next) x u → u ∉ S

theorem Fresh.closed (h : Fresh next l S) : ClosedBelow next Inner S l :=
  fun u hu ⟨x, hx, hwalk⟩ => absurd hu (h x hx u hwalk)

theorem Fresh.entered_iff (hwf : WellFounded fun b a : ν => Leads next a b)
    (h : Fresh next l S) {z : ν} :
    (∃ U, Entered next Inner l S (z, U)) ↔ ∃ x ∈ l, ReflTransGen (Leads next) x z := by
  rw [Graph.entered_iff hwf h.closed]
  refine exists_congr fun x => and_congr_right fun hx => ⟨fun ⟨_, hwalk⟩ => ?_, fun hwalk => ?_⟩
  · exact leads_of_outside hwalk
  · exact ⟨h x hx x .refl,
      walk_changes hwalk fun t d hxt htd _ => ⟨htd, h x hx d (hxt.tail htd)⟩⟩

theorem closed_of_entered (hwf : WellFounded fun b a : ν => Leads next a b)
    (hclosed : ClosedBelow next Inner S l) (h : Entered next Inner l S c) :
    ClosedBelow next Inner c.2 [c.1] := by
  obtain ⟨first, henters, hcalls⟩ := h
  induction hcalls with
  | refl => exact closed_entered hclosed henters
  | tail _ hcall ih => exact closed_calls hwf ih hcall

theorem Fresh.enabled (hwf : WellFounded fun b a : ν => Leads next a b) (h : Fresh next l S)
    (hy : LastOf next Inner Enabled l S y) :
    (∃ x ∈ l, ReflTransGen (Leads next) x y) ∧ Enabled y := by
  obtain ⟨U, hentered, henabled, -⟩ := hy
  exact ⟨(h.entered_iff hwf).mp ⟨U, hentered⟩, henabled⟩

theorem Fresh.lastOf_topmost (hwf : WellFounded fun b a : ν => Leads next a b)
    (h : Fresh next l S) (hy : Topmost next Enabled l y) : LastOf next Inner Enabled l S y := by
  obtain ⟨hreached, henabled, htop⟩ := hy
  obtain ⟨U, hU⟩ := (h.entered_iff hwf).mpr hreached
  refine ⟨U, hU, henabled, fun c' hcalls => htop c'.1 ?_⟩
  exact hcalls.lift Prod.fst fun _ _ hcall => (calls_outside hcall).2.1

theorem exists_topmost (hwf : WellFounded fun b a : ν => Leads next a b)
    (hreached : ∃ x ∈ l, ReflTransGen (Leads next) x y) (henabled : Enabled y) :
    ∃ z, Topmost next Enabled l z := by
  induction y using hwf.transGen.induction with
  | _ y ih =>
    by_cases htop : ∀ z, TransGen (Leads next) y z → ¬ Enabled z
    · exact ⟨y, hreached, henabled, htop⟩
    · push Not at htop
      obtain ⟨z, hyz, hz⟩ := htop
      obtain ⟨x, hx, hxy⟩ := hreached
      exact ih z (transGen_swap.mpr hyz) ⟨x, hx, hxy.trans hyz.to_reflTransGen⟩ hz

theorem last_iff_topmost (hwf : WellFounded fun b a : ν => Leads next a b) (h : Fresh next l S) :
    (∀ y, LastOf next Inner Enabled l S y ↔ Topmost next Enabled l y) ↔
      NoneCutOff next Inner Enabled l S := by
  constructor
  · rintro hall ⟨y, U⟩ hentered henabled ⟨z, hyz, hz⟩
    by_contra hnone
    have hclosed := closed_of_entered hwf h.closed hentered
    have hlast : LastOf next Inner Enabled l S y := by
      refine ⟨U, hentered, henabled, fun c' hcalls hc' => hnone ⟨c'.1, ?_, hc'⟩⟩
      exact (calls_iff hwf hclosed).mp ⟨c'.2, hcalls⟩
    exact ((hall y).mp hlast).2.2 z hyz hz
  · intro hnone y
    refine ⟨fun hlast => ?_, h.lastOf_topmost hwf⟩
    obtain ⟨hreached, henabled⟩ := h.enabled hwf hlast
    obtain ⟨U, hentered, -, hlast⟩ := hlast
    refine ⟨hreached, henabled, fun z hyz hz => ?_⟩
    obtain ⟨w, hyw, hw⟩ := hnone (y, U) hentered henabled ⟨z, hyz, hz⟩
    obtain ⟨U', hU'⟩ := (calls_iff hwf (closed_of_entered hwf h.closed hentered)).mpr hyw
    exact hlast (w, U') hU' hw

end Last

end N8n.Graph
