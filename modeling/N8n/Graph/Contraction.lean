import Mathlib.Data.List.Induction

/-!
# Contracting nodes

The edges of a multigraph, some of which may be joined: an edge into a node and an edge out of it
make one edge past the node. Contracting a node joins its edges in all ways and drops them.
`mem_contract_all_iff`: the edges left between other nodes stand for the walks over contracted
nodes, in whatever order these were contracted.
-/

namespace N8n.Graph

/-- Edges `ε` between nodes `ν`, with an operation that joins two of them. A joined edge begins
like the first and ends like the second. -/
structure Joining (ν ε : Type) where
  source : ε → ν
  target : ε → ν
  joins : ε → Bool
  join : ε → ε → ε
  source_join : ∀ a b, source (join a b) = source a
  target_join : ∀ a b, target (join a b) = target b
  joins_join : ∀ a b, joins (join a b) = joins a
  join_assoc : ∀ a b c, join (join a b) c = join a (join b c)
  join_between : ∀ a b c, join a (join b c) = join a c

namespace Joining

variable {ν ε : Type} (G : Joining ν ε)

/-- The edge stands for a walk over the nodes in `inner`, whose edges may be joined. -/
inductive Joined (edges : List ε) (inner : ν → Prop) : ε → Prop where
  | edge {e : ε} (h : e ∈ edges) (hjoins : G.joins e = true) : Joined edges inner e
  | join {a b : ε} (ha : Joined edges inner a) (hb : Joined edges inner b)
      (hlink : G.target a = G.source b) (hinner : inner (G.target a)) :
      Joined edges inner (G.join a b)

variable {G} {edges : List ε} {d : ν} {ds : List ν} {e : ε} {inner : ν → Prop}

theorem Joined.may_join (h : G.Joined edges inner e) : G.joins e = true := by
  induction h with
  | edge _ hjoins => exact hjoins
  | join _ _ _ _ iha _ => rw [G.joins_join, iha]

theorem Joined.mono {inner' : ν → Prop} (h : G.Joined edges inner e)
    (hle : ∀ v, inner v → inner' v) : G.Joined edges inner' e := by
  induction h with
  | edge he hjoins => exact .edge he hjoins
  | join _ _ hlink hinner iha ihb => exact .join iha ihb hlink (hle _ hinner)

/-- A walk that may pass `d` either does not, or it leads to `d` and later away from it without
passing it in between. -/
theorem Joined.split (h : G.Joined edges (fun v => inner v ∨ v = d) e) :
    G.Joined edges inner e ∨ ∃ a b, G.Joined edges inner a ∧ G.target a = d ∧
      G.Joined edges inner b ∧ G.source b = d ∧ e = G.join a b := by
  induction h with
  | edge he hjoins => exact .inl (.edge he hjoins)
  | @join a b _ _ hlink hinner iha ihb =>
    rcases hinner with hinner | hd
    · rcases iha with ha | ⟨a₁, a₂, ha₁, hto, ha₂, hfrom, rfl⟩
      · rcases ihb with hb | ⟨b₁, b₂, hb₁, hto, hb₂, hfrom, rfl⟩
        · exact .inl (.join ha hb hlink hinner)
        · rw [G.source_join] at hlink
          refine .inr ⟨G.join a b₁, b₂, .join ha hb₁ hlink hinner, ?_, hb₂, hfrom,
            (G.join_assoc a b₁ b₂).symm⟩
          rw [G.target_join, hto]
      · rw [G.target_join] at hlink hinner
        rcases ihb with hb | ⟨b₁, b₂, hb₁, hto', hb₂, hfrom', rfl⟩
        · refine .inr ⟨a₁, G.join a₂ b, ha₁, hto, .join ha₂ hb hlink hinner, ?_,
            G.join_assoc a₁ a₂ b⟩
          rw [G.source_join, hfrom]
        · refine .inr ⟨a₁, b₂, ha₁, hto, hb₂, hfrom', ?_⟩
          rw [G.join_assoc, G.join_between, G.join_between]
    · -- the walk passes `d` between the two, so the parts before and after `d` remain
      refine .inr ?_
      have hfirst : ∃ a', G.Joined edges inner a' ∧ G.target a' = d ∧
          ∀ c, G.join a c = G.join a' c := by
        rcases iha with ha | ⟨a₁, a₂, ha₁, hto, -, -, rfl⟩
        · exact ⟨a, ha, hd, fun _ => rfl⟩
        · exact ⟨a₁, ha₁, hto, fun c => by rw [G.join_assoc, G.join_between]⟩
      have hlast : ∃ b', G.Joined edges inner b' ∧ G.source b' = d ∧
          ∀ c, G.join c b = G.join c b' := by
        rcases ihb with hb | ⟨b₁, b₂, -, -, hb₂, hfrom, rfl⟩
        · exact ⟨b, hb, hlink.symm.trans hd, fun _ => rfl⟩
        · exact ⟨b₂, hb₂, hfrom, fun c => G.join_between c b₁ b₂⟩
      obtain ⟨a', ha', hto, haEq⟩ := hfirst
      obtain ⟨b', hb', hfrom, hbEq⟩ := hlast
      exact ⟨a', b', ha', hto, hb', hfrom, (haEq b).trans (hbEq a')⟩

variable [DecidableEq ν]

section

variable (G)

/-- Contract a node: its edges are dropped, and those that may be joined are. -/
def contract (edges : List ε) (d : ν) : List ε :=
  edges.filter (fun e => G.source e ≠ d ∧ G.target e ≠ d) ++
    (edges.filter fun e => G.target e = d ∧ G.joins e).flatMap fun a =>
      (edges.filter fun e => G.source e = d ∧ G.joins e).map (G.join a)

/-- Contract several nodes, one after the other. -/
def contractAll (edges : List ε) (ds : List ν) : List ε := ds.foldl G.contract edges

end

theorem mem_contract_iff :
    e ∈ G.contract edges d ↔ (e ∈ edges ∧ G.source e ≠ d ∧ G.target e ≠ d) ∨
      ∃ a ∈ edges, G.target a = d ∧ G.joins a = true ∧
        ∃ b ∈ edges, G.source b = d ∧ G.joins b = true ∧ e = G.join a b := by
  simp only [contract, List.mem_append, List.mem_filter, List.mem_flatMap, List.mem_map,
    decide_eq_true_eq]
  refine or_congr_right ⟨?_, ?_⟩
  · rintro ⟨a, ⟨ha, hto, hja⟩, b, ⟨hb, hfrom, hjb⟩, rfl⟩
    exact ⟨a, ha, hto, hja, b, hb, hfrom, hjb, rfl⟩
  · rintro ⟨a, ha, hto, hja, b, hb, hfrom, hjb, rfl⟩
    exact ⟨a, ⟨ha, hto, hja⟩, b, ⟨hb, hfrom, hjb⟩, rfl⟩

theorem contract_all_snoc :
    G.contractAll edges (ds ++ [d]) = G.contract (G.contractAll edges ds) d := by
  rw [contractAll, List.foldl_append]
  rfl

theorem joined_of_mem_contract_all (h : e ∈ G.contractAll edges ds) (hjoins : G.joins e = true) :
    G.Joined edges (· ∈ ds) e := by
  induction ds using List.reverseRecOn generalizing e with
  | nil => exact .edge h hjoins
  | append_singleton ds d ih =>
    rw [contract_all_snoc, mem_contract_iff] at h
    have hmono : ∀ {e}, G.Joined edges (· ∈ ds) e → G.Joined edges (· ∈ ds ++ [d]) e :=
      fun h => h.mono fun v hv => List.mem_append_left [d] hv
    rcases h with ⟨hold, -, -⟩ | ⟨a, ha, hto, hja, b, hb, hfrom, hjb, rfl⟩
    · exact hmono (ih hold hjoins)
    · exact .join (hmono (ih ha hja)) (hmono (ih hb hjb)) (hto.trans hfrom.symm) (by simp [hto])

theorem mem_contract_all_of_joined (hds : ds.Nodup) (h : G.Joined edges (· ∈ ds) e)
    (hsource : G.source e ∉ ds) (htarget : G.target e ∉ ds) : e ∈ G.contractAll edges ds := by
  induction ds using List.reverseRecOn generalizing e with
  | nil =>
    cases h with
    | edge he _ => exact he
    | join _ _ _ hinner => cases hinner
  | append_singleton ds d ih =>
    obtain ⟨hnodup, -, hd⟩ := List.nodup_append.mp hds
    have hnew : d ∉ ds := fun hmem => hd d hmem d (by simp) rfl
    rw [List.mem_append, List.mem_singleton, not_or] at hsource htarget
    rw [contract_all_snoc, mem_contract_iff]
    have hsplit : G.Joined edges (fun v => v ∈ ds ∨ v = d) e :=
      h.mono fun v hv => by simpa using hv
    rcases hsplit.split with h | ⟨a, b, ha, hto, hb, hfrom, rfl⟩
    · exact .inl ⟨ih hnodup h hsource.1 htarget.1, hsource.2, htarget.2⟩
    · rw [G.source_join] at hsource
      rw [G.target_join] at htarget
      exact .inr ⟨a, ih hnodup ha hsource.1 (hto ▸ hnew), hto, ha.may_join, b,
        ih hnodup hb (hfrom ▸ hnew) htarget.1, hfrom, hb.may_join, rfl⟩

/-- Between nodes that are not contracted, the edges left that may be joined are those of the walks
over contracted nodes. -/
theorem mem_contract_all_iff (hds : ds.Nodup) (hsource : G.source e ∉ ds)
    (htarget : G.target e ∉ ds) (hjoins : G.joins e = true) :
    e ∈ G.contractAll edges ds ↔ G.Joined edges (· ∈ ds) e :=
  ⟨fun h => joined_of_mem_contract_all h hjoins,
    fun h => mem_contract_all_of_joined hds h hsource htarget⟩

theorem mem_contract_all_iff_of_not_joins (hjoins : G.joins e = false) :
    e ∈ G.contractAll edges ds ↔ e ∈ edges ∧ G.source e ∉ ds ∧ G.target e ∉ ds := by
  induction ds using List.reverseRecOn with
  | nil => simp [contractAll]
  | append_singleton ds d ih =>
    rw [contract_all_snoc, mem_contract_iff, ih]
    have hnot : ¬ ∃ a ∈ G.contractAll edges ds, G.target a = d ∧ G.joins a = true ∧
        ∃ b ∈ G.contractAll edges ds, G.source b = d ∧ G.joins b = true ∧ e = G.join a b := by
      rintro ⟨a, -, -, hja, b, -, -, -, rfl⟩
      rw [G.joins_join, hja] at hjoins
      cases hjoins
    simp only [hnot, or_false, List.mem_append, List.mem_singleton, not_or]
    constructor
    · rintro ⟨⟨he, hs, ht⟩, hs', ht'⟩
      exact ⟨he, ⟨hs, hs'⟩, ht, ht'⟩
    · rintro ⟨he, ⟨hs, hs'⟩, ht, ht'⟩
      exact ⟨⟨he, hs, ht⟩, hs', ht'⟩

end Joining

end N8n.Graph
