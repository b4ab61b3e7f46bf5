import Mathlib.Data.List.Pairwise
import N8n.Collections.KeyedList
import N8n.PartialExecution.GraphInvariant
import N8n.PartialExecution.SourceDataGroups

/-!
# The shape of the groups

What `getSourceDataGroups` makes of the connections into a node: each connection is in exactly one
group, the connections of a group lead to consecutive inputs, and those of a complete group all
have data. The loop that forms the groups ends within its bound.
-/

namespace N8n.PartialExecution

open Collections Execution

variable {ι : Type}

/-- The connections lead to consecutive inputs, the first one to the input `first`. -/
def Consecutive (first : Nat) (connections : List GraphConnection) : Prop :=
  connections.map (·.inputIndex) = List.range' first connections.length

theorem Consecutive.input_index {first p : Nat} {connections : List GraphConnection}
    {c : GraphConnection} (h : Consecutive first connections) (hc : connections[p]? = some c) :
    c.inputIndex = first + p := by
  have hlt : p < connections.length := (List.getElem?_eq_some_iff.mp hc).1
  have hmap : (connections.map (·.inputIndex))[p]? = some c.inputIndex := by
    rw [List.getElem?_map, hc, Option.map_some]
  rw [h, List.getElem?_range' hlt] at hmap
  have := Option.some.inj hmap
  omega

theorem Consecutive.snoc {first : Nat} {connections : List GraphConnection} {c : GraphConnection}
    (h : Consecutive first connections) (hc : c.inputIndex = first + connections.length) :
    Consecutive first (connections ++ [c]) := by
  rw [Consecutive, List.map_append, h, List.length_append, List.length_singleton,
    List.range'_concat, List.map_singleton, hc, Nat.one_mul]

namespace Grouping

/-- The groups formed so far, with the current one. -/
def formed (g : Grouping) : List SourceConnectionGroup := g.groups ++ [g.currentGroup]

/-- The invariant of the loop that forms groups of the connections `all`. -/
structure Inv (all : List GraphConnection) (hasData : GraphConnection → Bool) (g : Grouping) :
    Prop where
  perm : (g.formed.flatMap (·.connections) ++ (g.withData ++ g.withoutData)).Perm all
  consecutive : ∀ group ∈ g.groups, ∃ first, Consecutive first group.connections
  current : ∃ first, Consecutive first g.currentGroup.connections ∧
    first + g.currentGroup.connections.length = g.nextInputIndex
  complete : ∀ group ∈ g.formed, group.complete = true → ∀ c ∈ group.connections, hasData c = true
  withData : ∀ c ∈ g.withData, hasData c = true
  start : g.currentGroup.connections = [] →
    g.nextInputIndex = minInputIndex g.withData g.withoutData

variable {all : List GraphConnection} {hasData : GraphConnection → Bool} {g : Grouping}

theorem Inv.take {c : GraphConnection} {complete : Bool}
    {withData withoutData : List GraphConnection}
    (hg : Inv all hasData g) (hinput : c.inputIndex = g.nextInputIndex)
    (hperm : (c :: (withData ++ withoutData)).Perm (g.withData ++ g.withoutData))
    (hcomplete : complete = true → g.currentGroup.complete = true ∧ hasData c = true)
    (hwithData : ∀ c ∈ withData, hasData c = true) :
    Inv all hasData
      { g with
        currentGroup := ⟨complete, g.currentGroup.connections ++ [c]⟩
        withData := withData
        withoutData := withoutData
        nextInputIndex := g.nextInputIndex + 1 } where
  perm := by
    refine List.Perm.trans ?_ hg.perm
    simp only [formed, List.flatMap_append, List.flatMap_cons, List.flatMap_nil, List.append_nil,
      List.append_assoc, List.singleton_append]
    exact (hperm.append_left _).append_left _
  consecutive := hg.consecutive
  current := by
    obtain ⟨first, hconsecutive, hnext⟩ := hg.current
    refine ⟨first, hconsecutive.snoc (hinput.trans hnext.symm), ?_⟩
    show first + (g.currentGroup.connections ++ [c]).length = g.nextInputIndex + 1
    rw [List.length_append, List.length_singleton]
    omega
  complete group hgroup hpos c' hc' := by
    rcases List.mem_append.mp hgroup with hold | hcurrent
    · exact hg.complete group (List.mem_append_left _ hold) hpos c' hc'
    · cases List.mem_singleton.mp hcurrent
      obtain ⟨hold, hc⟩ := hcomplete hpos
      rcases List.mem_append.mp hc' with hmem | hnew
      · exact hg.complete g.currentGroup (List.mem_append_right _ (List.mem_singleton_self _)) hold
          c' hmem
      · rwa [List.mem_singleton.mp hnew]
  withData := hwithData
  start hnil := absurd hnil (List.append_ne_nil_of_right_ne_nil _ (List.cons_ne_nil _ _))

theorem Inv.endGroup (hg : Inv all hasData g) :
    Inv all hasData
      { g with
        groups := g.groups ++ [g.currentGroup]
        currentGroup := newGroup
        nextInputIndex := minInputIndex g.withData g.withoutData } where
  perm := by
    refine List.Perm.trans (List.Perm.of_eq ?_) hg.perm
    simp [formed, newGroup]
  consecutive group hgroup := by
    rcases List.mem_append.mp hgroup with hold | hcurrent
    · exact hg.consecutive group hold
    · rw [List.mem_singleton.mp hcurrent]
      exact ⟨_, hg.current.choose_spec.1⟩
  current := ⟨minInputIndex g.withData g.withoutData, rfl, rfl⟩
  complete group hgroup hpos c hc := by
    rcases List.mem_append.mp hgroup with hold | hnew
    · exact hg.complete group hold hpos c hc
    · rw [List.mem_singleton.mp hnew] at hc
      cases hc
  withData := hg.withData
  start _ := rfl

/-- How far the loop is from its end. -/
def work (g : Grouping) : Nat :=
  2 * (g.withData.length + g.withoutData.length) + if g.currentGroup.connections = [] then 0 else 1

theorem min_input_index_mem {withData withoutData : List GraphConnection}
    (h : ¬(withData = [] ∧ withoutData = [])) :
    ∃ c ∈ withData ++ withoutData, c.inputIndex = minInputIndex withData withoutData := by
  cases hmin : ((withData ++ withoutData).map (·.inputIndex)).min? with
  | none =>
    rw [List.min?_eq_none_iff, List.map_eq_nil_iff, List.append_eq_nil_iff] at hmin
    exact absurd hmin h
  | some least =>
    obtain ⟨c, hc, hleast⟩ := List.mem_map.mp (List.min?_mem hmin)
    exact ⟨c, hc, by rw [minInputIndex, hmin, Option.getD_some, hleast]⟩

/-- A round keeps the invariant and comes closer to the end. -/
theorem step_inv (hg : Inv all hasData g) (hleft : ¬(g.withData = [] ∧ g.withoutData = [])) :
    Inv all hasData g.step ∧ g.step.work < g.work := by
  rw [step]
  split
  · rename_i c hfind
    have hinput : c.inputIndex = g.nextInputIndex := by simpa using List.find?_some hfind
    have hperm := (perm_eraseP hfind).symm
    refine ⟨hg.take hinput (hperm.append_right g.withoutData)
      (fun hpos => ⟨hpos, hg.withData c (List.mem_of_find?_eq_some hfind)⟩)
      (fun c' hc' => hg.withData c' (List.mem_of_mem_eraseP hc')), ?_⟩
    have hlength := hperm.length_eq
    rw [List.length_cons] at hlength
    simp only [work, List.append_eq_nil_iff, List.cons_ne_nil, and_false, if_false]
    omega
  · rename_i hnoData
    split
    · rename_i c hfind
      have hinput : c.inputIndex = g.nextInputIndex := by simpa using List.find?_some hfind
      have hperm := (perm_eraseP hfind).symm
      refine ⟨hg.take hinput (List.perm_middle.symm.trans (hperm.append_left g.withData))
        (fun hpos => by cases hpos) hg.withData, ?_⟩
      have hlength := hperm.length_eq
      rw [List.length_cons] at hlength
      simp only [work, List.append_eq_nil_iff, List.cons_ne_nil, and_false, if_false]
      omega
    · rename_i hnone
      refine ⟨hg.endGroup, ?_⟩
      -- a new group takes a connection in its first round
      have hcurrent : g.currentGroup.connections ≠ [] := by
        intro hnil
        obtain ⟨c, hc, hmin⟩ := min_input_index_mem hleft
        rw [← hg.start hnil] at hmin
        rcases List.mem_append.mp hc with hwith | hwithout
        · exact List.find?_eq_none.mp hnoData c hwith (by simpa using hmin)
        · exact List.find?_eq_none.mp hnone c hwithout (by simpa using hmin)
      simp only [work, newGroup, if_pos, if_neg hcurrent]
      omega

theorem loop_inv {fuel : Nat} (hg : Inv all hasData g) (hfuel : g.work ≤ fuel) :
    ∃ g', Inv all hasData g' ∧ g'.withData = [] ∧ g'.withoutData = [] ∧
      loop fuel g = g'.formed := by
  induction fuel generalizing g with
  | zero =>
    have hlengths : g.withData.length = 0 ∧ g.withoutData.length = 0 := by
      unfold work at hfuel
      omega
    exact ⟨g, hg, List.length_eq_zero_iff.mp hlengths.1, List.length_eq_zero_iff.mp hlengths.2,
      rfl⟩
  | succ fuel ih =>
    rw [loop]
    split
    · rename_i hdone
      exact ⟨g, hg, hdone.1, hdone.2, rfl⟩
    · rename_i hleft
      obtain ⟨hstep, hwork⟩ := step_inv hg hleft
      exact ih hstep (by omega)

end Grouping

/-- The groups are made of the given connections. -/
structure GroupsOf (all : List GraphConnection) (hasData : GraphConnection → Bool)
    (groups : List SourceConnectionGroup) : Prop where
  perm : (groups.flatMap (·.connections)).Perm all
  consecutive : ∀ group ∈ groups, ∃ first, Consecutive first group.connections
  complete : ∀ group ∈ groups, group.complete = true → ∀ c ∈ group.connections, hasData c = true

section Groups

variable {localeCompare : String → String → Int} {graph : DirectedGraph} {node : INode}
  {runData : IRunData ι} {pinData : IPinData ι}

theorem start_inv {withData withoutData : List GraphConnection}
    (h : ∀ c ∈ withData, hasData runData pinData c = true) :
    Grouping.Inv (withData ++ withoutData) (hasData runData pinData)
      { withData := sortConnections localeCompare withData
        withoutData := sortConnections localeCompare withoutData
        groups := []
        currentGroup := newGroup
        nextInputIndex := Grouping.minInputIndex (sortConnections localeCompare withData)
          (sortConnections localeCompare withoutData) } where
  perm := (List.perm_insertionSort _ withData).append (List.perm_insertionSort _ withoutData)
  consecutive _ hgroup := by cases hgroup
  current := ⟨_, rfl, rfl⟩
  complete group hgroup _ c hc := by
    rw [List.mem_singleton.mp hgroup] at hc
    cases hc
  withData c hc := h c ((List.perm_insertionSort _ withData).subset hc)
  start _ := rfl

theorem source_data_groups_of (localeCompare : String → String → Int) (graph : DirectedGraph)
    (node : INode) (runData : IRunData ι) (pinData : IPinData ι) :
    GroupsOf ((groupedConnections graph node runData pinData).1 ++
        (groupedConnections graph node runData pinData).2) (hasData runData pinData)
      (getSourceDataGroups localeCompare graph node runData pinData) := by
  have hdata : ∀ c ∈ (groupedConnections graph node runData pinData).1,
      hasData runData pinData c = true := fun c hc => (List.mem_filter.mp hc).2
  rw [getSourceDataGroups]
  generalize groupedConnections graph node runData pinData = connections at hdata ⊢
  obtain ⟨withData, withoutData⟩ := connections
  dsimp only at hdata ⊢
  split
  · rename_i hnone
    rw [hnone.1, hnone.2]
    exact ⟨List.Perm.refl _, fun _ hgroup => (List.not_mem_nil hgroup).elim,
      fun _ hgroup => (List.not_mem_nil hgroup).elim⟩
  · obtain ⟨g, hg, hwith, hwithout, hloop⟩ := Grouping.loop_inv (start_inv hdata) (Nat.le_of_eq (by
      show 2 *
          ((List.insertionSort _ withData).length + (List.insertionSort _ withoutData).length) =
        2 * (withData.length + withoutData.length)
      rw [List.length_insertionSort, List.length_insertionSort]))
    rw [hloop]
    refine ⟨?_, fun group hgroup => ?_, hg.complete⟩
    · simpa [hwith, hwithout] using hg.perm
    · rcases List.mem_append.mp hgroup with hold | hcurrent
      · exact hg.consecutive group hold
      · rw [List.mem_singleton.mp hcurrent]
        exact ⟨_, hg.current.choose_spec.1⟩

theorem mem_groups_iff {c : GraphConnection} :
    (∃ group ∈ getSourceDataGroups localeCompare graph node runData pinData,
        c ∈ group.connections) ↔
      c ∈ graph.getConnections node ∧ (hasData runData pinData c = true ∨ c.type = .main) := by
  rw [← List.mem_flatMap,
    (source_data_groups_of localeCompare graph node runData pinData).perm.mem_iff,
    List.mem_append]
  simp only [groupedConnections, List.mem_filter, Bool.and_eq_true, Bool.not_eq_true',
    decide_eq_true_eq]
  cases hasData runData pinData c <;> simp

theorem get_connections_nodup
    (hfiled : ∀ key c, graph.connections.get? key = some c → key = makeKey c) :
    (graph.getConnections node).Nodup := by
  have hkeys : graph.connections.values.map makeKey = graph.connections.keys := by
    rw [InsertionMap.values, InsertionMap.keys, List.map_map]
    refine List.map_congr_left fun e he => ?_
    exact (hfiled e.1 e.2 (InsertionMap.get_eq_some_iff.mpr he)).symm
  refine List.Nodup.filter _ (List.Nodup.of_map makeKey ?_)
  rw [hkeys]
  exact graph.connections.nodup

theorem group_unique (hfiled : ∀ key c, graph.connections.get? key = some c → key = makeKey c)
    {group group' : SourceConnectionGroup} {c : GraphConnection}
    (hgroup : group ∈ getSourceDataGroups localeCompare graph node runData pinData)
    (hgroup' : group' ∈ getSourceDataGroups localeCompare graph node runData pinData)
    (hc : c ∈ group.connections) (hc' : c ∈ group'.connections) : group = group' := by
  have hall : ((groupedConnections graph node runData pinData).1 ++
      (groupedConnections graph node runData pinData).2).Nodup := by
    refine List.nodup_append.mpr ⟨(get_connections_nodup hfiled).filter _,
      (get_connections_nodup hfiled).filter _, fun a ha b hb hab => ?_⟩
    have hdata := (List.mem_filter.mp ha).2
    have hnone := (List.mem_filter.mp hb).2
    rw [← hab, hdata] at hnone
    cases hnone
  have hflat :=
    ((source_data_groups_of localeCompare graph node runData pinData).perm.nodup_iff).mpr
    hall
  by_contra hne
  have hsymm : Std.Symm (Function.onFun List.Disjoint SourceConnectionGroup.connections) :=
    ⟨fun _ _ h _ hc hc' => h hc' hc⟩
  exact (List.nodup_flatMap.mp hflat).2.forall hgroup hgroup' hne hc hc'

end Groups

end N8n.PartialExecution
