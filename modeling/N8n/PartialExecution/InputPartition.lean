import N8n.Collections.Rises
import N8n.PartialExecution.ConsecutiveGroups

/-!
# How many groups there are

`getSourceDataGroups` partitions the incoming connections: the connections of a group lead to
increasing inputs, a group is complete exactly when all its connections have data, and of two
connections to one input the one with data comes first. A group ends at the first input without a
connection that is left, so there are as many groups as the numbers of connections of the inputs
go up; that is the largest of these numbers exactly when they have no valley.
-/

namespace N8n.PartialExecution

open Collections Execution

variable {ι : Type}

/-- How many of the connections lead to an input. -/
def share (connections : List GraphConnection) (inputIndex : Nat) : Nat :=
  connections.countP (·.inputIndex = inputIndex)

/-- The largest number of connections that lead to the same input. -/
def largestShare (connections : List GraphConnection) : Nat :=
  connections.foldr (fun c largest => max (share connections c.inputIndex) largest) 0

theorem share_consecutive {first : Nat} {connections : List GraphConnection}
    (h : Consecutive first connections) (i : Nat) :
    share connections i = if first ≤ i ∧ i < first + connections.length then 1 else 0 := by
  have hcount : share connections i = (connections.map (·.inputIndex)).count i := by
    rw [share, List.count, List.countP_map]
    rfl
  rw [hcount, h, List.count_range_1']

@[simp] theorem share_append (cs cs' : List GraphConnection) (i : Nat) :
    share (cs ++ cs') i = share cs i + share cs' i := List.countP_append ..

theorem share_perm {cs cs' : List GraphConnection} (h : cs.Perm cs') : share cs = share cs' :=
  funext fun _ => h.countP_eq _

theorem share_eq_zero_iff {cs : List GraphConnection} {i : Nat} :
    share cs i = 0 ↔ ∀ c ∈ cs, c.inputIndex ≠ i := by
  simp [share, List.countP_eq_zero]

theorem rises_share_nil (n : Nat) : rises (share []) n = 0 := by
  induction n with
  | zero => rfl
  | succ n ih =>
    show rises (share []) n + rise (share []) n = 0
    rw [ih]
    cases n <;> rfl

theorem largest_share_spec (cs : List GraphConnection) :
    (∀ i, share cs i ≤ largestShare cs) ∧ ∃ i, share cs i = largestShare cs := by
  have hfold : ∀ l : List GraphConnection,
      (∀ c ∈ l, share cs c.inputIndex ≤
        l.foldr (fun c largest => max (share cs c.inputIndex) largest) 0) ∧
      (l = [] ∨ ∃ c ∈ l, share cs c.inputIndex =
        l.foldr (fun c largest => max (share cs c.inputIndex) largest) 0) := by
    intro l
    induction l with
    | nil => exact ⟨by simp, .inl rfl⟩
    | cons c l ih =>
      obtain ⟨hle, hmem⟩ := ih
      rw [List.foldr_cons]
      have hnil : l = [] → l.foldr (fun c largest => max (share cs c.inputIndex) largest) 0 = 0 :=
        fun h => by rw [h]; rfl
      generalize l.foldr (fun c largest => max (share cs c.inputIndex) largest) 0 = rest at *
      refine ⟨fun c' hc' => ?_, .inr ?_⟩
      · rcases List.mem_cons.mp hc' with rfl | hc'
        · exact Nat.le_max_left ..
        · exact Nat.le_trans (hle c' hc') (Nat.le_max_right ..)
      · by_cases hmax : rest ≤ share cs c.inputIndex
        · exact ⟨c, by simp, (Nat.max_eq_left hmax).symm⟩
        · rcases hmem with rfl | ⟨c', hc', heq⟩
          · rw [hnil rfl] at hmax
            exact absurd (Nat.zero_le _) hmax
          · exact ⟨c', by simp [hc'], by rw [heq, Nat.max_eq_right (Nat.le_of_not_le hmax)]⟩
  obtain ⟨hle, hmem⟩ := hfold cs
  refine ⟨fun i => ?_, ?_⟩
  · by_cases hi : share cs i = 0
    · omega
    · rw [share_eq_zero_iff] at hi
      simp only [not_forall, not_not] at hi
      obtain ⟨c, hc, rfl⟩ := hi
      exact hle c hc
  · rcases hmem with rfl | ⟨c, _, heq⟩
    · exact ⟨0, rfl⟩
    · exact ⟨_, heq⟩

/-- Of two connections to the same input, the second has data only if the first has. -/
def DataFirst (hasData : GraphConnection → Bool) (c c' : GraphConnection) : Prop :=
  c.inputIndex = c'.inputIndex → hasData c' = true → hasData c = true

namespace Grouping

/-- What the loop keeps besides the shape of the groups. `n` is beyond all inputs. -/
structure Sparing (all : List GraphConnection) (hasData : GraphConnection → Bool) (n : Nat)
    (g : Grouping) : Prop where
  rises : g.groups.length + Collections.rises
    (share (g.currentGroup.connections ++ (g.withData ++ g.withoutData))) n =
      Collections.rises (share all) n
  lower : ∀ c ∈ g.withData ++ g.withoutData,
    g.nextInputIndex ≤ c.inputIndex + g.currentGroup.connections.length
  busy : g.currentGroup.connections = [] → ¬(g.withData = [] ∧ g.withoutData = [])
  withoutData : ∀ c ∈ g.withoutData, hasData c = false
  incomplete : ∀ group ∈ g.formed, group.complete = false →
    ∃ c ∈ group.connections, hasData c = false
  ordered : (g.formed.flatMap (·.connections)).Pairwise (DataFirst hasData)
  passed : ∀ c ∈ g.formed.flatMap (·.connections), hasData c = false →
    ∀ c' ∈ g.withData, c'.inputIndex ≠ c.inputIndex

variable {all : List GraphConnection} {hasData : GraphConnection → Bool} {n : Nat} {g : Grouping}

theorem Sparing.take {c : GraphConnection} {complete : Bool}
    {withData withoutData : List GraphConnection} (hg : Sparing all hasData n g)
    (hinput : c.inputIndex = g.nextInputIndex)
    (hperm : (c :: (withData ++ withoutData)).Perm (g.withData ++ g.withoutData))
    (hcomplete : complete = false → g.currentGroup.complete = false ∨ hasData c = false)
    (hwith : withData ⊆ g.withData) (hwithout : withoutData ⊆ g.withoutData)
    (hdata : hasData c = true → c ∈ g.withData)
    (hfirst : hasData c = false → ∀ c' ∈ g.withData, c'.inputIndex ≠ g.nextInputIndex) :
    Sparing all hasData n
      { g with
        currentGroup := ⟨complete, g.currentGroup.connections ++ [c]⟩
        withData := withData
        withoutData := withoutData
        nextInputIndex := g.nextInputIndex + 1 } := by
  have hflat : (Grouping.formed
      { g with
        currentGroup := ⟨complete, g.currentGroup.connections ++ [c]⟩
        withData := withData
        withoutData := withoutData
        nextInputIndex := g.nextInputIndex + 1 }).flatMap (·.connections) =
      g.formed.flatMap (·.connections) ++ [c] := by
    simp [formed]
  refine ⟨?_, fun c' hc' => ?_, fun hnil => absurd hnil (by simp),
    fun c' hc' => hg.withoutData c' (hwithout hc'), fun group hgroup hno => ?_, ?_, ?_⟩
  · have hshare : share (g.currentGroup.connections ++ [c] ++ (withData ++ withoutData)) =
        share (g.currentGroup.connections ++ (g.withData ++ g.withoutData)) := by
      refine share_perm ?_
      rw [List.append_assoc]
      exact hperm.append_left _
    show g.groups.length + Collections.rises
      (share (g.currentGroup.connections ++ [c] ++ (withData ++ withoutData))) n = _
    rw [hshare]
    exact hg.rises
  · have hle := hg.lower c' (hperm.subset (List.mem_cons_of_mem _ hc'))
    show g.nextInputIndex + 1 ≤ c'.inputIndex + (g.currentGroup.connections ++ [c]).length
    rw [List.length_append, List.length_singleton]
    omega
  · rcases List.mem_append.mp hgroup with hold | hcurrent
    · exact hg.incomplete group (List.mem_append_left _ hold) hno
    · cases List.mem_singleton.mp hcurrent
      rcases hcomplete hno with hold | hc
      · obtain ⟨c', hc', hnone⟩ := hg.incomplete g.currentGroup (by simp [formed]) hold
        exact ⟨c', List.mem_append_left _ hc', hnone⟩
      · exact ⟨c, by simp, hc⟩
  · rw [hflat, List.pairwise_append]
    refine ⟨hg.ordered, List.pairwise_singleton .., fun c' hc' d hd hsame hhas => ?_⟩
    cases List.mem_singleton.mp hd
    by_contra hnone
    exact hg.passed c' hc' (by simpa using hnone) c (hdata hhas) hsame.symm
  · rw [hflat]
    intro c' hc' hnone d hd
    rcases List.mem_append.mp hc' with hold | hnew
    · exact hg.passed c' hold hnone d (hwith hd)
    · cases List.mem_singleton.mp hnew
      rw [hinput]
      exact hfirst hnone d (hwith hd)

theorem rises_current {rest : List GraphConnection} {first : Nat}
    {connections : List GraphConnection} (hcons : Consecutive first connections)
    (hne : connections ≠ []) (hn : ∀ c ∈ connections, c.inputIndex < n)
    (hlower : ∀ c ∈ rest, first ≤ c.inputIndex)
    (hgap : ∀ c ∈ rest, c.inputIndex ≠ first + connections.length) :
    rises (share (connections ++ rest)) n = rises (share rest) n + 1 := by
  obtain ⟨c, cs, rfl⟩ := List.exists_cons_of_ne_nil hne
  have hfirst : c.inputIndex = first + 0 := hcons.input_index (p := 0) rfl
  have hc := hn c (by simp)
  refine rises_add_interval (a := first) (b := first + (c :: cs).length) (by simp) (by omega)
    (fun i hi => share_eq_zero_iff.mpr fun d hd heq => ?_) (share_eq_zero_iff.mpr hgap) fun i => ?_
  · have := hlower d hd
    omega
  · rw [share_append, share_consecutive hcons, Nat.add_comm]

theorem min_input_index_le {withData withoutData : List GraphConnection} {c : GraphConnection}
    (hc : c ∈ withData ++ withoutData) : minInputIndex withData withoutData ≤ c.inputIndex := by
  have hmem : c.inputIndex ∈ (withData ++ withoutData).map (·.inputIndex) :=
    List.mem_map_of_mem hc
  rw [minInputIndex]
  cases hmin : ((withData ++ withoutData).map (·.inputIndex)).min? with
  | none => exact Nat.zero_le _
  | some least => exact (List.min?_eq_some_iff.mp hmin).2 _ hmem

theorem Sparing.endGroup (hinv : Inv all hasData g) (hg : Sparing all hasData n g)
    (hn : ∀ c ∈ all, c.inputIndex < n) (hleft : ¬(g.withData = [] ∧ g.withoutData = []))
    (hne : g.currentGroup.connections ≠ [])
    (hgap : ∀ c ∈ g.withData ++ g.withoutData, c.inputIndex ≠ g.nextInputIndex) :
    Sparing all hasData n
      { g with
        groups := g.groups ++ [g.currentGroup]
        currentGroup := newGroup
        nextInputIndex := minInputIndex g.withData g.withoutData } := by
  have hflat : (Grouping.formed
      { g with
        groups := g.groups ++ [g.currentGroup]
        currentGroup := newGroup
        nextInputIndex := minInputIndex g.withData g.withoutData }).flatMap (·.connections) =
      g.formed.flatMap (·.connections) := by
    simp [formed, newGroup]
  obtain ⟨first, hcons, hnext⟩ := hinv.current
  refine ⟨?_, fun c hc => ?_, fun _ => hleft, hg.withoutData, fun group hgroup hno => ?_, ?_, ?_⟩
  · have hrise := rises_current (n := n) hcons hne (fun c hc => hn c (hinv.perm.subset (by
      simp [formed, hc]))) (fun c hc => by have := hg.lower c hc; omega)
      (fun c hc => by rw [hnext]; exact hgap c hc)
    have hold := hg.rises
    show (g.groups ++ [g.currentGroup]).length +
      Collections.rises (share ([] ++ (g.withData ++ g.withoutData))) n = _
    rw [List.length_append, List.length_singleton, List.nil_append]
    omega
  · exact Nat.le_add_right_of_le (min_input_index_le hc)
  · rcases List.mem_append.mp hgroup with hold | hnew
    · exact hg.incomplete group hold hno
    · cases List.mem_singleton.mp hnew
      cases hno
  · rw [hflat]
    exact hg.ordered
  · rw [hflat]
    exact hg.passed

theorem step_sparing (hinv : Inv all hasData g) (hg : Sparing all hasData n g)
    (hn : ∀ c ∈ all, c.inputIndex < n) (hleft : ¬(g.withData = [] ∧ g.withoutData = [])) :
    Sparing all hasData n g.step := by
  rw [step]
  split
  · rename_i c hfind
    have hmem := List.mem_of_find?_eq_some hfind
    have hdata := hinv.withData c hmem
    exact hg.take (by simpa using List.find?_some hfind)
      ((perm_eraseP hfind).symm.append_right g.withoutData) (fun h => .inl h)
      List.eraseP_subset (List.Subset.refl _) (fun _ => hmem) (by simp [hdata])
  · rename_i hnoData
    have hnone : ∀ c' ∈ g.withData, c'.inputIndex ≠ g.nextInputIndex := fun c' hc' heq =>
      List.find?_eq_none.mp hnoData c' hc' (by simpa using heq)
    split
    · rename_i c hfind
      have hdata := hg.withoutData c (List.mem_of_find?_eq_some hfind)
      exact hg.take (by simpa using List.find?_some hfind)
        (List.perm_middle.symm.trans ((perm_eraseP hfind).symm.append_left g.withData))
        (fun _ => .inr hdata) (List.Subset.refl _) List.eraseP_subset (by simp [hdata])
        fun _ => hnone
    · rename_i hnoMore
      have hgap : ∀ c ∈ g.withData ++ g.withoutData, c.inputIndex ≠ g.nextInputIndex := by
        intro c hc heq
        rcases List.mem_append.mp hc with hc | hc
        · exact hnone c hc heq
        · exact List.find?_eq_none.mp hnoMore c hc (by simpa using heq)
      have hne : g.currentGroup.connections ≠ [] := by
        intro hnil
        obtain ⟨c, hc, hmin⟩ := min_input_index_mem hleft
        rw [← hinv.start hnil] at hmin
        exact hgap c hc hmin
      exact hg.endGroup hinv hn hleft hne hgap

theorem loop_sparing {fuel : Nat} (hinv : Inv all hasData g) (hg : Sparing all hasData n g)
    (hn : ∀ c ∈ all, c.inputIndex < n) (hfuel : g.work ≤ fuel) :
    ∃ g', Sparing all hasData n g' ∧ loop fuel g = g'.formed ∧
      g'.formed.length = Collections.rises (share all) n := by
  have hend : ∀ g : Grouping, Inv all hasData g → Sparing all hasData n g → g.withData = [] →
      g.withoutData = [] → g.formed.length = Collections.rises (share all) n := by
    intro g hinv hg hwith hwithout
    obtain ⟨first, hcons, _⟩ := hinv.current
    have hne : g.currentGroup.connections ≠ [] := fun hnil => hg.busy hnil ⟨hwith, hwithout⟩
    have hrise : Collections.rises (share (g.currentGroup.connections ++ [])) n =
        Collections.rises (share []) n + 1 :=
      rises_current hcons hne (fun c hc => hn c (hinv.perm.subset (by simp [formed, hc])))
        (by simp) (by simp)
    have hrises := hg.rises
    simp only [hwith, hwithout, List.append_nil] at hrises
    rw [rises_share_nil, List.append_nil] at hrise
    rw [formed, List.length_append, List.length_singleton]
    omega
  induction fuel generalizing g with
  | zero =>
    have hlengths : g.withData.length = 0 ∧ g.withoutData.length = 0 := by
      unfold work at hfuel
      omega
    exact ⟨g, hg, rfl, hend g hinv hg (List.length_eq_zero_iff.mp hlengths.1)
      (List.length_eq_zero_iff.mp hlengths.2)⟩
  | succ fuel ih =>
    rw [loop]
    split
    · rename_i hdone
      exact ⟨g, hg, rfl, hend g hinv hg hdone.1 hdone.2⟩
    · rename_i hleft
      obtain ⟨hstep, hwork⟩ := step_inv hinv hleft
      exact ih hstep (step_sparing hinv hg hn hleft) (by omega)

end Grouping

section Groups

variable (graph : DirectedGraph) (node : INode) (runData : IRunData ι) (pinData : IPinData ι)

/-- The incoming connections that are main connections or have data. -/
def inputConnections : List GraphConnection :=
  (graph.getConnections node).filter fun c => hasData runData pinData c || c.type = .main

/-- The groups partition the incoming connections, and are as few as connections to the same input
allow. -/
structure PartitionsInputs (groups : List SourceConnectionGroup) : Prop where
  partition : (groups.flatMap (·.connections)).Perm (inputConnections graph node runData pinData)
  increasing : ∀ group ∈ groups,
    (group.connections.map GraphConnection.inputIndex).Pairwise (· < ·)
  complete : ∀ group ∈ groups, group.complete = true ↔
    ∀ c ∈ group.connections, hasData runData pinData c = true
  dataFirst : ∀ (i j : Nat) (group group' : SourceConnectionGroup), groups[i]? = some group →
    groups[j]? = some group' → ∀ c ∈ group.connections, ∀ c' ∈ group'.connections,
      c.inputIndex = c'.inputIndex → hasData runData pinData c = true →
      hasData runData pinData c' = false → i < j
  fewest : groups.length = largestShare (inputConnections graph node runData pinData)

variable {graph node runData pinData}

theorem grouped_connections_perm :
    ((groupedConnections graph node runData pinData).1 ++
      (groupedConnections graph node runData pinData).2).Perm
        (inputConnections graph node runData pinData) := by
  have hperm := List.filter_append_perm (hasData runData pinData)
    (inputConnections graph node runData pinData)
  refine List.Perm.trans (List.Perm.of_eq ?_) hperm
  rw [groupedConnections, inputConnections, List.filter_filter, List.filter_filter]
  congr 1 <;> refine List.filter_congr fun c _ => ?_
  · cases hasData runData pinData c <;> rfl
  · cases hasData runData pinData c <;> rfl

theorem Consecutive.inj {first : Nat} {connections : List GraphConnection} {c c' : GraphConnection}
    (h : Consecutive first connections) (hc : c ∈ connections) (hc' : c' ∈ connections)
    (heq : c.inputIndex = c'.inputIndex) : c = c' := by
  obtain ⟨p, hp⟩ := List.mem_iff_getElem?.mp hc
  obtain ⟨q, hq⟩ := List.mem_iff_getElem?.mp hc'
  have hpq : p = q := by
    have := h.input_index hp
    have := h.input_index hq
    omega
  exact Option.some.inj (hp.symm.trans (hpq ▸ hq))

theorem exists_input_bound (cs : List GraphConnection) : ∃ n, ∀ c ∈ cs, c.inputIndex < n := by
  induction cs with
  | nil => exact ⟨0, by simp⟩
  | cons c cs ih =>
    obtain ⟨n, hn⟩ := ih
    refine ⟨max (c.inputIndex + 1) n, fun d hd => ?_⟩
    rcases List.mem_cons.mp hd with rfl | hd
    · omega
    · have := hn d hd
      omega

theorem source_data_groups_sparing (localeCompare : String → String → Int) {n : Nat}
    (hn : ∀ c ∈ (groupedConnections graph node runData pinData).1 ++
      (groupedConnections graph node runData pinData).2, c.inputIndex < n) :
    let groups := getSourceDataGroups localeCompare graph node runData pinData
    (∀ group ∈ groups, group.complete = false →
        ∃ c ∈ group.connections, hasData runData pinData c = false) ∧
      (groups.flatMap (·.connections)).Pairwise (DataFirst (hasData runData pinData)) ∧
      groups.length = rises (share ((groupedConnections graph node runData pinData).1 ++
        (groupedConnections graph node runData pinData).2)) n := by
  have hdata : ∀ c ∈ (groupedConnections graph node runData pinData).1,
      hasData runData pinData c = true := fun c hc => (List.mem_filter.mp hc).2
  have hnone : ∀ c ∈ (groupedConnections graph node runData pinData).2,
      hasData runData pinData c = false := fun c hc => by
    have := (List.mem_filter.mp hc).2
    simp at this
    exact this.1
  rw [getSourceDataGroups]
  generalize groupedConnections graph node runData pinData = connections at hdata hnone hn ⊢
  obtain ⟨withData, withoutData⟩ := connections
  dsimp only at hdata hnone hn ⊢
  split
  · rename_i hempty
    rw [hempty.1, hempty.2]
    exact ⟨by simp, List.Pairwise.nil, (rises_share_nil n).symm⟩
  · rename_i hleft
    have hwith : (sortConnections localeCompare withData).Perm withData :=
      List.perm_insertionSort ..
    have hwithout : (sortConnections localeCompare withoutData).Perm withoutData :=
      List.perm_insertionSort ..
    have hstart : Grouping.Sparing (withData ++ withoutData) (hasData runData pinData) n
        { withData := sortConnections localeCompare withData
          withoutData := sortConnections localeCompare withoutData
          groups := []
          currentGroup := newGroup
          nextInputIndex := Grouping.minInputIndex (sortConnections localeCompare withData)
            (sortConnections localeCompare withoutData) } := by
      refine ⟨?_, fun c hc => Grouping.min_input_index_le hc, fun _ hempty => hleft ?_,
        fun c hc => hnone c (hwithout.subset hc), fun group hgroup hno => ?_, ?_, ?_⟩
      · have hshare : share (sortConnections localeCompare withData ++
            sortConnections localeCompare withoutData) = share (withData ++ withoutData) :=
          share_perm (hwith.append hwithout)
        show 0 + rises (share ([] ++ _)) n = _
        rw [Nat.zero_add, List.nil_append, hshare]
      · obtain ⟨hnil, hnil'⟩ := hempty
        change sortConnections localeCompare withData = [] at hnil
        change sortConnections localeCompare withoutData = [] at hnil'
        exact ⟨(hnil ▸ hwith).nil_eq.symm, (hnil' ▸ hwithout).nil_eq.symm⟩
      · cases List.mem_singleton.mp hgroup
        cases hno
      · exact List.Pairwise.nil
      · exact fun c hc => absurd hc (by simp [Grouping.formed, newGroup])
    obtain ⟨g, hg, hloop, hcount⟩ := Grouping.loop_sparing (start_inv hdata) hstart hn
      (Nat.le_of_eq (by
        show 2 *
            ((List.insertionSort _ withData).length + (List.insertionSort _ withoutData).length) =
          2 * (withData.length + withoutData.length)
        rw [List.length_insertionSort, List.length_insertionSort]))
    rw [hloop]
    exact ⟨hg.incomplete, hg.ordered, hcount⟩

/-- Two sources with data, connected to the first and the third input of a node. -/
def gappedInputs : DirectedGraph :=
  graphOf (.create [{ name := "s" }, { name := "t" }, { name := "n" }]
    (InsertionMap.set (InsertionMap.set .empty
      "s" (InsertionMap.set .empty .main [some [⟨"n", .main, 0⟩]]))
      "t" (InsertionMap.set .empty .main [some [⟨"n", .main, 2⟩]])) none)

/-- Run data of both sources. -/
def twoSources : IRunData Unit := InsertionMap.set (InsertionMap.set .empty "s" []) "t" []

end Groups

end N8n.PartialExecution
