import N8n.Execution.Data
import N8n.Graph.DepthFirstWalk
import N8n.PartialExecution.FindSubgraph
import N8n.PartialExecution.StronglyConnectedComponents

/-!
# Cleaning run data

`cleanRunData` of `packages/core/src/execution-engine/partial-execution-utils/clean-run-data.ts`
and `getChildren` of `directed-graph.ts`. The run data are objects by reference: the copy that is
returned is the only one that loses entries. For the nodes to clean and their descendants the
entries of their sub-nodes are deleted, too; these are looked for along the connections of all
types, so a sub-node of a node upstream loses its entry as well.
-/

namespace N8n.PartialExecution

open Collections Execution
open DirectedGraph
open N8n.Graph

variable {ι : Type}

/-- `getChildrenRecursive(node, children)`, at most `fuel` calls deep. -/
def getChildrenRecursive (g : DirectedGraph) :
    Nat → INode → List INode → Except GraphError (List INode)
  | 0, _, _ => .error .outOfFuel
  | fuel + 1, node, children => do
    let directChildren ← g.getDirectChildConnections node
    (directChildren.map (·.toNode)).foldlM (fun children child =>
      -- break out if we found a cycle
      if child ∈ children then .ok children
      else getChildrenRecursive g fuel child (children ++ [child])) children

/-- `getChildren(node)`. Every call but the first collects another node, so their number bounds the
depth. -/
def getChildren (g : DirectedGraph) (node : INode) : Except GraphError (List INode) :=
  getChildrenRecursive g (g.getNodes.length + 2) node []

/-- Objects of run data. A reference is the place of its object. -/
abbrev RunDataObjects (ι : Type) := List (IRunData ι)

/-- `delete object[name]`. -/
def deleteEntry (objects : RunDataObjects ι) (object : Nat) (name : String) : RunDataObjects ι :=
  objects.modify object (·.delete name)

/-- Delete the run data of a node and of its sub-nodes. -/
def cleanNode (graph : DirectedGraph) (newRunData : Nat) (objects : RunDataObjects ι)
    (node : INode) : Except GraphError (RunDataObjects ι) := do
  let subNodeConnections ← graph.getParentConnections node
  return subNodeConnections.foldl (fun objects subNodeConnection =>
    -- sub-nodes never use the main type
    if subNodeConnection.type = .main then objects
    else deleteEntry objects newRunData subNodeConnection.fromNode.name)
    (deleteEntry objects newRunData node.name)

/-- Delete the run data of a node to clean, of its children and of their sub-nodes. -/
def cleanChildren (graph : DirectedGraph) (newRunData : Nat) (objects : RunDataObjects ι)
    (nodeToClean : INode) : Except GraphError (RunDataObjects ι) := do
  let children ← getChildren graph nodeToClean
  (nodeToClean :: children).foldlM (cleanNode graph newRunData)
    (deleteEntry objects newRunData nodeToClean.name)

/-- `cleanRunData(runData, graph, nodesToClean)`: the objects afterwards and the reference that is
returned. -/
def cleanRunData (graph : DirectedGraph) (objects : RunDataObjects ι) (runData : Nat)
    (nodesToClean : List INode) : Except GraphError (RunDataObjects ι × Nat) := do
  let newRunData := objects.length
  let objects := objects ++ [objects[runData]?.getD .empty]
  let objects ← nodesToClean.foldlM (cleanChildren graph newRunData) objects
  let nodeNames := (objects[newRunData]?.getD .empty).keys
  return (nodeNames.foldl (fun objects nodeName =>
    if graph.hasNode nodeName then objects else deleteEntry objects newRunData nodeName) objects,
    newRunData)

/-! ## The children -/

variable {g : DirectedGraph} {node : INode}

theorem get_children_recursive_eq (hg : WellFormed g) {fuel : Nat} {children : List INode}
    (hnode : g.stores node = true) (hnodup : children.Nodup)
    (hin : ∀ x ∈ children, x ∈ g.getNodes) (hfuel : g.getNodes.length < fuel + children.length) :
    getChildrenRecursive g (fuel + 1) node children =
      .ok ((directChildren g node).foldl (visit (directChildren g) fuel) children) := by
  induction fuel generalizing node children with
  | zero =>
    have := hnodup.length_le_of_subset hin
    omega
  | succ fuel ih =>
    have hloop : ∀ (cs children : List INode), (∀ c ∈ cs, g.stores c = true) →
        children.Nodup → (∀ x ∈ children, x ∈ g.getNodes) →
        g.getNodes.length < fuel + 1 + children.length →
        cs.foldlM (fun children child => if child ∈ children then .ok children
          else getChildrenRecursive g (fuel + 1) child (children ++ [child])) children =
          Except.ok (cs.foldl (visit (directChildren g) (fuel + 1)) children) := by
      intro cs
      induction cs with
      | nil => exact fun _ _ _ _ _ => rfl
      | cons c cs ihcs =>
        intro children hcs hnodup hin hfuel
        have hc := hcs c (by simp)
        have hc' := (mem_get_nodes_iff hg).mpr hc
        have hround : (if c ∈ children then .ok children
            else getChildrenRecursive g (fuel + 1) c (children ++ [c])) =
            Except.ok (visit (directChildren g) (fuel + 1) children c) := by
          by_cases hmem : c ∈ children
          · rw [if_pos hmem, visit_old hmem]
          · rw [if_neg hmem, visit_new hmem]
            refine ih hc ?_ (by simpa [or_imp, forall_and, hc'] using hin) (by simp; omega)
            simpa [List.nodup_append] using ⟨hnodup, fun a ha heq => hmem (heq ▸ ha)⟩
        obtain ⟨hnodup', hin'⟩ : (visit (directChildren g) (fuel + 1) children c).Nodup ∧
            ∀ x ∈ visit (directChildren g) (fuel + 1) children c, x ∈ g.getNodes :=
          follow_visited_nodup (children_closed hg) hnodup hin hc'
        rw [List.foldlM_cons, hround]
        refine ihcs _ (fun c' hc' => hcs c' (by simp [hc'])) hnodup' hin' ?_
        rw [visit, List.length_append]
        omega
    rw [getChildrenRecursive, getDirectChildConnections, if_pos hnode]
    exact hloop _ _ (fun c hc => direct_children_stored hg hc) hnodup hin hfuel

theorem mem_direct_children_iff {x : INode} : x ∈ directChildren g node ↔ Feeds g node x := by
  simp [directChildren, Feeds, and_assoc]

theorem get_children_eq (hg : WellFormed g) (hnode : g.stores node = true) :
    ∃ children, getChildren g node = .ok children ∧ ∀ x, x ∈ children ↔
      Relation.TransGen (Feeds g) node x := by
  have hrun : getChildren g node = .ok
      ((directChildren g node).foldl (visit (directChildren g) (g.getNodes.length + 1)) []) :=
    get_children_recursive_eq hg hnode List.nodup_nil (by simp) (by simp)
  refine ⟨_, hrun, fun x => ?_⟩
  have hroots : ∀ r ∈ directChildren g node, r ∈ g.getNodes :=
    children_closed hg node ((mem_get_nodes_iff hg).mpr hnode)
  have hreach : (fun a b => b ∈ directChildren g a) = Feeds g := by
    funext a b
    exact propext mem_direct_children_iff
  rw [mem_visits_iff (children_closed hg) hroots, Reach, hreach, Relation.TransGen.head'_iff]
  simp only [mem_direct_children_iff]

/-! ## The objects -/

variable {others objects : RunDataObjects ι} {data : IRunData ι} {name : String}

/-- The last object is what is left of the run data, and the others stay as they are. -/
def Leaves (others : RunDataObjects ι) (data : IRunData ι) (objects : RunDataObjects ι) : Prop :=
  ∃ data', objects = others ++ [data'] ∧
    ∀ name, data'.get? name = none ∨ data'.get? name = data.get? name

/-- The object has no entry of the name. -/
def Lacks (object : Nat) (objects : RunDataObjects ι) (name : String) : Prop :=
  (objects[object]?.getD .empty).get? name = none

theorem lacks_last (data : IRunData ι) :
    Lacks others.length (others ++ [data]) name ↔ data.get? name = none := by
  simp [Lacks]

theorem delete_entry_adds (h : Leaves others data objects) (deleted : String) :
    Leaves others data (deleteEntry objects others.length deleted) ∧
      ∀ name, Lacks others.length (deleteEntry objects others.length deleted) name ↔
        Lacks others.length objects name ∨ name = deleted := by
  obtain ⟨data', rfl, hentries⟩ := h
  have heq : deleteEntry (others ++ [data']) others.length deleted =
      others ++ [data'.delete deleted] := by
    rw [deleteEntry, List.modify_eq_take_drop]
    simp
  rw [heq]
  refine ⟨⟨_, rfl, fun name => ?_⟩, fun name => ?_⟩
  · rw [InsertionMap.get_delete]
    split
    · exact .inl rfl
    · exact hentries name
  · rw [lacks_last, lacks_last, InsertionMap.get_delete]
    by_cases h : name = deleted
    · simp [h]
    · simp [h]

theorem delete_loop_adds {α : Type} (keep : α → Prop) [DecidablePred keep] (nameOf : α → String)
    (xs : List α) (h : Leaves others data objects) :
    Leaves others data (xs.foldl (fun objects x =>
        if keep x then objects else deleteEntry objects others.length (nameOf x)) objects) ∧
      ∀ name, Lacks others.length (xs.foldl (fun objects x =>
          if keep x then objects else deleteEntry objects others.length (nameOf x)) objects) name ↔
        Lacks others.length objects name ∨ ∃ x ∈ xs, ¬ keep x ∧ name = nameOf x := by
  refine foldl_adds (Leaves others data) (Lacks others.length)
    (fun x name => ¬ keep x ∧ name = nameOf x) (fun objects h x _ => ?_) h
  by_cases hx : keep x
  · simpa [hx] using h
  · simpa [hx] using delete_entry_adds h (nameOf x)

/-- The names whose entries `cleanNode` deletes: the node, and the sources of the connections of
other types than the main one to the nodes that lead to it. -/
def CleanedFor (g : DirectedGraph) (node : INode) (name : String) : Prop :=
  name = node.name ∨ ∃ c ∈ g.connections.values, c.type ≠ .main ∧
    Relation.ReflTransGen (Feeds g) c.toNode node ∧ name = c.fromNode.name

theorem clean_node_adds (hg : WellFormed g) (hnode : g.stores node = true)
    (h : Leaves others data objects) :
    ∃ objects', cleanNode g others.length objects node = .ok objects' ∧
      Leaves others data objects' ∧ ∀ name, Lacks others.length objects' name ↔
        Lacks others.length objects name ∨ CleanedFor g node name := by
  obtain ⟨parents, hparents, hmem⟩ := get_parent_connections_eq hg hnode
  obtain ⟨hown, hownLacks⟩ := delete_entry_adds h node.name
  obtain ⟨hsub, hsubLacks⟩ := delete_loop_adds (fun c : GraphConnection => c.type = .main)
    (·.fromNode.name) parents hown
  refine ⟨_, by rw [cleanNode, hparents]; rfl, hsub, fun name => ?_⟩
  rw [hsubLacks, hownLacks, or_assoc, CleanedFor]
  refine or_congr_right (or_congr_right (exists_congr fun c => ?_))
  rw [hmem]
  tauto

/-- The node is one of those to clean or a descendant of one. -/
def Downstream (g : DirectedGraph) (nodesToClean : List INode) (node : INode) : Prop :=
  ∃ nodeToClean ∈ nodesToClean, Relation.ReflTransGen (Feeds g) nodeToClean node

theorem stores_of_leads (hg : WellFormed g) {a b : INode} (ha : g.stores a = true)
    (h : Relation.ReflTransGen (Feeds g) a b) : g.stores b = true := by
  induction h with
  | refl => exact ha
  | tail _ hstep _ =>
    obtain ⟨c, hc, _, rfl⟩ := hstep
    exact (hg.endpoints c hc).2

theorem clean_children_adds (hg : WellFormed g) (hnode : g.stores node = true)
    (h : Leaves others data objects) :
    ∃ objects', cleanChildren g others.length objects node = .ok objects' ∧
      Leaves others data objects' ∧ ∀ name, Lacks others.length objects' name ↔
        Lacks others.length objects name ∨
          ∃ d, Relation.ReflTransGen (Feeds g) node d ∧ CleanedFor g d name := by
  obtain ⟨children, hchildren, hmem⟩ := get_children_eq hg hnode
  obtain ⟨hown, hownLacks⟩ := delete_entry_adds h node.name
  have hleads : ∀ d, d ∈ node :: children ↔ Relation.ReflTransGen (Feeds g) node d := fun d => by
    rw [List.mem_cons, hmem, Relation.reflTransGen_iff_eq_or_transGen]
  obtain ⟨objects', hrun, hleaves, hlacks⟩ := foldlM_adds (Leaves others data)
    (Lacks others.length) (CleanedFor g) (fun objects h d hd =>
      clean_node_adds hg (stores_of_leads hg hnode ((hleads d).mp hd)) h) hown
  refine ⟨objects', by rw [cleanChildren, hchildren]; exact hrun, hleaves, fun name => ?_⟩
  rw [hlacks, hownLacks, or_assoc]
  refine or_congr_right ⟨?_, ?_⟩
  · rintro (rfl | ⟨d, hd, hname⟩)
    · exact ⟨node, .refl, .inl rfl⟩
    · exact ⟨d, (hleads d).mp hd, hname⟩
  · rintro ⟨d, hd, hname⟩
    exact .inr ⟨d, (hleads d).mpr hd, hname⟩

/-- `cleanRunData` returns a new object with what is left of the run data, and no other object
changes. -/
theorem clean_run_data_eq (hg : WellFormed g) {runData : Nat}
    (hdata : objects[runData]? = some data)
    {nodesToClean : List INode} (hnodes : ∀ node ∈ nodesToClean, g.stores node = true) :
    ∃ cleaned, cleanRunData g objects runData nodesToClean =
        .ok (objects ++ [cleaned], objects.length) ∧
      ∀ name runs, cleaned.get? name = some runs ↔ data.get? name = some runs ∧
        g.hasNode name = true ∧ ¬ ∃ d, Downstream g nodesToClean d ∧ CleanedFor g d name := by
  have hcopy : Leaves objects data (objects ++ [data]) := ⟨data, rfl, fun _ => .inr rfl⟩
  obtain ⟨objects', hrun, hleaves, hlacks⟩ := foldlM_adds (Leaves objects data)
    (Lacks objects.length)
    (fun node name => ∃ d, Relation.ReflTransGen (Feeds g) node d ∧ CleanedFor g d name)
    (fun _ h node hnode => clean_children_adds hg (hnodes node hnode) h) hcopy
  obtain ⟨⟨cleaned, hcleaned, hentries⟩, hall⟩ := delete_loop_adds (g.hasNode · = true) id
    (objects'[objects.length]?.getD .empty).keys hleaves
  refine ⟨cleaned, ?_, fun name runs => ?_⟩
  · rw [cleanRunData, hdata]
    show (do
      let objects' ← nodesToClean.foldlM (cleanChildren g objects.length) (objects ++ [data])
      pure (_, objects.length)) = _
    rw [hrun]
    show Except.ok (_, objects.length) = _
    rw [← hcleaned]
    rfl
  · have hlast : Lacks objects.length (objects ++ [cleaned]) name ↔ cleaned.get? name = none :=
      lacks_last cleaned
    rw [← hcleaned, hall, hlacks, lacks_last] at hlast
    have hnames : (∃ node ∈ nodesToClean, ∃ d, Relation.ReflTransGen (Feeds g) node d ∧
        CleanedFor g d name) ↔ ∃ d, Downstream g nodesToClean d ∧ CleanedFor g d name := by
      simp only [Downstream]
      tauto
    rw [hnames] at hlast
    constructor
    · intro hsome
      have hkept : ¬ cleaned.get? name = none := by simp [hsome]
      rw [← hlast, not_or, not_or] at hkept
      obtain ⟨⟨_, hnot⟩, hkeys⟩ := hkept
      have heq := (hentries name).resolve_left (by simp [hsome])
      refine ⟨heq.symm.trans hsome, ?_, hnot⟩
      by_contra hno
      -- what is not in the graph is deleted when it is still there
      refine hkeys ⟨name, InsertionMap.mem_keys_iff.mpr ?_, hno, rfl⟩
      have hthere : ¬ Lacks objects.length objects' name := by
        rw [hlacks, lacks_last, hnames, not_or]
        exact ⟨by simp [← heq, hsome], hnot⟩
      exact Option.ne_none_iff_exists'.mp hthere
    · rintro ⟨hsome, hnode, hnot⟩
      have hkept : ¬ cleaned.get? name = none := by
        rw [← hlast]
        rintro ((hnone | hcleaned) | ⟨_, _, hno, rfl⟩)
        · simp [hsome] at hnone
        · exact hnot hcleaned
        · exact hno hnode
      rw [(hentries name).resolve_left hkept, hsome]

/-! ## Stale entries -/

/-- A connection of another type than the main one attaches the first node to the second. -/
def Attaches (g : DirectedGraph) (a b : INode) : Prop :=
  ∃ c ∈ g.connections.values, c.type ≠ .main ∧ c.fromNode = a ∧ c.toNode = b

theorem attaches_feeds {a b : INode} (h : Attaches g a b) : Feeds g a b := by
  obtain ⟨c, hc, _, hfrom, hto⟩ := h
  exact ⟨c, hc, hfrom, hto⟩

/-- The node is to be cleaned, a descendant, or a sub-node that is attached to one of those. -/
def Stale (g : DirectedGraph) (nodesToClean : List INode) (node : INode) : Prop :=
  ∃ d, Downstream g nodesToClean d ∧ Relation.ReflTransGen (Attaches g) node d

/-- What is kept are exactly the entries of the nodes of the graph that are not stale. -/
def RemovesStale (g : DirectedGraph) (nodesToClean : List INode) (data cleaned : IRunData ι) :
    Prop :=
  ∀ name runs, cleaned.get? name = some runs ↔ data.get? name = some runs ∧
    ∃ node, g.stores node = true ∧ node.name = name ∧ ¬ Stale g nodesToClean node

/-- `cleanRunData` returns a new object and changes no other one. It removes exactly the stale
entries exactly when every sub-node with run data that is attached to a node upstream of the nodes
to clean and their descendants is stale itself. -/
theorem removes_stale_iff (hg : WellFormed g) {runData : Nat}
    (hdata : objects[runData]? = some data)
    {nodesToClean : List INode} (hnodes : ∀ node ∈ nodesToClean, g.stores node = true) :
    ∃ cleaned, cleanRunData g objects runData nodesToClean =
        .ok (objects ++ [cleaned], objects.length) ∧
      (RemovesStale g nodesToClean data cleaned ↔
        ∀ c ∈ g.connections.values, c.type ≠ .main →
          (∃ d, Downstream g nodesToClean d ∧ Relation.ReflTransGen (Feeds g) c.toNode d) →
          data.has c.fromNode.name = true → Stale g nodesToClean c.fromNode) := by
  obtain ⟨cleaned, hrun, hcleaned⟩ := clean_run_data_eq hg hdata hnodes
  have hunique : ∀ a b, g.stores a = true → g.stores b = true → a.name = b.name → a = b := by
    intro a b ha hb hname
    rw [stores_iff] at ha hb
    rw [hname] at ha
    exact Option.some.inj (ha.symm.trans hb)
  have hdownstream : ∀ d, Downstream g nodesToClean d → g.stores d = true := by
    rintro d ⟨node, hnode, hd⟩
    exact stores_of_leads hg (hnodes node hnode) hd
  refine ⟨cleaned, hrun, fun h c hc htype ⟨d, hd, hleads⟩ hhas => ?_, fun h name runs => ?_⟩
  · by_contra hstale
    obtain ⟨runs, hruns⟩ := Option.isSome_iff_exists.mp hhas
    have hkept := (h c.fromNode.name runs).mpr ⟨hruns, _, (hg.endpoints c hc).1, rfl, hstale⟩
    exact ((hcleaned _ _).mp hkept).2.2 ⟨d, hd, .inr ⟨c, hc, htype, hleads, rfl⟩⟩
  · rw [hcleaned]
    refine and_congr_right fun hruns => ⟨fun ⟨hnode, hnot⟩ => ?_, ?_⟩
    · obtain ⟨node, hnode⟩ := Option.isSome_iff_exists.mp hnode
      have hname := hg.named name node hnode
      have hstored : g.stores node = true := stores_iff.mpr (hname ▸ hnode)
      refine ⟨node, hstored, hname, fun ⟨d, hd, hattached⟩ => hnot ⟨d, hd, ?_⟩⟩
      -- a sub-node is the source of a connection to a node that leads to the cleaned one
      rcases hattached.cases_head with rfl | ⟨m, ⟨c, hc, htype, rfl, rfl⟩, hrest⟩
      · exact .inl hname.symm
      · refine .inr ⟨c, hc, htype, ?_, hname.symm⟩
        exact hrest.lift id fun _ _ => attaches_feeds
    · rintro ⟨node, hstored, rfl, hfresh⟩
      refine ⟨Option.isSome_iff_exists.mpr ⟨node, stores_iff.mp hstored⟩, ?_⟩
      rintro ⟨d, hd, hname | ⟨c, hc, htype, hleads, hname⟩⟩
      · rw [hunique _ _ hstored (hdownstream d hd) hname] at hfresh
        exact hfresh ⟨d, hd, .refl⟩
      · rw [hunique _ _ hstored (hg.endpoints c hc).1 hname] at hfresh
        refine hfresh (h c hc htype ⟨d, hd, hleads⟩ ?_)
        rw [← hname, InsertionMap.has, hruns]
        rfl

/-- A sub-node `s` of `a`, which is before `b`. -/
def subNodeUpstream : DirectedGraph :=
  graphOf (.create [{ name := "s" }, { name := "a" }, { name := "b" }]
    (InsertionMap.set (InsertionMap.set .empty
      "s" (InsertionMap.set .empty .aiTool [some [⟨"a", .aiTool, 0⟩]]))
      "a" (InsertionMap.set .empty .main [some [⟨"b", .main, 0⟩]])) none)

/-- Run data of some nodes. -/
def runDataOf (nodeNames : List String) : IRunData Unit :=
  nodeNames.foldl (fun runData nodeName => runData.set nodeName [{ data := none }]) .empty

/-- Cleaning `a` itself removes its sub-node. -/
theorem removes_stale_from_root : ∃ cleaned,
    cleanRunData subNodeUpstream [runDataOf ["s", "a", "b"]] 0 [{ name := "a" }] =
      .ok ([runDataOf ["s", "a", "b"]] ++ [cleaned], 1) ∧
    RemovesStale subNodeUpstream [{ name := "a" }] (runDataOf ["s", "a", "b"]) cleaned := by
  have hnodes : ∀ node ∈ [({ name := "a" } : INode)], subNodeUpstream.stores node = true := by
    decide +kernel
  obtain ⟨cleaned, hrun, hiff⟩ := removes_stale_iff (graph_of_well_formed _)
    (rfl : [runDataOf ["s", "a", "b"]][0]? = some _) hnodes
  refine ⟨cleaned, hrun, hiff.mpr fun c hc htype _ _ => ?_⟩
  have hall : ∀ c ∈ subNodeUpstream.connections.values, c.type ≠ .main →
      c.toNode = { name := "a" } := by decide +kernel
  exact ⟨{ name := "a" }, ⟨_, List.mem_singleton_self _, .refl⟩,
    .single ⟨c, hc, htype, rfl, hall c hc htype⟩⟩

/-- Cleaning `b` leaves the entry of `a` and removes that of its sub-node, which is not stale. -/
theorem fresh_sub_node_removed : WellFormed subNodeUpstream ∧
    (∃ cleaned, cleanRunData subNodeUpstream [runDataOf ["s", "a", "b"]] 0 [{ name := "b" }] =
        .ok ([runDataOf ["s", "a", "b"], cleaned], 1) ∧ cleaned.keys = ["a"] ∧
      ¬ RemovesStale subNodeUpstream [{ name := "b" }] (runDataOf ["s", "a", "b"]) cleaned) := by
  have hrun : cleanRunData subNodeUpstream [runDataOf ["s", "a", "b"]] 0 [{ name := "b" }] =
      .ok ([runDataOf ["s", "a", "b"], runDataOf ["a"]], 1) := by decide +kernel
  refine ⟨graph_of_well_formed _, _, hrun, by decide +kernel, fun h => ?_⟩
  have hgone : (runDataOf ["a"]).get? "s" = none := by decide +kernel
  have hthere : (runDataOf ["s", "a", "b"]).get? "s" = some [{ data := none }] := by decide +kernel
  have hkept := (h "s" [{ data := none }]).mpr ⟨hthere, { name := "s" }, by decide +kernel, rfl, ?_⟩
  · rw [hgone] at hkept
    cases hkept
  · -- no connection leaves `b`, and only one of the main type leads to it
    have hleaves : ∀ c ∈ subNodeUpstream.connections.values, c.fromNode ≠ { name := "b" } := by
      decide +kernel
    have hleads : ∀ c ∈ subNodeUpstream.connections.values, c.toNode = { name := "b" } →
        c.type = .main := by decide +kernel
    rintro ⟨d, ⟨node, hnode, hd⟩, hattached⟩
    cases List.mem_singleton.mp hnode
    rcases hd.cases_head with rfl | ⟨m, ⟨c, hc, hfrom, _⟩, _⟩
    · rcases hattached.cases_tail with heq | ⟨m, _, c, hc, htype, _, hto⟩
      · exact absurd heq (by decide)
      · exact htype (hleads c hc hto)
    · exact hleaves c hc hfrom

end N8n.PartialExecution
