import N8n.Collections.OrderedSet
import N8n.PartialExecution.DirectedGraph
import N8n.Workflow.ConnectedWithin

/-!
# Breadth-first search

`searchNodesBFS` of `packages/workflow/src/workflow.ts`, which always follows the connections of
type `main`. It goes through the nodes in layers and keeps what it knows of a node in the plain
object `visited`, where a name that `Object.prototype` has a property for looks visited.
-/

namespace N8n.BreadthFirst

open Collections ConnectedWithin Graph
open PartialExecution.DirectedGraph (prototypeKeys)

/-- `IConnectedNode`. -/
structure IConnectedNode where
  name : String
  indicies : List Nat
  depth : Nat
  deriving DecidableEq, Repr

/-- `dedupe(arr)`. -/
def dedupe (arr : List Nat) : List Nat := (OrderedSet.ofList arr).elems

/-- What the loop changes. The nodes of `returnConns` are objects that `visited` has too. -/
structure SearchState where
  visited : InsertionMap String IConnectedNode
  returnConns : List String
  queue : List IConnectedNode

/-- The connections of a node, as they are queued. -/
def queued (depth : Nat) (outputs : NodeInputConnections) : List IConnectedNode :=
  (outputs.flatMap (·.getD [])).map fun connection =>
    { name := connection.node, indicies := [connection.index], depth }

/-- One round of `toAdd.forEach`. -/
def visitNode (connections : IConnections) (sourceNode : String) (depth : Nat) (s : SearchState)
    (curr : IConnectedNode) : Except SearchError SearchState :=
  match s.visited.get? curr.name with
  | some node =>
    let merged := { node with indicies := dedupe (node.indicies ++ curr.indicies) }
    .ok { s with visited := s.visited.set curr.name merged }
  | none =>
    -- an inherited property is not `undefined`, but it has no `indicies`
    if curr.name ∈ prototypeKeys then .error .typeError
    else
      let visited := s.visited.set curr.name curr
      let returnConns :=
        if curr.name ≠ sourceNode then s.returnConns ++ [curr.name] else s.returnConns
      if connections.has "hasOwnProperty" then .error .typeError
      else
        match (connections.get? curr.name).bind (·.get? .main) with
        | none => .ok { visited, returnConns, queue := s.queue }
        | some outputs => .ok { visited, returnConns, queue := s.queue ++ queued depth outputs }

/-- The `while` loop, at most `fuel` rounds of it. -/
def searchLayers (connections : IConnections) (sourceNode : String) (maxDepth : Int) :
    Nat → Nat → SearchState → Except SearchError SearchState
  | 0, _, _ => .error .outOfFuel
  | fuel + 1, depth, s =>
    if s.queue = [] then .ok s
    else if maxDepth ≠ -1 ∧ maxDepth < depth then .ok s
    else do
      let s ← s.queue.foldlM (visitNode connections sourceNode (depth + 1)) { s with queue := [] }
      searchLayers connections sourceNode maxDepth fuel (depth + 1) s

/-- The queue that the search starts with. -/
def startNode (sourceNode : String) : IConnectedNode := ⟨sourceNode, [], 0⟩

/-- `searchNodesBFS(connections, sourceNode, maxDepth)`. -/
def searchNodesBFS (connections : IConnections) (sourceNode : String) (maxDepth : Int) :
    Except SearchError (List IConnectedNode) := do
  let s ← searchLayers connections sourceNode maxDepth (connections.entries.length + 2) 0
    { visited := .empty, returnConns := [], queue := [startNode sourceNode] }
  return s.returnConns.filterMap s.visited.get?

/-! ## One node -/

/-- A main connection with the index `i` leads from `u` to `x`. -/
def ArrivesOver (connections : IConnections) (u x : String) (i : Nat) : Prop :=
  ∃ outputIndex connection, connections.Has u .main outputIndex connection ∧
    connection.node = x ∧ connection.index = i

variable {connections : IConnections}

theorem connected_iff {u x : String} :
    Connected connections (.only .main) u x ↔ ∃ i, ArrivesOver connections u x i := by
  constructor
  · rintro ⟨type, outputIndex, connection, rfl, hhas, hnode⟩
    exact ⟨connection.index, outputIndex, connection, hhas, hnode, rfl⟩
  · rintro ⟨i, outputIndex, connection, hhas, hnode, -⟩
    exact ⟨.main, outputIndex, connection, rfl, hhas, hnode⟩

/-- What is queued when a node is visited. -/
def queuedFrom (connections : IConnections) (depth : Nat) (u : String) : List IConnectedNode :=
  (((connections.get? u).bind (·.get? .main)).map (queued depth)).getD []

theorem mem_queuedFrom_iff {depth : Nat} {u : String} {q : IConnectedNode} :
    q ∈ queuedFrom connections depth u ↔
      ∃ x i, ArrivesOver connections u x i ∧ q = ⟨x, [i], depth⟩ := by
  constructor
  · intro hq
    rw [queuedFrom] at hq
    cases hget : (connections.get? u).bind (·.get? .main) with
    | none => simp [hget] at hq
    | some outputs =>
      obtain ⟨ofNode, hofNode, houtputs⟩ := Option.bind_eq_some_iff.mp hget
      rw [hget, Option.map_some, Option.getD_some, queued, List.mem_map] at hq
      obtain ⟨connection, hconnection, rfl⟩ := hq
      obtain ⟨conns?, hconns, hmem⟩ := List.mem_flatMap.mp hconnection
      cases conns? with
      | none => cases hmem
      | some conns =>
        obtain ⟨j, hj⟩ := List.mem_iff_getElem?.mp hconns
        exact ⟨_, _, ⟨j, connection, ⟨ofNode, outputs, conns, hofNode, houtputs, hj, hmem⟩, rfl,
          rfl⟩, rfl⟩
  · rintro ⟨x, i, ⟨j, connection, ⟨ofNode, outputs, conns, hofNode, houtputs, hj, hmem⟩, rfl, rfl⟩,
      rfl⟩
    have hget : (connections.get? u).bind (·.get? .main) = some outputs :=
      Option.bind_eq_some_iff.mpr ⟨ofNode, hofNode, houtputs⟩
    rw [queuedFrom, hget, Option.map_some, Option.getD_some, queued, List.mem_map]
    exact ⟨connection, List.mem_flatMap.mpr ⟨some conns, List.mem_of_getElem? hj, hmem⟩, rfl⟩

/-- The state after a node is visited again. -/
def merge (s : SearchState) (curr node : IConnectedNode) : SearchState :=
  let merged := { node with indicies := dedupe (node.indicies ++ curr.indicies) }
  { s with visited := s.visited.set curr.name merged }

/-- The state after a node is visited for the first time. -/
def enter (connections : IConnections) (sourceNode : String) (depth : Nat) (s : SearchState)
    (curr : IConnectedNode) : SearchState where
  visited := s.visited.set curr.name curr
  returnConns := if curr.name ≠ sourceNode then s.returnConns ++ [curr.name] else s.returnConns
  queue := s.queue ++ queuedFrom connections depth curr.name

theorem visitNode_eq_ok_iff {sourceNode : String} {depth : Nat} {s s' : SearchState}
    {curr : IConnectedNode} :
    visitNode connections sourceNode depth s curr = .ok s' ↔
      (∃ node, s.visited.get? curr.name = some node ∧ s' = merge s curr node) ∨
      s.visited.get? curr.name = none ∧ curr.name ∉ prototypeKeys ∧
        connections.has "hasOwnProperty" = false ∧
        s' = enter connections sourceNode depth s curr := by
  rw [visitNode]
  cases s.visited.get? curr.name with
  | some node =>
    constructor
    · intro h
      cases h
      exact .inl ⟨node, rfl, rfl⟩
    · rintro (⟨node', hnode', rfl⟩ | ⟨hnone, -⟩)
      · cases hnode'
        rfl
      · cases hnone
  | none =>
    dsimp only
    have hnone : ¬ ∃ node, none = some node ∧ s' = merge s curr node := by
      rintro ⟨node, hnode, -⟩
      cases hnode
    rw [or_iff_right hnone]
    by_cases hproto : curr.name ∈ prototypeKeys
    · rw [if_pos hproto]
      exact ⟨nofun, fun h => absurd hproto h.2.1⟩
    · rw [if_neg hproto, and_iff_right rfl, and_iff_right hproto]
      cases hhas : connections.has "hasOwnProperty" with
      | true => simp
      | false =>
        rw [if_neg (by decide), and_iff_right rfl, enter, queuedFrom]
        cases hget : (connections.get? curr.name).bind (·.get? .main) with
        | none => simpa using eq_comm
        | some outputs => simpa using eq_comm

/-! ## One layer -/

section Layers

variable (connections : IConnections) (sourceNode : String)

/-- The number of connections on a shortest path from the source. -/
def Distance (x : String) (n : Nat) : Prop :=
  IsDistance (Connected connections (.only .main)) sourceNode x n

/-- The node is nearer to the source than `k` connections. -/
def Near (k : Nat) (x : String) : Prop := ∃ n < k, Distance connections sourceNode x n

/-- A connection that a search through the layers before `k - 1` has followed. -/
def Followed (k : Nat) (x : String) (i : Nat) : Prop :=
  ∃ u n, n + 1 < k ∧ Distance connections sourceNode u n ∧ ArrivesOver connections u x i

/-- An element of the queue for layer `k`. -/
def Queued (k : Nat) (q : IConnectedNode) : Prop :=
  k = 0 ∧ q = startNode sourceNode ∨
    ∃ u n x i, n + 1 = k ∧ Distance connections sourceNode u n ∧ ArrivesOver connections u x i ∧
      q = ⟨x, [i], k⟩

/-- What holds in layer `k` when the elements of `passed` are done. -/
structure Visiting (k : Nat) (passed : List IConnectedNode) (s : SearchState) : Prop where
  visited : ∀ x, x ∈ s.visited.keys ↔ Near connections sourceNode k x ∨ ∃ q ∈ passed, q.name = x
  named : ∀ x node, s.visited.get? x = some node → node.name = x
  depth : ∀ x node, s.visited.get? x = some node → Distance connections sourceNode x node.depth
  nodup : ∀ x node, s.visited.get? x = some node → node.indicies.Nodup
  indicies : ∀ x node, s.visited.get? x = some node → ∀ i, i ∈ node.indicies ↔
    Followed connections sourceNode k x i ∨ ∃ q ∈ passed, q.name = x ∧ i ∈ q.indicies
  queue : ∀ q, q ∈ s.queue ↔ ∃ p ∈ passed, ¬ Near connections sourceNode k p.name ∧
    ∃ x i, ArrivesOver connections p.name x i ∧ q = ⟨x, [i], k + 1⟩
  returned : s.returnConns = s.visited.keys.filter (· ≠ sourceNode)
  plain : ∀ x ∈ s.visited.keys, x ∉ prototypeKeys

/-- What holds when the search comes to layer `k`. -/
structure AtLayer (k : Nat) (s : SearchState) : Prop where
  before : Visiting connections sourceNode k [] { s with queue := [] }
  queue : ∀ q, q ∈ s.queue ↔ Queued connections sourceNode k q

variable {connections sourceNode} {k : Nat} {passed : List IConnectedNode} {s s' : SearchState}
  {q : IConnectedNode} {x : String}

theorem Queued.distance (h : Queued connections sourceNode k q) :
    q.depth = k ∧ q.indicies.Nodup ∧ ∃ m ≤ k, Distance connections sourceNode q.name m := by
  rcases h with ⟨rfl, rfl⟩ | ⟨u, n, x, i, rfl, hu, hedge, rfl⟩
  · exact ⟨rfl, List.nodup_nil, 0, Nat.le_refl 0, isDistance_zero_iff.mpr rfl⟩
  · exact ⟨rfl, List.nodup_singleton i, hu.edge (connected_iff.mpr ⟨i, hedge⟩)⟩

theorem Followed.near {i : Nat} (h : Followed connections sourceNode k x i) :
    Near connections sourceNode k x := by
  obtain ⟨u, n, hn, hu, hedge⟩ := h
  obtain ⟨m, hm, hdistance⟩ := hu.edge (connected_iff.mpr ⟨i, hedge⟩)
  exact ⟨m, by omega, hdistance⟩

theorem passed_snoc :
    (∃ p ∈ passed ++ [q], p.name = x) ↔ (∃ p ∈ passed, p.name = x) ∨ q.name = x := by
  simp [or_and_right, exists_or]

theorem mem_keys_of_get {m : InsertionMap String IConnectedNode} {node : IConnectedNode}
    (h : m.get? x = some node) : x ∈ m.keys :=
  InsertionMap.mem_keys_iff.mpr ⟨node, h⟩

theorem Visiting.merge (h : Visiting connections sourceNode k passed s) {node : IConnectedNode}
    (hnode : s.visited.get? q.name = some node) :
    Visiting connections sourceNode k (passed ++ [q]) (merge s q node) := by
  have hkey : q.name ∈ s.visited.keys := mem_keys_of_get hnode
  have hkeys : (BreadthFirst.merge s q node).visited.keys = s.visited.keys := by
    rw [BreadthFirst.merge, InsertionMap.keys_set, if_pos hkey]
  have hget : ∀ x found, (BreadthFirst.merge s q node).visited.get? x = some found →
      x = q.name ∧ found = { node with indicies := dedupe (node.indicies ++ q.indicies) } ∨
        x ≠ q.name ∧ s.visited.get? x = some found := by
    intro x found hfound
    rw [BreadthFirst.merge, InsertionMap.get_set] at hfound
    split at hfound
    · rename_i hx
      cases hfound
      exact .inl ⟨hx, rfl⟩
    · rename_i hx
      exact .inr ⟨hx, hfound⟩
  refine ⟨fun x => ?_, fun x found hfound => ?_, fun x found hfound => ?_, fun x found hfound => ?_,
    fun x found hfound i => ?_, fun p => ?_, ?_, ?_⟩
  · rw [hkeys, h.visited, passed_snoc, ← or_assoc]
    refine ⟨.inl, fun hx => hx.elim id ?_⟩
    rintro rfl
    exact (h.visited q.name).mp hkey
  · rcases hget x found hfound with ⟨rfl, rfl⟩ | ⟨-, hfound⟩
    · exact h.named q.name node hnode
    · exact h.named x found hfound
  · rcases hget x found hfound with ⟨rfl, rfl⟩ | ⟨-, hfound⟩
    · exact h.depth q.name node hnode
    · exact h.depth x found hfound
  · rcases hget x found hfound with ⟨rfl, rfl⟩ | ⟨-, hfound⟩
    · exact (OrderedSet.ofList _).nodup
    · exact h.nodup x found hfound
  · rcases hget x found hfound with ⟨rfl, rfl⟩ | ⟨hx, hfound⟩
    · simp only [dedupe, OrderedSet.mem_elems, OrderedSet.mem_ofList, List.mem_append,
        h.indicies q.name node hnode i]
      simp [or_and_right, exists_or, or_assoc]
    · rw [h.indicies x found hfound i]
      simp [or_and_right, exists_or, Ne.symm hx]
  · -- what is queued from a node is queued when it is visited for the first time
    rw [show (BreadthFirst.merge s q node).queue = s.queue from rfl, h.queue]
    constructor
    · rintro ⟨p', hp', hnear⟩
      exact ⟨p', List.mem_append_left _ hp', hnear⟩
    · rintro ⟨p', hp', hfar, hfollows⟩
      rcases List.mem_append.mp hp' with hp' | hp'
      · exact ⟨p', hp', hfar, hfollows⟩
      · rw [List.mem_singleton.mp hp'] at hfar hfollows
        obtain ⟨first, hfirst, hname⟩ := ((h.visited q.name).mp hkey).resolve_left hfar
        exact ⟨first, hfirst, hname ▸ hfar, hname ▸ hfollows⟩
  · rw [hkeys]
    exact h.returned
  · rw [hkeys]
    exact h.plain

theorem Visiting.enter (h : Visiting connections sourceNode k passed s)
    (hq : Queued connections sourceNode k q) (hnew : s.visited.get? q.name = none)
    (hproto : q.name ∉ prototypeKeys) :
    Visiting connections sourceNode k (passed ++ [q])
      (enter connections sourceNode (k + 1) s q) := by
  have hkey : q.name ∉ s.visited.keys := fun hmem => by
    obtain ⟨node, hnode⟩ := InsertionMap.mem_keys_iff.mp hmem
    rw [hnew] at hnode
    cases hnode
  obtain ⟨hfar, hfresh⟩ := not_or.mp (mt (h.visited q.name).mpr hkey)
  have hkeys : (BreadthFirst.enter connections sourceNode (k + 1) s q).visited.keys =
      s.visited.keys ++ [q.name] := by
    rw [BreadthFirst.enter, InsertionMap.keys_set, if_neg hkey]
  have hget : ∀ x found,
      (BreadthFirst.enter connections sourceNode (k + 1) s q).visited.get? x = some found →
      x = q.name ∧ found = q ∨ x ≠ q.name ∧ s.visited.get? x = some found := by
    intro x found hfound
    rw [BreadthFirst.enter, InsertionMap.get_set] at hfound
    split at hfound
    · rename_i hx
      cases hfound
      exact .inl ⟨hx, rfl⟩
    · rename_i hx
      exact .inr ⟨hx, hfound⟩
  obtain ⟨hdepth, hnodup, m, hm, hdistance⟩ := hq.distance
  -- the node is not nearer than its layer
  have hlayer : m = k := Nat.le_antisymm hm (Nat.le_of_not_lt fun hlt => hfar ⟨m, hlt, hdistance⟩)
  refine ⟨fun x => ?_, fun x found hfound => ?_, fun x found hfound => ?_, fun x found hfound => ?_,
    fun x found hfound i => ?_, fun p => ?_, ?_, fun x hx => ?_⟩
  · rw [hkeys, List.mem_append, h.visited, passed_snoc, List.mem_singleton, or_assoc,
      eq_comm (a := x)]
  · rcases hget x found hfound with ⟨rfl, rfl⟩ | ⟨-, hfound⟩
    · rfl
    · exact h.named x found hfound
  · rcases hget x found hfound with ⟨rfl, rfl⟩ | ⟨-, hfound⟩
    · rw [hdepth, ← hlayer]
      exact hdistance
    · exact h.depth x found hfound
  · rcases hget x found hfound with ⟨rfl, rfl⟩ | ⟨-, hfound⟩
    · exact hnodup
    · exact h.nodup x found hfound
  · rcases hget x found hfound with ⟨rfl, rfl⟩ | ⟨hx, hfound⟩
    · constructor
      · exact fun hi => .inr ⟨found, by simp, rfl, hi⟩
      · rintro (hfollowed | ⟨p, hp, hname, hi⟩)
        · exact absurd hfollowed.near hfar
        · rcases List.mem_append.mp hp with hp | hp
          · exact absurd ⟨p, hp, hname⟩ hfresh
          · rwa [List.mem_singleton.mp hp] at hi
    · rw [h.indicies x found hfound i]
      simp [or_and_right, exists_or, Ne.symm hx]
  · rw [BreadthFirst.enter, List.mem_append, h.queue, mem_queuedFrom_iff]
    simp only [List.mem_append, List.mem_singleton, or_and_right, exists_or, exists_eq_left]
    rw [and_iff_right hfar]
  · rw [hkeys, List.filter_append, ← h.returned, BreadthFirst.enter]
    by_cases hname : q.name = sourceNode <;> simp [hname]
  · rw [hkeys, List.mem_append, List.mem_singleton] at hx
    rcases hx with hx | rfl
    · exact h.plain x hx
    · exact hproto

theorem Visiting.step (h : Visiting connections sourceNode k passed s)
    (hq : Queued connections sourceNode k q)
    (hstep : visitNode connections sourceNode (k + 1) s q = .ok s') :
    Visiting connections sourceNode k (passed ++ [q]) s' := by
  rcases visitNode_eq_ok_iff.mp hstep with ⟨node, hnode, rfl⟩ | ⟨hnew, hproto, -, rfl⟩
  · exact h.merge hnode
  · exact h.enter hq hnew hproto

theorem AtLayer.near_succ (h : AtLayer connections sourceNode k s) :
    Near connections sourceNode (k + 1) x ↔
      Near connections sourceNode k x ∨ ∃ q ∈ s.queue, q.name = x := by
  constructor
  · rintro ⟨n, hn, hdistance⟩
    rcases Nat.lt_succ_iff_lt_or_eq.mp hn with hlt | rfl
    · exact .inl ⟨n, hlt, hdistance⟩
    · refine .inr ?_
      cases n with
      | zero => exact ⟨startNode sourceNode, (h.queue _).mpr (.inl ⟨rfl, rfl⟩),
          (isDistance_zero_iff.mp hdistance).symm⟩
      | succ n =>
        obtain ⟨u, hu, hedge⟩ := hdistance.pred
        obtain ⟨i, hi⟩ := connected_iff.mp hedge
        exact ⟨⟨x, [i], n + 1⟩, (h.queue _).mpr (.inr ⟨u, n, x, i, rfl, hu, hi, rfl⟩), rfl⟩
  · rintro (⟨n, hn, hdistance⟩ | ⟨q, hq, rfl⟩)
    · exact ⟨n, by omega, hdistance⟩
    · obtain ⟨-, -, m, hm, hdistance⟩ := ((h.queue q).mp hq).distance
      exact ⟨m, by omega, hdistance⟩

theorem AtLayer.followed_succ (h : AtLayer connections sourceNode k s) {i : Nat} :
    Followed connections sourceNode (k + 1) x i ↔
      Followed connections sourceNode k x i ∨ ∃ q ∈ s.queue, q.name = x ∧ i ∈ q.indicies := by
  constructor
  · rintro ⟨u, n, hn, hu, hedge⟩
    rcases Nat.lt_succ_iff_lt_or_eq.mp hn with hlt | heq
    · exact .inl ⟨u, n, hlt, hu, hedge⟩
    · exact .inr ⟨⟨x, [i], k⟩, (h.queue _).mpr (.inr ⟨u, n, x, i, heq, hu, hedge, rfl⟩), rfl,
        by simp⟩
  · rintro (⟨u, n, hn, hu, hedge⟩ | ⟨q, hq, rfl, hi⟩)
    · exact ⟨u, n, by omega, hu, hedge⟩
    · rcases (h.queue q).mp hq with ⟨-, rfl⟩ | ⟨u, n, x, j, hn, hu, hedge, rfl⟩
      · cases hi
      · rw [List.mem_singleton.mp hi]
        exact ⟨u, n, by omega, hu, hedge⟩

theorem AtLayer.next (h : AtLayer connections sourceNode k s)
    (hfold : s.queue.foldlM (visitNode connections sourceNode (k + 1)) { s with queue := [] } =
      .ok s') : AtLayer connections sourceNode (k + 1) s' := by
  have hdone : Visiting connections sourceNode k s.queue s' := by
    refine foldlM_along (Visiting connections sourceNode k) h.before ?_ hfold
    intro pre q m m' hpre hm hstep
    exact hm.step ((h.queue q).mp (hpre.subset (by simp))) hstep
  refine ⟨⟨fun x => ?_, hdone.named, hdone.depth, hdone.nodup, fun x node hnode i => ?_, ?_,
    hdone.returned, hdone.plain⟩, fun q => ?_⟩
  · rw [h.near_succ]
    simpa using hdone.visited x
  · rw [h.followed_succ]
    simpa using hdone.indicies x node hnode i
  · simp
  · rw [hdone.queue, Queued]
    constructor
    · rintro ⟨p, hp, hfar, x, i, hedge, rfl⟩
      obtain ⟨-, -, m, hm, hdistance⟩ := ((h.queue p).mp hp).distance
      have hlayer : m = k :=
        Nat.le_antisymm hm (Nat.le_of_not_lt fun hlt => hfar ⟨m, hlt, hdistance⟩)
      exact .inr ⟨p.name, m, x, i, by omega, hdistance, hedge, rfl⟩
    · rintro (⟨hzero, -⟩ | ⟨u, n, x, i, hn, hu, hedge, rfl⟩)
      · omega
      · obtain rfl : n = k := by omega
        have hfar : ¬ Near connections sourceNode n u := fun ⟨m, hm, hdistance⟩ =>
          absurd (hu.unique hdistance) (by omega)
        obtain ⟨p, hp, rfl⟩ := (h.near_succ.mp ⟨n, by omega, hu⟩).resolve_left hfar
        exact ⟨p, hp, hfar, x, i, hedge, rfl⟩

theorem exists_layer (hplain : connections.has "hasOwnProperty" = false) (depth : Nat)
    {l : List IConnectedNode} (hproto : ∀ q ∈ l, q.name ∉ prototypeKeys) (s : SearchState) :
    ∃ s', l.foldlM (visitNode connections sourceNode depth) s = .ok s' := by
  induction l generalizing s with
  | nil => exact ⟨s, rfl⟩
  | cons q l ih =>
    have hround : ∃ s', visitNode connections sourceNode depth s q = .ok s' := by
      cases hget : s.visited.get? q.name with
      | some node => exact ⟨_, visitNode_eq_ok_iff.mpr (.inl ⟨node, hget, rfl⟩)⟩
      | none => exact ⟨_, visitNode_eq_ok_iff.mpr
          (.inr ⟨hget, hproto q (by simp), hplain, rfl⟩)⟩
    obtain ⟨s', hs'⟩ := hround
    rw [List.foldlM_cons, hs']
    exact ih (fun q hq => hproto q (by simp [hq])) s'

theorem atLayer_start (connections : IConnections) (sourceNode : String) :
    AtLayer connections sourceNode 0 ⟨.empty, [], [startNode sourceNode]⟩ := by
  have hnear : ∀ x, ¬ Near connections sourceNode 0 x := fun x ⟨n, hn, _⟩ => by omega
  refine ⟨⟨fun x => ?_, ?_, ?_, ?_, ?_, ?_, rfl, ?_⟩, fun q => ?_⟩
  · simp [hnear, InsertionMap.keys]
  · simp
  · simp
  · simp
  · simp
  · simp
  · simp [InsertionMap.keys]
  · simp [Queued]

end Layers

/-! ## The whole search -/

/-- The search has ended at layer `k`. -/
structure Ended (connections : IConnections) (sourceNode : String) (limit : Option Nat) (k : Nat)
    (s : SearchState) : Prop where
  layer : AtLayer connections sourceNode k s
  bound : ∀ d ∈ limit, k ≤ d + 1
  done : s.queue = [] ∨ ∃ d ∈ limit, k = d + 1

theorem beyond_iff {limit : Option Nat} {k : Nat} :
    depthOf limit ≠ -1 ∧ depthOf limit < k ↔ ∃ d ∈ limit, d < k := by
  cases limit with
  | none => simp [depthOf]
  | some d =>
    simp only [depthOf, Option.mem_some_iff, exists_eq_left']
    omega

variable {connections : IConnections} {sourceNode : String} {limit : Option Nat} {k : Nat}
  {s s' : SearchState} {x : String}

theorem searchLayers_succ (hqueue : s.queue ≠ []) (hbound : ¬ ∃ d ∈ limit, d < k) (fuel : Nat) :
    searchLayers connections sourceNode (depthOf limit) (fuel + 1) k s =
      (s.queue.foldlM (visitNode connections sourceNode (k + 1)) { s with queue := [] }) >>=
        searchLayers connections sourceNode (depthOf limit) fuel (k + 1) := by
  rw [searchLayers, if_neg hqueue, if_neg (mt beyond_iff.mp hbound)]

theorem searchLayers_ended {fuel : Nat} (h : AtLayer connections sourceNode k s)
    (hbound : ∀ d ∈ limit, k ≤ d + 1)
    (hsearch : searchLayers connections sourceNode (depthOf limit) fuel k s = .ok s') :
    ∃ k', Ended connections sourceNode limit k' s' := by
  induction fuel generalizing k s with
  | zero => cases hsearch
  | succ fuel ih =>
    by_cases hqueue : s.queue = []
    · rw [searchLayers, if_pos hqueue] at hsearch
      cases hsearch
      exact ⟨k, h, hbound, .inl hqueue⟩
    · by_cases hbeyond : ∃ d ∈ limit, d < k
      · rw [searchLayers, if_neg hqueue, if_pos (beyond_iff.mpr hbeyond)] at hsearch
        cases hsearch
        obtain ⟨d, hd, hlt⟩ := hbeyond
        exact ⟨k, h, hbound, .inr ⟨d, hd, Nat.le_antisymm (hbound d hd) hlt⟩⟩
      · rw [searchLayers_succ hqueue hbeyond] at hsearch
        obtain ⟨middle, hlayer, hrest⟩ := bind_eq_ok.mp hsearch
        refine ih (h.next hlayer) (fun d hd => ?_) hrest
        exact Nat.succ_le_succ (Nat.le_of_not_lt fun hlt => hbeyond ⟨d, hd, hlt⟩)

theorem AtLayer.le_length (h : AtLayer connections sourceNode k s) (hqueue : s.queue ≠ []) :
    k ≤ connections.entries.length := by
  obtain ⟨q, hq⟩ := List.exists_mem_of_ne_nil _ hqueue
  rcases (h.queue q).mp hq with ⟨rfl, -⟩ | ⟨u, n, x, i, rfl, hu, hedge, -⟩
  · exact Nat.zero_le _
  · have hkeys : ∀ a b, Connected connections (.only .main) a b → a ∈ connections.keys := by
      rintro a b ⟨type, j, connection, -, ⟨ofNode, outputs, conns, hofNode, -⟩, -⟩
      exact InsertionMap.mem_keys_iff.mpr ⟨ofNode, hofNode⟩
    have hlt := hu.lt_length hkeys (connected_iff.mpr ⟨i, hedge⟩)
    rwa [InsertionMap.keys, List.length_map] at hlt

theorem exists_search {fuel : Nat} (hplain : connections.has "hasOwnProperty" = false)
    (hproto : ∀ x n, Within limit n → Reaches connections (.only .main) n sourceNode x →
      x ∉ prototypeKeys)
    (h : AtLayer connections sourceNode k s) (hk : k ≤ connections.entries.length + 1)
    (hfuel : connections.entries.length + 2 = fuel + k) :
    ∃ s', searchLayers connections sourceNode (depthOf limit) fuel k s = .ok s' := by
  induction fuel generalizing k s with
  | zero => omega
  | succ fuel ih =>
    by_cases hqueue : s.queue = []
    · exact ⟨s, by rw [searchLayers, if_pos hqueue]⟩
    · by_cases hbeyond : ∃ d ∈ limit, d < k
      · exact ⟨s, by rw [searchLayers, if_neg hqueue, if_pos (beyond_iff.mpr hbeyond)]⟩
      · have hnames : ∀ q ∈ s.queue, q.name ∉ prototypeKeys := by
          intro q hq
          obtain ⟨-, -, m, hm, hdistance⟩ := ((h.queue q).mp hq).distance
          refine hproto q.name m (fun d hd => ?_) hdistance.1
          exact Nat.le_trans hm (Nat.le_of_not_lt fun hlt => hbeyond ⟨d, hd, hlt⟩)
        obtain ⟨middle, hlayer⟩ : ∃ middle, s.queue.foldlM
            (visitNode connections sourceNode (k + 1)) { s with queue := [] } = .ok middle :=
          exists_layer hplain (k + 1) hnames { s with queue := [] }
        rw [searchLayers_succ hqueue hbeyond, hlayer]
        have hle := h.le_length hqueue
        exact ih (h.next hlayer) (by omega) (by omega)

theorem Ended.near_iff (h : Ended connections sourceNode limit k s) :
    (∃ n, Within limit n ∧ Reaches connections (.only .main) n sourceNode x) ↔
      Near connections sourceNode k x := by
  constructor
  · rintro ⟨n, hn, hwalk⟩
    obtain ⟨m, hm, hdistance⟩ := exists_distance hwalk
    refine ⟨m, Nat.lt_of_not_le fun hle => ?_, hdistance⟩
    rcases h.done with hqueue | ⟨d, hd, rfl⟩
    · -- a node of the layer would be in the queue
      obtain ⟨c, hc⟩ := hdistance.on_the_way hle
      rcases h.layer.near_succ.mp ⟨k, Nat.lt_succ_self k, hc⟩ with ⟨l, hl, hdistance'⟩ | ⟨q, hq, -⟩
      · exact absurd (hc.unique hdistance') (by omega)
      · rw [hqueue] at hq
        cases hq
    · exact absurd (hn d hd) (by omega)
  · rintro ⟨n, hn, hdistance⟩
    refine ⟨n, fun d hd => ?_, hdistance.1⟩
    have := h.bound d hd
    omega

theorem Ended.followed_iff (h : Ended connections sourceNode limit k s) {i : Nat} :
    Followed connections sourceNode k x i ↔ ∃ u n, Within limit (n + 1) ∧
      Reaches connections (.only .main) n sourceNode u ∧ ArrivesOver connections u x i := by
  constructor
  · rintro ⟨u, n, hn, hu, hedge⟩
    refine ⟨u, n, fun d hd => ?_, hu.1, hedge⟩
    have := h.bound d hd
    omega
  · rintro ⟨u, n, hn, hwalk, hedge⟩
    obtain ⟨m, hm, hdistance⟩ := exists_distance hwalk
    refine ⟨u, m, ?_, hdistance, hedge⟩
    rcases h.done with hqueue | ⟨d, hd, rfl⟩
    · obtain ⟨l, hl, hdistance'⟩ := h.near_iff.mp ⟨n, hn.mono (Nat.le_succ n), hwalk⟩
      have heq := hdistance.unique hdistance'
      refine Nat.lt_of_le_of_ne (by omega) fun hlast => ?_
      have hmem : (⟨x, [i], k⟩ : IConnectedNode) ∈ s.queue :=
        (h.layer.queue _).mpr (.inr ⟨u, m, x, i, hlast, hdistance, hedge, rfl⟩)
      rw [hqueue] at hmem
      cases hmem
    · have := hn d hd
      omega

/-- What a breadth-first search is to return: every other node within the limit once, with its
distance and the indexes of the connections that lead to it from nodes before the limit. -/
structure IsSearchResult (connections : IConnections) (sourceNode : String) (limit : Option Nat)
    (result : List IConnectedNode) : Prop where
  once : (result.map (·.name)).Nodup
  nodes : ∀ x, x ∈ result.map (·.name) ↔
    x ≠ sourceNode ∧ ∃ n, Within limit n ∧ Reaches connections (.only .main) n sourceNode x
  depth : ∀ node ∈ result, Distance connections sourceNode node.name node.depth
  indiciesOnce : ∀ node ∈ result, node.indicies.Nodup
  indicies : ∀ node ∈ result, ∀ i, i ∈ node.indicies ↔ ∃ u n, Within limit (n + 1) ∧
    Reaches connections (.only .main) n sourceNode u ∧ ArrivesOver connections u node.name i

theorem Ended.names (h : Ended connections sourceNode limit k s) :
    (s.returnConns.filterMap s.visited.get?).map (·.name) = s.returnConns := by
  have hgen : ∀ l : List String, l ⊆ s.visited.keys →
      (l.filterMap s.visited.get?).map (·.name) = l := by
    intro l hl
    induction l with
    | nil => rfl
    | cons x l ih =>
      obtain ⟨node, hnode⟩ := InsertionMap.mem_keys_iff.mp (hl List.mem_cons_self)
      rw [List.filterMap_cons_some hnode, List.map_cons, h.layer.before.named x node hnode,
        ih (fun y hy => hl (List.mem_cons_of_mem x hy))]
  refine hgen _ fun x hx => ?_
  have hreturned : s.returnConns = s.visited.keys.filter (· ≠ sourceNode) := h.layer.before.returned
  rw [hreturned] at hx
  exact List.mem_of_mem_filter hx

theorem Ended.result (h : Ended connections sourceNode limit k s) :
    IsSearchResult connections sourceNode limit (s.returnConns.filterMap s.visited.get?) := by
  have hreturned : s.returnConns = s.visited.keys.filter (· ≠ sourceNode) := h.layer.before.returned
  have hnode : ∀ node ∈ s.returnConns.filterMap s.visited.get?,
      s.visited.get? node.name = some node := by
    intro node hmem
    obtain ⟨x, -, hget⟩ := List.mem_filterMap.mp hmem
    rwa [h.layer.before.named x node hget]
  refine ⟨?_, fun x => ?_, fun node hmem => ?_, fun node hmem => ?_, fun node hmem i => ?_⟩
  · rw [h.names, hreturned]
    exact s.visited.nodup.filter _
  · rw [h.names, hreturned, List.mem_filter, h.near_iff, and_comm]
    have hvisited := h.layer.before.visited x
    simp only [List.not_mem_nil, false_and, exists_false, or_false] at hvisited
    rw [← hvisited]
    simp
  · exact h.layer.before.depth _ node (hnode node hmem)
  · exact h.layer.before.nodup _ node (hnode node hmem)
  · rw [← h.followed_iff]
    simpa using h.layer.before.indicies _ node (hnode node hmem) i

/-- The search ends exactly when nothing hides `hasOwnProperty` and no name within the limit, that
of the source included, is that of an inherited property. It then returns what it is to return. -/
theorem breadth_first_iff (connections : IConnections) (sourceNode : String) (limit : Option Nat) :
    (∃ result, searchNodesBFS connections sourceNode (depthOf limit) = .ok result ∧
      IsSearchResult connections sourceNode limit result) ↔
      connections.has "hasOwnProperty" = false ∧ ∀ x n, Within limit n →
        Reaches connections (.only .main) n sourceNode x → x ∉ prototypeKeys := by
  have hstart := atLayer_start connections sourceNode
  constructor
  · rintro ⟨result, hsearch, -⟩
    obtain ⟨s, hlayers, -⟩ := bind_eq_ok.mp hsearch
    obtain ⟨k, hended⟩ := searchLayers_ended hstart (fun d _ => Nat.zero_le _) hlayers
    refine ⟨?_, fun x n hn hwalk => hended.layer.before.plain x ?_⟩
    · -- the first node asks for the property
      rw [searchLayers_succ (by simp) (by simp)] at hlayers
      obtain ⟨middle, hfold, -⟩ := bind_eq_ok.mp hlayers
      obtain ⟨s', hvisit, -⟩ := bind_eq_ok.mp hfold
      rcases visitNode_eq_ok_iff.mp hvisit with ⟨node, hnode, -⟩ | ⟨-, -, hplain, -⟩
      · simp at hnode
      · exact hplain
    · exact (hended.layer.before.visited x).mpr (.inl (hended.near_iff.mp ⟨n, hn, hwalk⟩))
  · rintro ⟨hplain, hproto⟩
    obtain ⟨s, hlayers⟩ := exists_search hplain hproto hstart (Nat.zero_le _) rfl
    obtain ⟨k, hended⟩ := searchLayers_ended hstart (fun d _ => Nat.zero_le _) hlayers
    refine ⟨_, ?_, hended.result⟩
    rw [searchNodesBFS, hlayers]
    rfl

/-- A connection from `a` to a node named like a property that every object inherits. -/
def inheritedName : IConnections :=
  .set .empty "a" (.set .empty .main [some [⟨"constructor", .main, 0⟩]])

/-- The search takes the node for visited and fails on its missing list. -/
theorem inherited_name_fails :
    searchNodesBFS inheritedName "a" (depthOf none) = .error .typeError ∧
      ¬ ∃ result, searchNodesBFS inheritedName "a" (depthOf none) = .ok result := by
  have hfails : searchNodesBFS inheritedName "a" (depthOf none) = .error .typeError := by
    decide +kernel
  refine ⟨hfails, ?_⟩
  rw [hfails]
  rintro ⟨result, hresult⟩
  cases hresult

end N8n.BreadthFirst
