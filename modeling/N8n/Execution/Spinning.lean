import Mathlib.Data.List.Chain
import N8n.Execution.Iteration

/-!
# The loop and items without input data

An item whose node lacks input data goes back to the end of the stack, and the loop remembers its
node and run only until the next item. `never_spins_iff` says when the loop stops with such items:
exactly when two neighbours on the stack, in the order in which they come up again and again, are
tries of the same run.
-/

namespace N8n.Execution

open Collections

variable {ι : Type}

section Rotation

variable {κ : Type}

/-- Neighbours are distinct in the order in which the elements of a list come up when each one goes
to its end, after `last`. -/
def ApartInTurn (last : κ) (keys : List κ) : Prop :=
  keys ≠ [] ∧ (last :: (keys ++ keys.take 1)).IsChain (· ≠ ·)

/-- The first elements of a list go to its end, each one unless it is the same as the one before. -/
def TurnsOver : Nat → κ → List κ → Prop
  | 0, _, _ => True
  | _ + 1, _, [] => False
  | n + 1, last, key :: rest => last ≠ key ∧ TurnsOver n key (rest ++ [key])

theorem ApartInTurn.next {last key : κ} {rest : List κ} (h : ApartInTurn last (key :: rest)) :
    last ≠ key ∧ ApartInTurn key (rest ++ [key]) := by
  obtain ⟨-, hchain⟩ := h
  rw [List.take_succ_cons, List.take_zero, List.cons_append] at hchain
  have hfirst := List.isChain_cons_cons.mp hchain
  refine ⟨hfirst.1, by simp, ?_⟩
  cases rest with
  | nil => exact absurd rfl (List.isChain_cons_cons.mp hfirst.2).1
  | cons next rest =>
    have hnext := (List.isChain_cons_cons.mp hfirst.2).1
    have hturn : (key :: next :: rest ++ [key]) ++ [next] =
        key :: ((next :: rest ++ [key]) ++ (next :: rest ++ [key]).take 1) := rfl
    rw [← hturn, List.isChain_append]
    refine ⟨hfirst.2, by simp, ?_⟩
    intro x hx y hy
    rw [List.getLast?_append] at hx
    simp only [List.getLast?_singleton, Option.some_or, Option.mem_def, Option.some.injEq,
      List.head?_cons] at hx hy
    exact hx ▸ hy ▸ hnext

theorem ApartInTurn.turnsOver {last : κ} {keys : List κ} (h : ApartInTurn last keys) (n : Nat) :
    TurnsOver n last keys := by
  induction n generalizing last keys with
  | zero => trivial
  | succ n ih =>
    cases keys with
    | nil => exact h.1 rfl
    | cons key rest => exact ⟨h.next.1, ih h.next.2⟩

theorem isChain_of_turnsOver {first rest : List κ} {last : κ}
    (h : TurnsOver first.length last (first ++ rest)) : (last :: first).IsChain (· ≠ ·) := by
  induction first generalizing last rest with
  | nil => exact List.isChain_singleton _
  | cons key first ih =>
    rw [List.cons_append] at h
    obtain ⟨hne, hnext⟩ := h
    rw [List.append_assoc] at hnext
    exact List.isChain_cons_cons.mpr ⟨hne, ih hnext⟩

theorem TurnsOver.mono {m n : Nat} {last : κ} {keys : List κ} (h : TurnsOver n last keys)
    (hle : m ≤ n) : TurnsOver m last keys := by
  induction m generalizing n last keys with
  | zero => trivial
  | succ m ih =>
    cases n with
    | zero => exact absurd hle (Nat.not_succ_le_zero m)
    | succ n =>
      cases keys with
      | nil => exact h.elim
      | cons key rest => exact ⟨h.1, ih h.2 (Nat.le_of_succ_le_succ hle)⟩

theorem apartInTurn_of_turnsOver {last : κ} {keys : List κ} {n : Nat} (hn : keys.length < n)
    (h : TurnsOver n last keys) : ApartInTurn last keys := by
  have hturns := h.mono (Nat.succ_le_of_lt hn)
  cases keys with
  | nil => exact hturns.elim
  | cons key rest =>
    obtain ⟨hne, hnext⟩ := hturns
    have hlength : (key :: rest).length = (rest ++ [key]).length := by simp
    rw [hlength] at hnext
    have hchain : (key :: (rest ++ [key])).IsChain (· ≠ ·) := by
      refine @isChain_of_turnsOver κ (rest ++ [key]) [] key ?_
      rwa [List.append_nil]
    exact ⟨by simp, List.isChain_cons_cons.mpr ⟨hne, hchain⟩⟩

end Rotation

section PushedBack

variable (e : Engine ι)

/-- `ensureInputData` pushes the item back when it is taken from the stack. -/
def Lacks (item : IExecuteData ι) : Prop :=
  ∃ data node, pairInputs e.items item.data = .ok data ∧ item.node = some node ∧
    isFilteredOut e node = false ∧ hasInputData e.workflow node.name item.data = .ok false

/-- What the loop compares for an item of the stack. -/
def itemTry (s : LoopState ι) (item : IExecuteData ι) : String :=
  (item.node.map (executionTry s)).getD ""

/-- An iteration in which `ensureInputData` pushes the item back. -/
def PushesBack (s s' : LoopState ι) : Prop :=
  ∃ item rest data, s.data.nodeExecutionStack = item :: rest ∧ Lacks e item ∧
    pairInputs e.items item.data = .ok data ∧ itemTry s item ≠ s.lastExecutionTry ∧
    s' = { data := { s.data with nodeExecutionStack := rest ++ [{ item with data := data }] }
           lastExecutionTry := itemTry s item }

/-- Iterations in a row in which items are pushed back. -/
inductive PushBacks : Nat → LoopState ι → LoopState ι → Prop where
  | none (s : LoopState ι) : PushBacks 0 s s
  | next {n : Nat} {s s' s'' : LoopState ι} (first : PushesBack e s s')
      (rest : PushBacks n s' s'') : PushBacks (n + 1) s s''

/-- The error that stops the loop. -/
def endlessLoopError : ExecutionError :=
  .applicationError "Stopped execution because it seems to be in an endless loop"

/-- The claim on items that lack data: there is a bound on the iterations in a row in which they are
pushed back, and when all items on the stack lack data, the loop stops with an error. -/
def NeverSpins (s : LoopState ι) : Prop :=
  (∃ n, ∀ s', ¬ PushBacks e n s s') ∧
    (s.data.nodeExecutionStack ≠ [] → (∀ item ∈ s.data.nodeExecutionStack, Lacks e item) →
      ∃ n, ∀ ticks : List (Tick ι), n ≤ ticks.length → (∀ tick ∈ ticks, tick.canceled = false) →
        executionLoop e s ticks = .error endlessLoopError)

/-- All items on the stack lack data, and no two neighbours in the order in which they come up again
and again are tries of the same run. -/
def Circulates (s : LoopState ι) : Prop :=
  (∀ item ∈ s.data.nodeExecutionStack, Lacks e item) ∧
    ApartInTurn s.lastExecutionTry (s.data.nodeExecutionStack.map (itemTry s))

variable {e} {s s' : LoopState ι} {item : IExecuteData ι} {rest : List (IExecuteData ι)}

theorem iterate_lacks {tick : Tick ι} (hcanceled : tick.canceled = false) (hlacks : Lacks e item)
    {data : ITaskDataConnections ι} (hdata : pairInputs e.items item.data = .ok data) :
    iterate e s tick item rest =
      if itemTry s item = s.lastExecutionTry then .error endlessLoopError
      else .ok (.next
        { data := { s.data with nodeExecutionStack := rest ++ [{ item with data := data }] }
          lastExecutionTry := itemTry s item }) := by
  obtain ⟨data', node, hdata', hnode, hfiltered, hhas⟩ := hlacks
  rw [hdata] at hdata'
  cases hdata'
  rw [← has_input_data_paired hdata] at hhas
  have htry : itemTry s item = executionTry s node := by rw [itemTry, hnode]; rfl
  rw [iterate, if_neg (by rw [hcanceled]; exact Bool.false_ne_true), hdata, htry]
  simp only [hnode, bind, Except.bind, runItem, hhas, hfiltered]
  change (if executionTry s node = s.lastExecutionTry then _ else _) = _
  split <;> rfl

theorem Lacks.again (hlacks : Lacks e item) {data : ITaskDataConnections ι}
    (hdata : pairInputs e.items item.data = .ok data) : Lacks e { item with data := data } := by
  obtain ⟨data', node, -, hnode, hfiltered, hhas⟩ := hlacks
  obtain ⟨data'', hdata''⟩ := pair_inputs_again hdata
  exact ⟨data'', node, hdata'', hnode, hfiltered, (has_input_data_paired hdata _ _).trans hhas⟩

/-- The state after an item was pushed back. -/
def afterPush (s : LoopState ι) (item : IExecuteData ι) (rest : List (IExecuteData ι))
    (data : ITaskDataConnections ι) : LoopState ι where
  data := { s.data with nodeExecutionStack := rest ++ [{ item with data := data }] }
  lastExecutionTry := itemTry s item

theorem tries_afterPush (data : ITaskDataConnections ι) :
    (afterPush s item rest data).data.nodeExecutionStack.map
        (itemTry (afterPush s item rest data)) =
      rest.map (itemTry s) ++ [itemTry s item] := by
  rw [afterPush, List.map_append]
  rfl

theorem lacks_afterPush {data : ITaskDataConnections ι}
    (hlacks : ∀ other ∈ item :: rest, Lacks e other)
    (hdata : pairInputs e.items item.data = .ok data) :
    ∀ other ∈ (afterPush s item rest data).data.nodeExecutionStack, Lacks e other := by
  intro other hother
  rcases List.mem_append.mp hother with hrest | hlast
  · exact hlacks other (List.mem_cons_of_mem _ hrest)
  · rw [List.mem_singleton.mp hlast]
    exact (hlacks item List.mem_cons_self).again hdata

theorem pushBacks_iff_of_lacks (hlacks : ∀ item ∈ s.data.nodeExecutionStack, Lacks e item)
    (n : Nat) : (∃ s', PushBacks e n s s') ↔
      TurnsOver n s.lastExecutionTry (s.data.nodeExecutionStack.map (itemTry s)) := by
  induction n generalizing s with
  | zero => exact ⟨fun _ => trivial, fun _ => ⟨s, .none s⟩⟩
  | succ n ih =>
    cases hstack : s.data.nodeExecutionStack with
    | nil =>
      refine ⟨?_, False.elim⟩
      rintro ⟨s', hpushed⟩
      cases hpushed with
      | next first rest =>
        obtain ⟨item, rest, _, hcons, -⟩ := first
        rw [hstack] at hcons
        cases hcons
    | cons item rest =>
      rw [hstack] at hlacks
      obtain ⟨data, _, hdata, -⟩ := hlacks item List.mem_cons_self
      have hnext := ih (s := afterPush s item rest data) (lacks_afterPush hlacks hdata)
      rw [tries_afterPush] at hnext
      constructor
      · rintro ⟨s', hpushed⟩
        cases hpushed with
        | next first others =>
          obtain ⟨item', rest', data', hcons, -, hdata', hne, rfl⟩ := first
          rw [hstack] at hcons
          cases hcons
          rw [hdata] at hdata'
          cases hdata'
          exact ⟨Ne.symm hne, hnext.mp ⟨s', others⟩⟩
      · rintro ⟨hne, hturns⟩
        obtain ⟨s', others⟩ := hnext.mpr hturns
        exact ⟨s', .next ⟨item, rest, data, hstack, hlacks item List.mem_cons_self, hdata,
          Ne.symm hne, rfl⟩ others⟩

theorem PushBacks.lacks {n : Nat} (h : PushBacks e n s s') :
    ∀ item ∈ s.data.nodeExecutionStack.take n, Lacks e item := by
  induction h with
  | none s => simp
  | next first others ih =>
    obtain ⟨item, rest, data, hstack, hlacks, -, -, rfl⟩ := first
    rw [hstack, List.take_succ_cons]
    intro other hother
    rcases List.mem_cons.mp hother with rfl | hrest
    · exact hlacks
    · refine ih other ?_
      rw [List.take_append]
      exact List.mem_append_left _ hrest

theorem loop_stops {n : Nat} (hlacks : ∀ item ∈ s.data.nodeExecutionStack, Lacks e item)
    (hne : s.data.nodeExecutionStack ≠ [])
    (hstops : ¬ TurnsOver n s.lastExecutionTry (s.data.nodeExecutionStack.map (itemTry s)))
    {ticks : List (Tick ι)} (hticks : n ≤ ticks.length)
    (hcanceled : ∀ tick ∈ ticks, tick.canceled = false) :
    executionLoop e s ticks = .error endlessLoopError := by
  induction n generalizing s ticks with
  | zero => exact absurd trivial hstops
  | succ n ih =>
    cases hstack : s.data.nodeExecutionStack with
    | nil => exact absurd hstack hne
    | cons item rest =>
      cases ticks with
      | nil => exact absurd hticks (Nat.not_succ_le_zero n)
      | cons tick ticks =>
        rw [hstack] at hlacks hstops
        obtain ⟨data, _, hdata, -⟩ := hlacks item List.mem_cons_self
        rw [executionLoop]
        simp only [hstack]
        rw [iterate_lacks (hcanceled tick List.mem_cons_self)
          (hlacks item List.mem_cons_self) hdata]
        split
        · rfl
        · rename_i hdistinct
          refine ih (s := afterPush s item rest data) (lacks_afterPush hlacks hdata)
            (List.append_ne_nil_of_right_ne_nil _ (List.cons_ne_nil _ _)) (fun hturns => ?_)
            (Nat.le_of_succ_le_succ hticks)
            fun tick htick => hcanceled tick (List.mem_cons_of_mem _ htick)
          rw [tries_afterPush] at hturns
          exact hstops ⟨Ne.symm hdistinct, hturns⟩

/-- The loop never spins exactly when some item on the stack does not lack data, or two neighbours
in turn are tries of the same run. -/
theorem never_spins_iff (e : Engine ι) (s : LoopState ι) :
    NeverSpins e s ↔ ¬ Circulates e s := by
  constructor
  · rintro ⟨⟨n, hbound⟩, -⟩ ⟨hlacks, hapart⟩
    obtain ⟨s', hpushed⟩ := (pushBacks_iff_of_lacks hlacks n).mpr (hapart.turnsOver n)
    exact hbound s' hpushed
  · intro hnot
    have hstops (hlacks : ∀ item ∈ s.data.nodeExecutionStack, Lacks e item) :
        ¬ TurnsOver (s.data.nodeExecutionStack.length + 1) s.lastExecutionTry
          (s.data.nodeExecutionStack.map (itemTry s)) := fun hturns =>
      hnot ⟨hlacks, apartInTurn_of_turnsOver (by simp) hturns⟩
    refine ⟨⟨s.data.nodeExecutionStack.length + 1, fun s' hpushed => ?_⟩, fun hne hlacks => ?_⟩
    · have hlacks : ∀ item ∈ s.data.nodeExecutionStack, Lacks e item := by
        have htaken := hpushed.lacks
        rwa [List.take_of_length_le (Nat.le_succ _)] at htaken
      exact hstops hlacks ((pushBacks_iff_of_lacks hlacks _).mp ⟨s', hpushed⟩)
    · exact ⟨s.data.nodeExecutionStack.length + 1, fun ticks hticks hcanceled =>
        loop_stops hlacks hne (hstops hlacks) hticks hcanceled⟩

end PushedBack

section Example

/-- A trigger with two outputs: the first one leads to the first input of a node, the second one to
all inputs of two nodes with three inputs, which lead to the other inputs of that node. -/
def idleBranches : Workflow :=
  .create [{ name := "Trigger" }, { name := "Join" }, { name := "Left" }, { name := "Right" }]
    (((InsertionMap.set .empty "Trigger" (ofMain [some [⟨"Join", .main, 0⟩],
        some [⟨"Left", .main, 0⟩, ⟨"Left", .main, 1⟩, ⟨"Left", .main, 2⟩,
          ⟨"Right", .main, 0⟩, ⟨"Right", .main, 1⟩, ⟨"Right", .main, 2⟩]])).set "Left"
      (ofMain [some [⟨"Join", .main, 1⟩]])).set "Right" (ofMain [some [⟨"Join", .main, 2⟩]])) none

/-- An execution of the workflow. -/
def idleEngine : Engine Nat := { branchesEngine with workflow := idleBranches }

/-- The trigger runs. -/
def idleTick : Tick Nat := { call := fun _ => { result := some (.data [.data [1]]) } }

/-- The item of a node that was forced to run with an empty item at its first input. -/
def idleItem (nodeName : String) : IExecuteData Nat where
  node := some { name := nodeName }
  data := ofMain [.data [0]]
  source := some (ofMain [.data { previousNode := "Trigger" }])

/-- The stack, the last try and the tries on the stack when an execution goes on. -/
def stackOf (run : Except ExecutionError (LoopEnd Nat)) :
    Option (List (IExecuteData Nat) × String × List String) :=
  match run with
  | .ok (.unfinished s) =>
    some (s.data.nodeExecutionStack, s.lastExecutionTry,
      s.data.nodeExecutionStack.map (itemTry s))
  | _ => none

theorem stackOf_eq_some {run : Except ExecutionError (LoopEnd Nat)}
    {stack : List (IExecuteData Nat)} {last : String} {tries : List String}
    (h : stackOf run = some (stack, last, tries)) :
    ∃ s, run = .ok (.unfinished s) ∧ s.data.nodeExecutionStack = stack ∧
      s.lastExecutionTry = last ∧ s.data.nodeExecutionStack.map (itemTry s) = tries := by
  unfold stackOf at h
  split at h
  · rename_i s
    simp only [Option.some.injEq, Prod.mk.injEq] at h
    exact ⟨s, rfl, h⟩
  · cases h

theorem lacks_idleItem {nodeName : String} (h : nodeName ∈ ["Left", "Right"]) :
    Lacks idleEngine (idleItem nodeName) := by
  simp only [List.mem_cons, List.not_mem_nil, or_false] at h
  rcases h with rfl | rfl
  · exact ⟨_, _, rfl, rfl, rfl, by decide +kernel⟩
  · exact ⟨_, _, rfl, rfl, rfl, by decide +kernel⟩

/-- The second output of the trigger stays without data, so the two nodes with three inputs are
forced to run with data for the first one of them, and take turns at the end of the stack. -/
theorem spins_after_trigger : ∃ s,
    executionLoop idleEngine branchesStart [idleTick] = .ok (.unfinished s) ∧
      ¬ NeverSpins idleEngine s := by
  obtain ⟨s, hrun, hstack, hlast, htries⟩ := stackOf_eq_some
    (show stackOf (executionLoop idleEngine branchesStart [idleTick]) =
      some ([idleItem "Left", idleItem "Right"], "", ["Left:0", "Right:0"]) by decide +kernel)
  refine ⟨s, hrun, ?_⟩
  rintro ⟨⟨n, hbound⟩, -⟩
  have hapart : ApartInTurn s.lastExecutionTry (s.data.nodeExecutionStack.map (itemTry s)) := by
    rw [hlast, htries]
    exact ⟨by simp, by decide⟩
  have hlacks : ∀ item ∈ s.data.nodeExecutionStack, Lacks idleEngine item := by
    rw [hstack]
    intro item hitem
    simp only [List.mem_cons, List.not_mem_nil, or_false] at hitem
    rcases hitem with rfl | rfl
    · exact lacks_idleItem (by simp)
    · exact lacks_idleItem (by simp)
  obtain ⟨s', hpushed⟩ := (pushBacks_iff_of_lacks hlacks n).mpr (hapart.turnsOver n)
  exact hbound s' hpushed

end Example

end N8n.Execution
