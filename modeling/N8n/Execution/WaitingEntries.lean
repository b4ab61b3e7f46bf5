import N8n.Collections.Fallible
import N8n.Execution.AddNode

/-!
# Waiting entries

What a delivery to a node with several main inputs can do to the waiting entries and to the
stack: `add_waiting_node_eq_ok` names the entry that is written, the slots it then has, and
whether it moves to the stack or stays.
-/

namespace N8n.Execution

open Collections

variable {ι : Type}

/-- The entries of a node that wait for data. -/
def waitingOf (s : IRunExecutionData ι) (nodeName : String) : IndexMap (ITaskDataConnections ι) :=
  (s.waitingExecution.get? nodeName).getD .empty

variable {s s' : IRunExecutionData ι}

theorem waiting_of_set {waiting : IWaitingForExecution ι} {nodeName other : String}
    {entries : IndexMap (ITaskDataConnections ι)}
    (h : s.waitingExecution = waiting.set nodeName entries) :
    waitingOf s other =
      if other = nodeName then entries else (waiting.get? other).getD .empty := by
  rw [waitingOf, h, InsertionMap.get_set]
  split <;> rfl

theorem waiting_of_open (s : IRunExecutionData ι) (nodeName other : String) :
    waitingOf (openWaiting s nodeName) other = waitingOf s other := by
  unfold openWaiting
  split
  · rfl
  · rename_i hnone
    have hnone : s.waitingExecution.get? nodeName = none := by
      simpa [InsertionMap.has] using hnone
    rw [waiting_of_set rfl]
    split
    · rename_i heq
      rw [waitingOf, heq, hnone]
      rfl
    · rfl

theorem open_waiting_stack (s : IRunExecutionData ι) (nodeName : String) :
    (openWaiting s nodeName).nodeExecutionStack = s.nodeExecutionStack := by
  unfold openWaiting
  split <;> rfl

theorem waiting_of_prepare (s : IRunExecutionData ι) (nodeName other : String) (n k : Nat) :
    waitingOf (prepareWaitingToExecution s nodeName n k) other =
      if other = nodeName then (waitingOf s nodeName).set k (ofMain (List.replicate n .null))
      else waitingOf s other :=
  waiting_of_set rfl

section Slots

/-- What there is at a main input, of the data or of the sources. -/
def mainSlot {α : Type} (data : InsertionMap NodeConnectionType (List (Slot α))) (index : Nat) :
    Option α :=
  (readSlot ((data.get? .main).getD []) index).toOption

theorem main_slot_eq {α : Type} {data : InsertionMap NodeConnectionType (List (Slot α))}
    {slots : List (Slot α)} {index : Nat} (h : data.get? .main = some slots) :
    mainSlot data index = (readSlot slots index).toOption := by
  rw [mainSlot, h, Option.getD_some]

theorem main_slot_some {data : ITaskDataConnections ι} {index : Nat} {items : List ι}
    (h : mainSlot data index = some items) :
    ∃ slots, data.get? .main = some slots ∧ (readSlot slots index).falsy = false := by
  cases hmain : data.get? .main with
  | none =>
    rw [mainSlot, hmain] at h
    cases h
  | some slots =>
    rw [main_slot_eq hmain] at h
    exact ⟨slots, rfl, by rw [← Bool.not_eq_true, falsy_iff, h]; simp⟩

end Slots

section Choice

variable {index k : Nat}

theorem find_missing_input_some {entries : List (Nat × ITaskDataConnections ι)}
    (h : findMissingInput index entries = .ok (some k)) :
    ∃ entry slots, (k, entry) ∈ entries ∧ entry.get? .main = some slots ∧
      (readSlot slots index).falsy = true := by
  induction entries with
  | nil => simp [findMissingInput] at h
  | cons first rest ih =>
    obtain ⟨k₀, entry₀⟩ := first
    rw [findMissingInput] at h
    cases hmain : entry₀.get? .main with
    | none => simp [hmain] at h
    | some slots =>
      simp only [hmain] at h
      split at h
      · rename_i hfalsy
        cases h
        exact ⟨entry₀, slots, by simp, hmain, hfalsy⟩
      · obtain ⟨entry, slots, hmem, hentry, hfalsy⟩ := ih h
        exact ⟨entry, slots, by simp [hmem], hentry, hfalsy⟩

theorem find_missing_input_none {entries : List (Nat × ITaskDataConnections ι)}
    (h : findMissingInput index entries = .ok none) :
    ∀ e ∈ entries, ∃ slots, e.2.get? .main = some slots ∧ (readSlot slots index).falsy = false := by
  induction entries with
  | nil => simp
  | cons first rest ih =>
    obtain ⟨k₀, entry₀⟩ := first
    rw [findMissingInput] at h
    cases hmain : entry₀.get? .main with
    | none => simp [hmain] at h
    | some slots =>
      simp only [hmain] at h
      split at h
      · cases h
      · rename_i hfalsy
        intro e he
        rcases List.mem_cons.mp he with heq | hmem
        · exact ⟨slots, heq ▸ hmain, by simpa using hfalsy⟩
        · exact ih h e hmem

theorem find_missing_input_append {filled rest : List (Nat × ITaskDataConnections ι)}
    (h : ∀ e ∈ filled, ∃ items, mainSlot e.2 index = some items) :
    findMissingInput index (filled ++ rest) = findMissingInput index rest := by
  induction filled with
  | nil => rfl
  | cons first filled ih =>
    obtain ⟨items, hitems⟩ := h first (by simp)
    obtain ⟨slots, hmain, hfalsy⟩ := main_slot_some hitems
    obtain ⟨k, entry⟩ := first
    rw [List.cons_append, findMissingInput]
    simp only [hmain, hfalsy, Bool.false_eq_true, if_false]
    exact ih fun e he => h e (by simp [he])

theorem find_missing_input_at {entries : IndexMap (ITaskDataConnections ι)}
    {entry : ITaskDataConnections ι} (hget : entries.get? k = some entry)
    (hmissing : mainSlot entry index = none)
    (hearlier : ∀ e ∈ entries.entries, e.1 < k → ∃ items, mainSlot e.2 index = some items) :
    findMissingInput index entries.entries =
      if (entry.get? .main).isSome then .ok (some k) else .error .typeError := by
  obtain ⟨filled, rest, hentries, hlt⟩ := IndexMap.split_at hget
  have hfilled : ∀ e ∈ filled, ∃ items, mainSlot e.2 index = some items := fun e he =>
    hearlier e (by simp [hentries, he]) (hlt e he)
  rw [hentries, find_missing_input_append hfilled, findMissingInput]
  cases hmain : entry.get? .main with
  | none => rfl
  | some slots =>
    rw [main_slot_eq hmain, ← falsy_iff] at hmissing
    simp [hmissing]

/-- The run index that a delivery to an input writes and the entries it then finds there: an entry
that waits for the input, or a new one whose run index is the number of entries. -/
inductive ChosenEntry (current : IndexMap (ITaskDataConnections ι)) (index n : Nat) :
    Nat → IndexMap (ITaskDataConnections ι) → Prop where
  | waiting (k : Nat) (found : findMissingInput index current.entries = .ok (some k)) :
      ChosenEntry current index n k current
  | created (found : findMissingInput index current.entries = .ok none) :
      ChosenEntry current index n current.size
        (current.set current.size (ofMain (List.replicate n .null)))

theorem choose_entry_eq_ok {s s' : IRunExecutionData ι} {d : Delivery ι} {n : Nat}
    (h : chooseEntry s d n = .ok (s', k)) :
    ChosenEntry (waitingOf s d.connectionData.node) d.connectionData.index n k
        (waitingOf s' d.connectionData.node) ∧
      s'.nodeExecutionStack = s.nodeExecutionStack ∧
      ∀ other, other ≠ d.connectionData.node → waitingOf s' other = waitingOf s other := by
  rw [chooseEntry] at h
  obtain ⟨found, hfound, h⟩ := bind_eq_ok.mp h
  cases found with
  | some k₀ =>
    cases h
    exact ⟨.waiting _ hfound, rfl, fun _ _ => rfl⟩
  | none =>
    cases h
    refine ⟨?_, rfl, fun other hother => ?_⟩
    · rw [waiting_of_prepare, if_pos rfl]
      exact .created hfound
    · rw [waiting_of_prepare, if_neg hother]

end Choice

theorem write_delivery_eq_ok {d : Delivery ι} {k : Nat} (h : writeDelivery s d k = .ok s') :
    ∃ entry slots, (waitingOf s d.connectionData.node).get? k = some entry ∧
      entry.get? .main = some slots ∧
      waitingOf s' d.connectionData.node = (waitingOf s d.connectionData.node).set k
        (entry.set .main (writeSlot slots d.connectionData.index d.dataSlot)) ∧
      s'.nodeExecutionStack = s.nodeExecutionStack ∧
      ∀ other, other ≠ d.connectionData.node → waitingOf s' other = waitingOf s other := by
  rw [writeDelivery] at h
  obtain ⟨waiting, hwaiting, h⟩ := bind_eq_ok.mp h
  obtain ⟨sources, -, h⟩ := bind_eq_ok.mp h
  cases h
  rw [writeEntry] at hwaiting
  cases hentries : s.waitingExecution.get? d.connectionData.node with
  | none => simp [hentries] at hwaiting
  | some entries =>
    simp only [hentries] at hwaiting
    cases hentry : entries.get? k with
    | none => simp [hentry] at hwaiting
    | some entry =>
      simp only [hentry] at hwaiting
      cases hmain : entry.get? .main with
      | none => simp [hmain] at hwaiting
      | some slots =>
        simp only [hmain] at hwaiting
        cases hwaiting
        have hof : waitingOf s d.connectionData.node = entries := by
          rw [waitingOf, hentries]
          rfl
        refine ⟨entry, slots, hof ▸ hentry, hmain, ?_, rfl, fun other hother => ?_⟩
        · rw [waiting_of_set rfl, if_pos rfl, hof]
        · rw [waiting_of_set rfl, if_neg hother]
          rfl

theorem read_entry_eq_ok {nodeName : String} {k : Nat} {slots : List (Slot (List ι))}
    (h : readEntry s.waitingExecution nodeName k = .ok slots) :
    ∃ entry, (waitingOf s nodeName).get? k = some entry ∧ entry.get? .main = some slots := by
  rw [readEntry] at h
  cases hentries : s.waitingExecution.get? nodeName with
  | none => simp [hentries] at h
  | some entries =>
    cases hentry : entries.get? k with
    | none => simp [hentries, hentry] at h
    | some entry =>
      cases hmain : entry.get? .main with
      | none => simp [hentries, hentry, hmain] at h
      | some slots' =>
        simp only [hentries, hentry, hmain, Option.bind_some] at h
        cases h
        exact ⟨entry, by rw [waitingOf, hentries]; exact hentry, hmain⟩

theorem keep_waiting_eq_ok {d : Delivery ι} {n k : Nat} (h : keepWaiting s d n k = .ok s') :
    ∃ entry slots, (waitingOf s d.connectionData.node).get? k = some entry ∧
      entry.get? .main = some slots ∧
      waitingOf s' d.connectionData.node = (waitingOf s d.connectionData.node).set k
        (ofMain (writeSlot slots d.connectionData.index d.dataSlot)) ∧
      s'.nodeExecutionStack = s.nodeExecutionStack ∧
      ∀ other, other ≠ d.connectionData.node → waitingOf s' other = waitingOf s other := by
  rw [keepWaiting] at h
  obtain ⟨slots, hslots, h⟩ := bind_eq_ok.mp h
  obtain ⟨sources, -, h⟩ := bind_eq_ok.mp h
  obtain ⟨entry, hentry, hmain⟩ := read_entry_eq_ok hslots
  cases h
  refine ⟨entry, slots, hentry, hmain, ?_, rfl, fun other hother => ?_⟩
  · rw [waiting_of_set rfl, if_pos rfl]
    show (IndexMap.set (((s.waitingExecution.set _ _).get? d.connectionData.node).getD .empty) k
      _) = _
    rw [InsertionMap.get_set_same, Option.getD_some, IndexMap.set_set]
    rfl
  · rw [waiting_of_set rfl, if_neg hother]
    show ((s.waitingExecution.set _ _).get? other).getD .empty = _
    rw [InsertionMap.get_set_other _ _ hother]
    rfl

theorem get_deleteEntry (s : IRunExecutionData ι) (nodeName other : String) (k : Nat) :
    ((deleteEntry s.waitingExecution nodeName k (isLastEntry s nodeName k)).get? other).getD
        .empty =
      if other = nodeName then (waitingOf s nodeName).delete k else waitingOf s other := by
  unfold deleteEntry
  split
  · rename_i hlast
    rw [InsertionMap.get_delete]
    have hempty : (waitingOf s nodeName).delete k = .empty :=
      IndexMap.eq_empty_of_size (of_decide_eq_true hlast)
    split
    · exact hempty.symm
    · rfl
  · rw [InsertionMap.get_set]
    split <;> rfl

theorem waiting_of_move (w : Workflow) (s : IRunExecutionData ι) (nodeName other : String)
    (k : Nat) : waitingOf (moveToStack w s nodeName k) other =
      if other = nodeName then (waitingOf s nodeName).delete k else waitingOf s other :=
  get_deleteEntry s nodeName other k

/-- What a delivery to a node with several main inputs does: it chooses an entry and writes its
slot, and the entry moves to the stack when no slot of it is `null` and stays otherwise, in which
case other nodes may be forced onto the stack. -/
theorem add_waiting_node_eq_ok {w : Workflow} {emptyItem : ι} {d : Delivery ι}
    {inputs : NodeInputConnections} (h : addWaitingNode w emptyItem s d inputs = .ok s') :
    ∃ k entries entry slots, ChosenEntry (waitingOf s d.connectionData.node)
        d.connectionData.index inputs.length k entries ∧
      entries.get? k = some entry ∧ entry.get? .main = some slots ∧
      (∀ other, other ≠ d.connectionData.node → waitingOf s' other = waitingOf s other) ∧
      ((writeSlot slots d.connectionData.index d.dataSlot).all (!·.isNull) = true ∧
          (∃ source, s'.nodeExecutionStack = enqueue w s.nodeExecutionStack
            { node := w.nodes.get? d.connectionData.node
              data := entry.set .main (writeSlot slots d.connectionData.index d.dataSlot)
              source := source }) ∧
          waitingOf s' d.connectionData.node = entries.delete k ∨
        (writeSlot slots d.connectionData.index d.dataSlot).all (!·.isNull) = false ∧
          (∃ written : IRunExecutionData ι, written.nodeExecutionStack = s.nodeExecutionStack ∧
            forceInputs w emptyItem written d inputs
              (s.waitingExecution.has d.connectionData.node) = .ok s'.nodeExecutionStack) ∧
          waitingOf s' d.connectionData.node =
            entries.set k (ofMain (writeSlot slots d.connectionData.index d.dataSlot))) := by
  rw [addWaitingNode] at h
  obtain ⟨⟨chosen, k⟩, hchosen, h⟩ := bind_eq_ok.mp h
  obtain ⟨written, hwritten, h⟩ := bind_eq_ok.mp h
  obtain ⟨filled, hfilled, h⟩ := bind_eq_ok.mp h
  obtain ⟨hentry, hstack, hother⟩ := choose_entry_eq_ok hchosen
  obtain ⟨entry, slots, hget, hmain, hwaiting, hstack', hother'⟩ := write_delivery_eq_ok hwritten
  obtain ⟨entry', hget', hmain'⟩ := read_entry_eq_ok hfilled
  rw [waiting_of_open] at hentry
  rw [open_waiting_stack] at hstack
  -- what is read back is what was written
  rw [hwaiting, IndexMap.get_set_same] at hget'
  cases hget'
  rw [InsertionMap.get_set_same] at hmain'
  cases hmain'
  refine ⟨k, _, entry, slots, hentry, hget, hmain, fun other hne => ?_, ?_⟩
  · have hwritten_other : waitingOf written other = waitingOf s other := by
      rw [hother' other hne, hother other hne, waiting_of_open]
    split at h
    · cases h
      rw [waiting_of_move, if_neg hne, hwritten_other]
    · obtain ⟨stack, -, h⟩ := bind_eq_ok.mp h
      obtain ⟨_, _, -, -, -, -, hkept⟩ := keep_waiting_eq_ok h
      rw [hkept other hne]
      exact hwritten_other
  · split at h
    · rename_i hall
      cases h
      refine .inl ⟨hall, ⟨(written.waitingExecutionSource.bind
        (·.get? d.connectionData.node)).bind (·.get? k), ?_⟩, ?_⟩
      · have hmoved : (((written.waitingExecution.get? d.connectionData.node).bind
            (·.get? k))).getD .empty =
            entry.set .main (writeSlot slots d.connectionData.index d.dataSlot) := by
          have hread : (waitingOf written d.connectionData.node).get? k = some (entry.set .main
              (writeSlot slots d.connectionData.index d.dataSlot)) := by
            rw [hwaiting, IndexMap.get_set_same]
          rw [waitingOf] at hread
          cases hw : written.waitingExecution.get? d.connectionData.node with
          | none =>
            rw [hw] at hread
            cases hread
          | some entries =>
            rw [hw, Option.getD_some] at hread
            rw [Option.bind_some, hread]
            rfl
        show enqueue w written.nodeExecutionStack _ = _
        rw [hmoved, hstack', hstack]
      · rw [waiting_of_move, if_pos rfl, hwaiting, IndexMap.delete_set]
    · rename_i hall
      obtain ⟨stack, hforced, h⟩ := bind_eq_ok.mp h
      obtain ⟨entry', slots', hget', hmain', hkept, hkept_stack, -⟩ := keep_waiting_eq_ok h
      refine .inr ⟨by simpa using hall, ?_, ?_⟩
      · exact ⟨written, by rw [hstack', hstack], by rw [hforced, hkept_stack]⟩
      · have hkept_waiting : waitingOf { written with nodeExecutionStack := stack }
            d.connectionData.node = (waitingOf chosen d.connectionData.node).set k
              (entry.set .main (writeSlot slots d.connectionData.index d.dataSlot)) := hwaiting
        rw [hkept_waiting, IndexMap.get_set_same] at hget'
        cases hget'
        rw [InsertionMap.get_set_same] at hmain'
        cases hmain'
        rw [hkept, hkept_waiting, IndexMap.set_set, write_slot_again]

section Success

/-- An entry of a node. -/
def entryAt {ν : Type} (waiting : InsertionMap String (IndexMap ν)) (nodeName : String) (k : Nat) :
    Option ν :=
  (waiting.get? nodeName).bind (·.get? k)

theorem waiting_of_get (s : IRunExecutionData ι) (nodeName : String) (k : Nat) :
    (waitingOf s nodeName).get? k = entryAt s.waitingExecution nodeName k := by
  rw [waitingOf, entryAt]
  cases s.waitingExecution.get? nodeName <;> rfl

variable {α : Type} {waiting : InsertionMap String (IndexMap (InsertionMap NodeConnectionType
  (List (Slot α))))} {nodeName : String} {k : Nat} {entry : InsertionMap NodeConnectionType
  (List (Slot α))} {slots : List (Slot α)}

theorem read_entry_ok (hentry : entryAt waiting nodeName k = some entry)
    (hmain : entry.get? .main = some slots) : readEntry waiting nodeName k = .ok slots := by
  have hread : ((waiting.get? nodeName).bind (·.get? k)).bind (·.get? .main) = some slots := by
    rw [entryAt] at hentry
    rw [hentry]
    exact hmain
  rw [readEntry, hread]

theorem write_entry_ok (hentry : entryAt waiting nodeName k = some entry)
    (hmain : entry.get? .main = some slots) (index : Nat) (slot : Slot α) :
    ∃ waiting', writeEntry waiting nodeName k index slot = .ok waiting' ∧
      entryAt waiting' nodeName k = some (entry.set .main (writeSlot slots index slot)) := by
  cases hentries : waiting.get? nodeName with
  | none => simp [entryAt, hentries] at hentry
  | some entries =>
    have hget : entries.get? k = some entry := by simpa [entryAt, hentries] using hentry
    refine ⟨waiting.set nodeName (entries.set k (entry.set .main (writeSlot slots index slot))),
      ?_, ?_⟩
    · rw [writeEntry, hentries]
      simp only [hget, hmain]
    · rw [entryAt, InsertionMap.get_set_same, Option.bind_some, IndexMap.get_set_same]

theorem add_waiting_node_ok {w : Workflow} {emptyItem : ι} {s : IRunExecutionData ι}
    {d : Delivery ι} {inputs : NodeInputConnections} {k : Nat} {entry : ITaskDataConnections ι}
    {source : ITaskDataConnectionsSource} {slots : List (Slot (List ι))}
    {sourceSlots : List (Slot ISourceData)}
    (hfound : findMissingInput d.connectionData.index
      (waitingOf s d.connectionData.node).entries = .ok (some k))
    (hentry : entryAt s.waitingExecution d.connectionData.node k = some entry)
    (hmain : entry.get? .main = some slots)
    (hsource : entryAt (s.waitingExecutionSource.getD .empty) d.connectionData.node k = some source)
    (hsources : source.get? .main = some sourceSlots) :
    ∃ s', addWaitingNode w emptyItem s d inputs = .ok s' := by
  have hhas : s.waitingExecution.has d.connectionData.node = true := by
    rw [entryAt] at hentry
    rw [InsertionMap.has]
    cases hget : s.waitingExecution.get? d.connectionData.node with
    | none => simp [hget] at hentry
    | some entries => rfl
  have hopen : openWaiting s d.connectionData.node =
      { s with waitingExecutionSource := some (s.waitingExecutionSource.getD .empty) } := by
    rw [openWaiting, if_pos hhas]
  obtain ⟨waiting, hwaiting, hentry'⟩ :=
    write_entry_ok hentry hmain d.connectionData.index d.dataSlot
  obtain ⟨sources, hsources', hsource'⟩ :=
    write_entry_ok hsource hsources d.connectionData.index d.sourceSlot
  have hchosen : chooseEntry (openWaiting s d.connectionData.node) d inputs.length =
      .ok (openWaiting s d.connectionData.node, k) := by
    have hentries : ((openWaiting s d.connectionData.node).waitingExecution.get?
        d.connectionData.node).getD .empty = waitingOf s d.connectionData.node :=
      waiting_of_open s _ _
    rw [chooseEntry, hentries, hfound]
    rfl
  have hwritten : writeDelivery (openWaiting s d.connectionData.node) d k =
      .ok { s with waitingExecution := waiting, waitingExecutionSource := some sources } := by
    rw [hopen, writeDelivery]
    show (writeEntry s.waitingExecution _ _ _ _ >>= fun _ => _) = _
    rw [hwaiting]
    show (writeEntry (s.waitingExecutionSource.getD .empty) _ _ _ _ >>= fun _ => _) = _
    rw [hsources']
    rfl
  have hread := read_entry_ok hentry' (InsertionMap.get_set_same _ _ _)
  have hread_source := read_entry_ok hsource' (InsertionMap.get_set_same _ _ _)
  have hkept : ∃ kept, keepWaiting
      { s with waitingExecution := waiting, waitingExecutionSource := some sources } d
      inputs.length k = .ok kept := by
    rw [keepWaiting]
    show ∃ kept, (readEntry waiting d.connectionData.node k >>= fun _ => _) = _
    rw [hread]
    show ∃ kept, (readEntry sources d.connectionData.node k >>= fun _ => _) = _
    rw [hread_source]
    exact ⟨_, rfl⟩
  obtain ⟨kept, hkept⟩ := hkept
  rw [addWaitingNode, hchosen, hhas]
  show ∃ s', (writeDelivery (openWaiting s d.connectionData.node) d k >>= fun _ => _) = _
  rw [hwritten]
  show ∃ s', (readEntry waiting d.connectionData.node k >>= fun _ => _) = _
  rw [hread]
  by_cases hall :
      (writeSlot slots d.connectionData.index d.dataSlot).all (!·.isNull) = true
  · exact ⟨_, if_pos hall⟩
  · exact ⟨kept, (if_neg hall).trans hkept⟩

end Success

end N8n.Execution
