import N8n.Execution.WaitingEntries

/-!
# Feeding a waiting entry

What is expected of an entry that waits for the inputs of a node: deliveries to the inputs that
it misses fill it one by one, and the last one moves it to the stack with data at every input.
`feeds_eq_ok` says what one such delivery does.
-/

namespace N8n.Execution

open Collections

variable {ι : Type}

/-- The delivery is for an entry of a node with `n` main inputs: it brings data to an input that
the entry misses and that the entries before it do not. -/
structure Feeds (s : IRunExecutionData ι) (nodeName : String) (k n : Nat) (d : Delivery ι) :
    Prop where
  target : d.connectionData.node = nodeName
  isInput : d.connectionData.index < n
  brings : ∃ items, d.dataSlot = .data items
  missing : ∃ entry, entryAt s.waitingExecution nodeName k = some entry ∧
    mainSlot entry d.connectionData.index = none
  earlier : ∀ e ∈ (waitingOf s nodeName).entries, e.1 < k →
    ∃ items, mainSlot e.2 d.connectionData.index = some items

/-- Deliveries that feed an entry, one after the other, with the inputs that they fill. -/
inductive Fed (w : Workflow) (emptyItem : ι) (nodeName : String) (k n : Nat) :
    IRunExecutionData ι → List Nat → IRunExecutionData ι → Prop where
  | start (s : IRunExecutionData ι) : Fed w emptyItem nodeName k n s [] s
  | feed {s s₁ s₂ : IRunExecutionData ι} {inputs : List Nat} {d : Delivery ι}
      (run : Fed w emptyItem nodeName k n s inputs s₁) (feeds : Feeds s₁ nodeName k n d)
      (step : addNodeToBeExecuted w emptyItem s₁ d = .ok s₂) :
      Fed w emptyItem nodeName k n s (inputs ++ [d.connectionData.index]) s₂

/-- An entry waits with its sources. -/
def Waits (s : IRunExecutionData ι) (nodeName : String) (k : Nat) (entry : ITaskDataConnections ι)
    (source : Option ITaskDataConnectionsSource) : Prop :=
  entryAt s.waitingExecution nodeName k = some entry ∧
    entryAt (s.waitingExecutionSource.getD .empty) nodeName k = source

/-- All inputs are filled, by the entry itself or by deliveries. -/
def AllFilled (entry : ITaskDataConnections ι) (n : Nat) (inputs : List Nat) : Prop :=
  ∀ i < n, (mainSlot entry i).isSome = true ∨ i ∈ inputs

/-- A step moves an entry to the stack, with data at every input. -/
def Moves (w : Workflow) (nodeName : String) (k n : Nat) (s₁ s₂ : IRunExecutionData ι) : Prop :=
  entryAt s₂.waitingExecution nodeName k = none ∧
    ∃ item, s₂.nodeExecutionStack = enqueue w s₁.nodeExecutionStack item ∧
      item.node = w.nodes.get? nodeName ∧ ∀ i < n, (mainSlot item.data i).isSome = true

/-- A step leaves an entry waiting. -/
def Stays (nodeName : String) (k : Nat) (s₁ s₂ : IRunExecutionData ι) : Prop :=
  (entryAt s₂.waitingExecution nodeName k).isSome = true ∧
    s₂.nodeExecutionStack = s₁.nodeExecutionStack

/-- What is expected of a waiting entry: the engine can feed it, and the delivery that fills the
last of its inputs, and no other one, moves it to the stack. -/
structure FillsUp (w : Workflow) (emptyItem : ι) (nodeName : String) (k n : Nat)
    (entry : ITaskDataConnections ι) (source : Option ITaskDataConnectionsSource) : Prop where
  accepts : ∀ s d, Waits s nodeName k entry source → Feeds s nodeName k n d →
    ∃ s', addNodeToBeExecuted w emptyItem s d = .ok s'
  moves : ∀ s inputs s₁ d s₂, Waits s nodeName k entry source →
    Fed w emptyItem nodeName k n s inputs s₁ → Feeds s₁ nodeName k n d →
    addNodeToBeExecuted w emptyItem s₁ d = .ok s₂ →
    AllFilled entry n (inputs ++ [d.connectionData.index]) → Moves w nodeName k n s₁ s₂
  stays : ∀ s inputs s₁ d s₂, Waits s nodeName k entry source →
    Fed w emptyItem nodeName k n s inputs s₁ → Feeds s₁ nodeName k n d →
    addNodeToBeExecuted w emptyItem s₁ d = .ok s₂ →
    ¬AllFilled entry n (inputs ++ [d.connectionData.index]) → Stays nodeName k s₁ s₂

section Step

variable {w : Workflow} {emptyItem : ι} {s s₂ : IRunExecutionData ι} {nodeName : String}
  {k : Nat} {inputs : NodeInputConnections} {d : Delivery ι} {entry : ITaskDataConnections ι}

theorem Feeds.found (h : Feeds s nodeName k inputs.length d)
    (hentry : entryAt s.waitingExecution nodeName k = some entry) :
    findMissingInput d.connectionData.index (waitingOf s nodeName).entries =
      if (entry.get? .main).isSome then .ok (some k) else .error .typeError := by
  obtain ⟨entry', hentry', hmissing⟩ := h.missing
  rw [hentry] at hentry'
  cases hentry'
  exact find_missing_input_at (by rw [waiting_of_get, hentry]) hmissing h.earlier

/-- A delivery that feeds an entry writes its slot. Then the entry moves to the stack when no slot
is `null`, and stays otherwise. -/
theorem feeds_eq_ok (hinputs : mainInputs w nodeName = .ok inputs) (hn : 1 < inputs.length)
    (h : Feeds s nodeName k inputs.length d)
    (hentry : entryAt s.waitingExecution nodeName k = some entry)
    (hstep : addNodeToBeExecuted w emptyItem s d = .ok s₂) :
    ∃ slots, entry.get? .main = some slots ∧
      if (writeSlot slots d.connectionData.index d.dataSlot).all (!·.isNull) = true then
        entryAt s₂.waitingExecution nodeName k = none ∧
          ∃ source, s₂.nodeExecutionStack = enqueue w s.nodeExecutionStack
            { node := w.nodes.get? nodeName
              data := entry.set .main (writeSlot slots d.connectionData.index d.dataSlot)
              source := source }
      else
        entryAt s₂.waitingExecution nodeName k =
            some (ofMain (writeSlot slots d.connectionData.index d.dataSlot)) ∧
          s₂.nodeExecutionStack = s.nodeExecutionStack := by
  have htarget := h.target
  subst htarget
  have hfound := h.found hentry
  rw [addNodeToBeExecuted, hinputs] at hstep
  have hstep : addWaitingNode w emptyItem s d inputs = .ok s₂ := (if_pos hn).symm.trans hstep
  obtain ⟨k', entries, entry', slots, hchosen, hget, hmain, -, hdone⟩ :=
    add_waiting_node_eq_ok hstep
  cases hchosen with
  | created found =>
    rw [found] at hfound
    split at hfound <;> cases hfound
  | waiting k' found =>
    rw [found] at hfound
    split at hfound
    · cases hfound
      rw [waiting_of_get, hentry] at hget
      cases hget
      refine ⟨slots, hmain, ?_⟩
      rcases hdone with ⟨hall, ⟨source, hstack⟩, hwaiting⟩ |
        ⟨hall, ⟨written, hsame, hforced⟩, hwaiting⟩
      · rw [if_pos hall]
        refine ⟨?_, source, hstack⟩
        rw [← waiting_of_get, hwaiting, IndexMap.get_delete, if_pos rfl]
      · rw [if_neg (by rw [hall]; exact Bool.false_ne_true)]
        refine ⟨?_, ?_⟩
        · rw [← waiting_of_get, hwaiting, IndexMap.get_set_same]
        · have hhas : s.waitingExecution.has d.connectionData.node = true := by
            rw [entryAt] at hentry
            rw [InsertionMap.has]
            cases hget : s.waitingExecution.get? d.connectionData.node with
            | none => simp [hget] at hentry
            | some entries => rfl
          rw [hhas, forceInputs, if_pos rfl] at hforced
          rw [← Except.ok.inj hforced, hsame]
    · cases hfound

theorem not_feeds_of_gone {n : Nat} (hgone : entryAt s.waitingExecution nodeName k = none) :
    ¬Feeds s nodeName k n d := by
  intro h
  obtain ⟨entry, hentry, -⟩ := h.missing
  rw [hgone] at hentry
  cases hentry

end Step

end N8n.Execution
