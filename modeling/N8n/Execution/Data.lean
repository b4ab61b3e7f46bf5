import N8n.Collections.IndexMap
import N8n.Workflow.Types

/-!
# The data of a running execution

The part of `IRunExecutionData` that the engine works on: the stack of nodes to execute, the
entries that wait for the data of further inputs, and the data of the runs so far. Items are an
arbitrary type. An element of a JavaScript array is a `Slot`: the array may be sparse, and the
engine tells `null` from a slot that was never written.
-/

namespace N8n.Execution

open Collections

/-- The exceptions of the engine. -/
inductive ExecutionError where
  /-- Reading a property of `undefined` or `null`. -/
  | typeError
  /-- An `ApplicationError` that the engine throws. -/
  | applicationError (message : String)
  /-- The bound on the rounds of a loop or on the depth of a recursion was reached, which does not
  happen. -/
  | outOfFuel
  deriving DecidableEq, Repr

/-- An element of an array. A `hole` of a sparse array reads as `undefined`, but `map`, `filter`
and `forEach` pass over it. -/
inductive Slot (α : Type) where
  | hole
  | undefined
  | null
  | data (value : α)
  deriving DecidableEq, Repr

namespace Slot

variable {α : Type}

/-- `!slot`, for slots of arrays and objects, which are all truthy. -/
def falsy : Slot α → Bool
  | data _ => false
  | _ => true

/-- `slot === null`. -/
def isNull : Slot α → Bool
  | null => true
  | _ => false

/-- The contents of a slot. -/
def toOption : Slot α → Option α
  | data value => some value
  | _ => none

end Slot

/-- Read an element of an array. -/
def readSlot {α : Type} (slots : List (Slot α)) (index : Nat) : Slot α :=
  match slots[index]? with
  | none | some .hole => .undefined
  | some slot => slot

/-- Write an element of an array, which leaves holes when the array is too short. -/
def writeSlot {α : Type} (slots : List (Slot α)) (index : Nat) (slot : Slot α) : List (Slot α) :=
  (slots ++ List.replicate (index + 1 - slots.length) Slot.hole).set index slot

/-- The data for all kinds of connections and all their indexes. -/
abbrev ITaskDataConnections (ι : Type) := InsertionMap NodeConnectionType (List (Slot (List ι)))

/-- Where the data of an input comes from. An undefined output or run stands for `0`. -/
structure ISourceData where
  previousNode : String
  previousNodeOutput : Option Nat := none
  previousNodeRun : Option Nat := none
  deriving DecidableEq, Repr

/-- The sources for all kinds of connections and all their indexes. -/
abbrev ITaskDataConnectionsSource := InsertionMap NodeConnectionType (List (Slot ISourceData))

/-- An object with the property `main` only. -/
def ofMain {ν : Type} (main : ν) : InsertionMap NodeConnectionType ν :=
  InsertionMap.set .empty .main main

/-- An item of the stack: a node and the data to execute it with. `workflow.nodes` may have no
such node, in which case the property is `undefined`. -/
structure IExecuteData (ι : Type) where
  node : Option INode
  data : ITaskDataConnections ι
  source : Option ITaskDataConnectionsSource
  deriving DecidableEq, Repr

/-- The data that a run of a node has left, and whether an error is filed with it. -/
structure ITaskData (ι : Type) where
  data : Option (ITaskDataConnections ι)
  error : Bool := false
  deriving DecidableEq, Repr

/-- The runs of all nodes. -/
abbrev IRunData (ι : Type) := InsertionMap String (List (ITaskData ι))

/-- The pinned data of the nodes. -/
abbrev IPinData (ι : Type) := InsertionMap String (List ι)

/-- The entries of all nodes that wait for data, by node and run index. -/
abbrev IWaitingForExecution (ι : Type) := InsertionMap String (IndexMap (ITaskDataConnections ι))

set_option synthInstance.maxSize 512 in
instance {ι : Type} [DecidableEq ι] : DecidableEq (IWaitingForExecution ι) := inferInstance

/-- The sources of the entries that wait for data. -/
abbrev IWaitingForExecutionSource := InsertionMap String (IndexMap ITaskDataConnectionsSource)

/-- The execution data and the run data of an execution. -/
structure IRunExecutionData (ι : Type) where
  nodeExecutionStack : List (IExecuteData ι)
  waitingExecution : IWaitingForExecution ι
  waitingExecutionSource : Option IWaitingForExecutionSource
  runData : IRunData ι
  deriving DecidableEq, Repr

/-- The data that a new execution starts with: an empty waiting structure. -/
def IRunExecutionData.initial {ι : Type} (nodeExecutionStack : List (IExecuteData ι)) :
    IRunExecutionData ι where
  nodeExecutionStack := nodeExecutionStack
  waitingExecution := .empty
  waitingExecutionSource := some .empty
  runData := .empty

@[simp] theorem of_main_get {ν : Type} (main : ν) : (ofMain main).get? .main = some main := rfl

section Slots

variable {α : Type}

theorem read_written (slots : List (Slot α)) (index : Nat) (slot : Slot α) :
    readSlot (writeSlot slots index slot) index = readSlot [slot] 0 := by
  have hlt : index < (slots ++ List.replicate (index + 1 - slots.length) Slot.hole).length := by
    rw [List.length_append, List.length_replicate]
    omega
  rw [readSlot, writeSlot, List.getElem?_set_self hlt]
  rfl

theorem read_not_written (slots : List (Slot α)) {index i : Nat} (slot : Slot α) (h : i ≠ index) :
    readSlot (writeSlot slots index slot) i = readSlot slots i := by
  rw [readSlot, readSlot, writeSlot, List.getElem?_set_ne (Ne.symm h)]
  by_cases hin : i < slots.length
  · rw [List.getElem?_append_left hin]
  · rw [List.getElem?_append_right (by omega), List.getElem?_replicate,
      List.getElem?_eq_none (by omega)]
    by_cases hpad : i - slots.length < index + 1 - slots.length <;> simp [hpad]

theorem read_write_slot (slots : List (Slot α)) (index i : Nat) (slot : Slot α) :
    (readSlot (writeSlot slots index slot) i).toOption =
      if i = index then slot.toOption else (readSlot slots i).toOption := by
  split
  · rename_i hi
    rw [hi, read_written]
    cases slot <;> rfl
  · rename_i hi
    rw [read_not_written slots slot hi]

theorem mem_write_slot {slots : List (Slot α)} {index : Nat} {slot slot' : Slot α}
    (h : slot' ∈ writeSlot slots index slot) : slot' ∈ slots ∨ slot' = slot ∨ slot' = .hole := by
  rcases List.mem_or_eq_of_mem_set h with hmem | heq
  · rcases List.mem_append.mp hmem with hold | hpad
    · exact .inl hold
    · exact .inr (.inr (List.eq_of_mem_replicate hpad))
  · exact .inr (.inl heq)

theorem write_slot_again (slots : List (Slot α)) (index : Nat) (slot slot' : Slot α) :
    writeSlot (writeSlot slots index slot) index slot' = writeSlot slots index slot' := by
  have hlen : index + 1 - (writeSlot slots index slot).length = 0 := by
    simp only [writeSlot, List.length_set, List.length_append, List.length_replicate]
    omega
  rw [writeSlot, hlen, List.replicate_zero, List.append_nil, writeSlot, List.set_set, ← writeSlot]

theorem read_nulls (n index : Nat) :
    (readSlot (List.replicate n (.null : Slot α)) index).toOption = none := by
  rw [readSlot, List.getElem?_replicate]
  by_cases h : index < n <;> simp [h, Slot.toOption]

theorem falsy_iff {slot : Slot α} : slot.falsy = true ↔ slot.toOption = none := by
  cases slot <;> simp [Slot.falsy, Slot.toOption]

end Slots

end N8n.Execution
