import Mathlib.Data.List.Sort
import N8n.Collections.InsertionMap

/-!
# Remembering processed items

`checkProcessedAndRecord` tells which items of a batch are new and records them, in the mode
`entries` by a list of hashes and in the latest modes by the largest value. `removeProcessed` and
`clearAllProcessedItems` forget items. The MD5 hash of an item's text is the parameter
`createValueHash`; the number or the date that an item stands for is the parameter `rank`.
-/

namespace N8n.Deduplication

open Collections

inductive DeduplicationMode where
  | entries
  | latestIncrementalKey
  | latestDate
  deriving DecidableEq, Repr

inductive DeduplicationScope where
  | node
  | workflow
  deriving DecidableEq, Repr

/-- The workflow of a call, and its node where there is one, by their ids. -/
structure ContextData where
  node : Option (List Char)
  workflowId : List Char
  deriving DecidableEq, Repr

/-- The number of hashes to keep is not limited when it is missing or zero. -/
structure CheckOptions where
  mode : DeduplicationMode
  maxEntries : Option Nat
  deriving DecidableEq, Repr

/-- What is stored for a context: all hashes, or the latest value, which may be missing. -/
inductive StoredData (α η : Type) where
  | entries (data : List η)
  | latest (data : Option α)
  deriving DecidableEq, Repr

structure ProcessedValue (α η : Type) where
  mode : DeduplicationMode
  data : StoredData α η
  deriving DecidableEq, Repr

/-- The stored data by workflow and context. -/
abbrev ProcessedTable (α η : Type) := InsertionMap (List Char × List Char) (ProcessedValue α η)

/-- The items of a batch that are new, and those that were processed before. -/
structure DeduplicationOutput (α : Type) where
  new : List α
  processed : List α
  deriving DecidableEq, Repr

inductive DeduplicationError where
  | deduplication (message : String)
  | assertion
  deriving DecidableEq, Repr

/-- The name of the context of a call. -/
def createContext (scope : DeduplicationScope) (contextData : ContextData) :
    Except DeduplicationError (List Char) :=
  match scope, contextData.node with
  | .node, none =>
    .error (.deduplication "No node information has been provided and so cannot use scope 'node'")
  | .node, some node => .ok ("n:".toList ++ node)
  | .workflow, _ => .ok []

variable {α η κ : Type}

/-- Stored data can only be used in the mode in which it was saved. -/
def validateMode (processedData : Option (ProcessedValue α η)) (options : CheckOptions) :
    Except DeduplicationError Unit :=
  match processedData with
  | some processedData =>
    if processedData.mode ≠ options.mode then
      .error (.deduplication ("Deduplication data was originally saved with an incompatible " ++
        "setting of the ‘Keep Items Where’ parameter. Try ’Clean Database’ operation to reset."))
    else .ok ()
  | none => .ok ()

section LatestModes

variable [LinearOrder κ] (rank : DeduplicationMode → α → Option κ)

/-- Compare two values; a value that is missing or that is no number or date is an error. -/
def compareValues (mode : DeduplicationMode) (value1 value2 : Option α) :
    Except DeduplicationError Ordering :=
  match mode with
  | .latestIncrementalKey =>
    match value1.bind (rank mode), value2.bind (rank mode) with
    | some num1, some num2 =>
      .ok (if num1 = num2 then .eq else if num1 > num2 then .gt else .lt)
    | _, _ =>
      .error (.deduplication
        "Invalid value. Only numbers are supported in mode \"latestIncrementalKey\"")
  | .latestDate =>
    match value1.bind (rank mode), value2.bind (rank mode) with
    | some date1, some date2 =>
      -- Two dates that were parsed separately are never identical.
      .ok (if date1 > date2 then .gt else .lt)
    | _, _ =>
      .error (.deduplication
        "Invalid value. Only valid dates are supported in mode \"latestDate\"")
  | .entries =>
    .error (.deduplication
      "Invalid mode. Only 'latestIncrementalKey' and 'latestDate' are supported.")

/-- May the first item stand before the second one in a sorted batch? -/
def precedes (mode : DeduplicationMode) (a b : α) : Bool :=
  match rank mode a, rank mode b with
  | none, _ => true
  | some _, none => false
  | some x, some y => decide (x ≤ y)

/-- The error of comparing an item at all. -/
def invalidItem (mode : DeduplicationMode) (item : α) : Option DeduplicationError :=
  match compareValues rank mode (some item) (some item) with
  | .error e => some e
  | .ok _ => none

/-- The batch in ascending order. Sorting two or more items compares each of them. -/
def sortEntries (items : List α) (mode : DeduplicationMode) :
    Except DeduplicationError (List α) :=
  if items.length ≤ 1 then .ok items
  else
    match items.findSome? (invalidItem rank mode) with
    | some e => .error e
    | none => .ok (items.mergeSort (precedes rank mode))

/-- One round over the sorted batch: compare an item with the stored value and with the largest
value so far. -/
def latestRound (mode : DeduplicationMode) (stored : Option α)
    (acc : DeduplicationOutput α × Option α) (item : α) :
    Except DeduplicationError (DeduplicationOutput α × Option α) := do
  let (returnData, largestValue) := acc
  let comparison ← compareValues rank mode (some item) stored
  if comparison = .gt then
    let comparison ← compareValues rank mode (some item) largestValue
    .ok ({ returnData with new := returnData.new ++ [item] },
      if comparison = .gt then some item else largestValue)
  else .ok ({ returnData with processed := returnData.processed ++ [item] }, largestValue)

def handleLatestModes (items : List α) (key : List Char × List Char) (options : CheckOptions)
    (processedData : Option (ProcessedValue α η)) (table : ProcessedTable α η) :
    Except DeduplicationError (DeduplicationOutput α) × ProcessedTable α η :=
  match sortEntries rank items options.mode with
  | .error e => (.error e, table)
  | .ok incomingItems =>
    match processedData with
    | none =>
      (.ok ⟨items, []⟩, table.set key ⟨options.mode, .latest incomingItems.getLast?⟩)
    | some ⟨_, .entries _⟩ => (.ok ⟨[], []⟩, table)
    | some ⟨mode, .latest data⟩ =>
      match incomingItems.foldlM (latestRound rank options.mode data) (⟨[], []⟩, data) with
      | .error e => (.error e, table)
      | .ok (returnData, largestValue) =>
        (.ok returnData, table.set key ⟨mode, .latest largestValue⟩)

end LatestModes

section Entries

variable [DecidableEq η] (createValueHash : α → η)

/-- The last of the hashes, when their number is limited. -/
def limitEntries (maxEntries : Option Nat) (data : List η) : List η :=
  match maxEntries with
  | none | some 0 => data
  | some max => data.drop (data.length - max)

def handleHashedItems (items : List α) (key : List Char × List Char) (options : CheckOptions)
    (processedData : Option (ProcessedValue α η)) (table : ProcessedTable α η) :
    Except DeduplicationError (DeduplicationOutput α) × ProcessedTable α η :=
  let hashedItems := items.map createValueHash
  match processedData with
  | none =>
    (.ok ⟨items, []⟩,
      table.set key ⟨options.mode, .entries (limitEntries options.maxEntries hashedItems)⟩)
  | some ⟨_, .latest _⟩ => (.ok ⟨[], []⟩, table)
  | some ⟨mode, .entries data⟩ =>
    -- The set of processed hashes is built once, before the batch is recorded.
    let returnData : DeduplicationOutput α :=
      ⟨items.filter (createValueHash · ∉ data), items.filter (createValueHash · ∈ data)⟩
    (.ok returnData,
      table.set key ⟨mode, .entries (limitEntries options.maxEntries
        (data ++ hashedItems.filter (· ∉ data)))⟩)

end Entries

section Calls

variable [DecidableEq η] [LinearOrder κ] (createValueHash : α → η)
  (rank : DeduplicationMode → α → Option κ)

def checkProcessedAndRecord (items : List α) (scope : DeduplicationScope)
    (contextData : ContextData) (options : CheckOptions) (table : ProcessedTable α η) :
    Except DeduplicationError (DeduplicationOutput α) × ProcessedTable α η :=
  match createContext scope contextData with
  | .error e => (.error e, table)
  | .ok dbContext =>
    if contextData.workflowId = [] then (.error .assertion, table)
    else
      let key := (contextData.workflowId, dbContext)
      let processedData := table.get? key
      match validateMode processedData options with
      | .error e => (.error e, table)
      | .ok () =>
        if options.mode = .latestIncrementalKey ∨ options.mode = .latestDate then
          handleLatestModes rank items key options processedData table
        else handleHashedItems createValueHash items key options processedData table

def removeProcessed (items : List α) (scope : DeduplicationScope) (contextData : ContextData)
    (options : CheckOptions) (table : ProcessedTable α η) :
    Except DeduplicationError Unit × ProcessedTable α η :=
  if options.mode = .latestIncrementalKey ∨ options.mode = .latestDate then
    (.error (.deduplication "Removing processed data is not possible in mode \"latest\""), table)
  else if contextData.workflowId = [] then (.error .assertion, table)
  else
    match createContext scope contextData with
    | .error e => (.error e, table)
    | .ok dbContext =>
      let key := (contextData.workflowId, dbContext)
      match table.get? key with
      | some ⟨mode, .entries data⟩ =>
        -- For each item the first equal hash is taken out.
        (.ok (),
          table.set key ⟨mode, .entries ((items.map createValueHash).foldl List.erase data)⟩)
      | _ => (.ok (), table)

def clearAllProcessedItems (scope : DeduplicationScope) (contextData : ContextData)
    (table : ProcessedTable α η) : Except DeduplicationError Unit × ProcessedTable α η :=
  match createContext scope contextData with
  | .error e => (.error e, table)
  | .ok dbContext => (.ok (), table.delete (contextData.workflowId, dbContext))

end Calls

end N8n.Deduplication
