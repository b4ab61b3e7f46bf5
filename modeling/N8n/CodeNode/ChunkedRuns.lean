import N8n.Collections.Fallible
import N8n.Collections.PropertyTree
import N8n.Text.Equality

/-!
# Runs in chunks

The runner gets the items of a chunk at their places, and runs the code for each of them, so that
the results of the chunks, one after the other, are the results of one run over all the items. The
array that the runner fills up has no places for the items after the chunk.
-/

namespace N8n.CodeNode

open Collections

/-! ## The code node, item by item

In the mode that runs the code once for each item, the node splits its input into chunks and starts
a job for each of them. The requester strips the input to the chunk, and the runner fills it up
again and runs the code for the items of the chunk. See `runCodeForEachItem` of
`packages/nodes-base/nodes/Code/JsTaskRunnerSandbox.ts`, `stripInputData` of
`packages/cli/src/task-runners/task-managers/data-request-response-stripper.ts`,
`reconstructConnectionInputItems` of
`packages/@n8n/task-runner/src/data-request/data-request-response-reconstruct.ts`, and
`runForEachItem` of `packages/@n8n/task-runner/src/js-task-runner/js-task-runner.ts` with
`validateRunForEachItemOutput`. The time limit of a job is left out.
-/

/-- `InputDataChunkDefinition`. -/
structure Chunk where
  startIndex : Nat
  count : Nat
  deriving DecidableEq, Repr

section InputData

variable {ι : Type}

/-- `stripChunkedInputData(inputData)`, for the items of the first main input. -/
def stripChunkedInputData (chunk : Chunk) (inputItems : Option (List ι)) : Option (List ι) :=
  inputItems.map fun inputItems =>
    inputItems.extract chunk.startIndex (chunk.startIndex + chunk.count)

/-- `stripInputData(inputData)`: the input is included if the code uses it. -/
def stripInputData (includeInput : Bool) (chunk : Option Chunk) (inputItems : Option (List ι)) :
    Option (List ι) :=
  if includeInput then
    match chunk with
    | some chunk => stripChunkedInputData chunk inputItems
    | none => inputItems
  else none

/-- `reconstructConnectionInputItems(inputData, chunk)`. The array that `Array.from` makes for a
negative length is empty. -/
def reconstructConnectionInputItems (inputItems : Option (List ι)) (chunk : Option Chunk) :
    List (Option ι) :=
  let inputItems := inputItems.getD []
  match chunk with
  | none => inputItems.map some
  | some chunk =>
    List.replicate chunk.startIndex none ++ inputItems.map some ++
      List.replicate
        ((inputItems.length : Int) - chunk.startIndex - chunk.count).toNat none

end InputData

section Validation

/-- An error of the runner, as far as the node reads it. -/
structure ExecutionError where
  message : List Char
  description : List Char
  itemIndex : Option Nat
  deriving DecidableEq

/-- `new ValidationError({ message, description, itemIndex })`. -/
def validationError (message description : List Char) (itemIndex : Nat) : ExecutionError :=
  { message := message ++ " [item ".toList ++ (toString itemIndex).toList ++ [']']
    description
    itemIndex := some itemIndex }

/-- `new ReservedKeyFoundError(reservedKey, itemIndex)`. -/
def reservedKeyFoundError (reservedKey : List Char) (itemIndex : Nat) : ExecutionError :=
  validationError "Invalid output format".toList
    ("An output item contains the reserved key <code>".toList ++ reservedKey ++
      ("</code>. To get around this, please wrap each item in an object, under a key called " ++
        "<code>json</code>. <a href=\"https://docs.n8n.io/data/data-structure/" ++
        "#data-structure\" target=\"_blank\">Example</a>").toList)
    itemIndex

/-- `REQUIRED_N8N_ITEM_KEYS`. -/
def requiredN8nItemKeys : List (List Char) :=
  ["json".toList, "binary".toList, "pairedItem".toList, "error".toList, "index".toList]

/-- The properties of an object in their order. -/
abbrev Entries := List (PropertyKey × PropertyTree)

/-- `'name' in item`. -/
def hasProperty (item : Entries) (name : String) : Bool :=
  (item.lookup (.name name.toList)).isSome

/-- The text of a key. -/
def keyText : PropertyKey → List Char
  | .index n => (toString n).toList
  | .name text => text

/-- `typeof value`. -/
def typeofText : PropertyTree → List Char
  | .undefined => "undefined".toList
  | .boolean _ => "boolean".toList
  | .number _ => "number".toList
  | .string _ => "string".toList
  | .null | .array _ | .object _ => "object".toList

/-- `normalizeItems([item])`. -/
def normalizeItem (item : Entries) : Entries :=
  if hasProperty item "json" then item
  else if hasProperty item "binary" then
    [(.name "json".toList,
        .object (item.filter fun entry => decide (entry.1 ≠ .name "binary".toList))),
      (.name "binary".toList, (PropertyTree.object item).get (.name "binary".toList))]
  else [(.name "json".toList, .object item)]

/-- `validateItem(item, itemIndex)`. -/
def validateItem (item : Entries) (itemIndex : Nat) : Except ExecutionError Unit :=
  match (PropertyTree.object item).get (.name "json".toList),
    (PropertyTree.object item).get (.name "binary".toList) with
  | .object _, .undefined | .object _, .object _ => .ok ()
  | .object _, _ =>
    .error (validationError "A 'binary' property isn't an object".toList
      "In the returned data, every key named 'binary' must point to an object.".toList itemIndex)
  | _, _ =>
    .error (validationError "A 'json' property isn't an object".toList
      "In the returned data, every key named 'json' must point to an object.".toList itemIndex)

/-- `validateTopLevelKeys(item, itemIndex)`. -/
def validateTopLevelKeys (item : Entries) (itemIndex : Nat) : Except ExecutionError Unit :=
  let keys := item.map fun entry => keyText entry.1
  match keys.filter fun key => decide (key ∉ requiredN8nItemKeys),
    keys.find? fun key => decide (key ∈ requiredN8nItemKeys) with
  | [], _ => .ok ()
  | _ :: _, some foundReservedKey => .error (reservedKeyFoundError foundReservedKey itemIndex)
  | unknownKey :: _, none =>
    .error (validationError ("Unknown top-level item key: ".toList ++ unknownKey)
      "Access the properties of an item under `.json`, e.g. `item.json`".toList itemIndex)

/-- `validateRunForEachItemOutput(executionResult, itemIndex)`. The first argument converts a
primitive value to a text. -/
def validateRunForEachItemOutput (primitiveText : PropertyTree → List Char) (itemIndex : Nat) :
    PropertyTree → Except ExecutionError Entries
  | .object executionResult => do
    let returnData := normalizeItem executionResult
    validateItem returnData itemIndex
    validateTopLevelKeys returnData itemIndex
    .ok returnData
  | .array executionResult =>
    let firstSentence :=
      match executionResult with
      | first :: _ =>
        "An array of ".toList ++ typeofText first ++ "s was returned.".toList
      | [] => "An empty array was returned.".toList
    .error (validationError "Code doesn't return a single object".toList
      (firstSentence ++ (" If you need to output multiple items, please use the " ++
        "'Run Once for All Items' mode instead.").toList) itemIndex)
  | .null =>
    .error
      { message := "Cannot use 'in' operator to search for 'json' in null".toList
        description := []
        itemIndex := none }
  | executionResult =>
    .error (validationError "Code doesn't return an object".toList
      ("Please return an object representing the output item. ('".toList ++
        primitiveText executionResult ++ "' was returned instead.)".toList) itemIndex)

end Validation

/-- An item that the node outputs; `pairedItem` is the item of its `pairedItem`. -/
structure ReturnedItem where
  json : PropertyTree
  pairedItem : Nat
  binary : Option PropertyTree

/-- What the runner is given: the context that it builds for a task, the code, which runs in a
context on the input items at an index and may change the context, and how errors and primitive
values are converted. -/
structure Runner (κ ι ε : Type) where
  buildContext : κ
  runCode : κ → List (Option ι) → Nat → κ × Except ε PropertyTree
  toExecutionErrorIfNeeded : ε → ExecutionError
  primitiveText : PropertyTree → List Char
  throwExecutionError : ExecutionError → ExecutionError

namespace Runner

variable {κ ι ε : Type} (r : Runner κ ι ε) (continueOnFail : Bool)

/-- What is pushed to `returnData` for the result of the code. -/
def returnedItems (index : Nat) (result : Except ε PropertyTree) :
    Except ExecutionError (List ReturnedItem) :=
  let validated : Except ExecutionError (List ReturnedItem) :=
    match result with
    | .ok .null => .ok []
    | .ok result => do
      let item ← validateRunForEachItemOutput r.primitiveText index result
      let binary :=
        match (PropertyTree.object item).get (.name "binary".toList) with
        | .undefined => none
        | binary => some binary
      .ok [{ json := (PropertyTree.object item).get (.name "json".toList)
             pairedItem := index
             binary }]
    | .error e => .error (r.toExecutionErrorIfNeeded e)
  match validated with
  | .ok items => .ok items
  | .error error =>
    if continueOnFail then
      .ok [{ json := .object [(.name "error".toList, .string error.message)]
             pairedItem := index
             binary := none }]
    else .error error

/-- A round of the loop of `runForEachItem`. -/
def forIndex (connectionInputData : List (Option ι)) (loop : κ × List ReturnedItem) (index : Nat) :
    Except ExecutionError (κ × List ReturnedItem) := do
  let (context, result) := r.runCode loop.1 connectionInputData index
  let items ← r.returnedItems continueOnFail index result
  .ok (context, loop.2 ++ items)

/-- The indexes that `runForEachItem` runs the code for. -/
def indexes (chunk : Option Chunk) (connectionInputData : List (Option ι)) : List Nat :=
  match chunk with
  | some chunk => List.range' chunk.startIndex chunk.count
  | none => List.range connectionInputData.length

/-- `runForEachItem(taskId, settings, data, workflow, signal)`. -/
def runForEachItem (chunk : Option Chunk) (connectionInputData : List (Option ι)) :
    Except ExecutionError (List ReturnedItem) :=
  ((indexes chunk connectionInputData).foldlM
    (r.forIndex continueOnFail connectionInputData) (r.buildContext, [])).map Prod.snd

/-- `startJob` of the node: the requester sends the input of the chunk to the runner, which runs the
code. -/
def startJob (includeInput : Bool) (items : List ι) (chunk : Option Chunk) :
    Except ExecutionError (List ReturnedItem) :=
  let inputData := stripInputData includeInput chunk (some items)
  (r.runForEachItem continueOnFail chunk
    (reconstructConnectionInputItems inputData chunk)).mapError r.throwExecutionError

/-- `chunkInputItems(numInputItems)`. -/
def chunkInputItems (chunkSize numInputItems : Nat) : List Chunk :=
  let numChunks := (numInputItems + chunkSize - 1) / chunkSize
  (List.range numChunks).map fun i =>
    { startIndex := i * chunkSize
      count := if i = numChunks - 1 then numInputItems - i * chunkSize else chunkSize }

/-- `runCodeForEachItem(numInputItems)` for as many items as the node has. -/
def runCodeForEachItem (includeInput : Bool) (chunkSize : Nat) (items : List ι) :
    Except ExecutionError (List ReturnedItem) :=
  (chunkInputItems chunkSize items.length).foldlM
    (fun executionResults chunk =>
      (r.startJob continueOnFail includeInput items (some chunk)).map (executionResults ++ ·))
    []

end Runner

/-! ## Runs in chunks -/

section Reconstruction

variable {ι : Type} (items : List ι) (chunk : Chunk)

/-- What the runner has for the input items of a node, when a chunk of them is requested. -/
def reconstructed : List (Option ι) :=
  reconstructConnectionInputItems (stripInputData true (some chunk) (some items)) (some chunk)

/-- The runner has an array of the original length, with the items of the chunk at their places and
`undefined` elsewhere. -/
structure RoundTrip : Prop where
  length : (reconstructed items chunk).length = items.length
  items : ∀ index < items.length, (reconstructed items chunk)[index]? =
    some (if chunk.startIndex ≤ index ∧ index < chunk.startIndex + chunk.count then items[index]?
      else none)

/-- Nothing is filled in after the chunk, since the stripped items are at most as many as the chunk
has. -/
theorem reconstructed_eq : reconstructed items chunk =
    List.replicate chunk.startIndex none ++
      (items.extract chunk.startIndex (chunk.startIndex + chunk.count)).map some := by
  have hlength : (items.extract chunk.startIndex (chunk.startIndex + chunk.count)).length ≤
      chunk.count := by
    simp only [List.extract_eq_take_drop, List.length_take]
    omega
  have hrest : (((items.extract chunk.startIndex (chunk.startIndex + chunk.count)).length : Int) -
      chunk.startIndex - chunk.count).toNat = 0 := by omega
  have hstripped : (stripInputData true (some chunk) (some items)).getD [] =
      items.extract chunk.startIndex (chunk.startIndex + chunk.count) := rfl
  rw [reconstructed, reconstructConnectionInputItems, hstripped, hrest, List.replicate_zero,
    List.append_nil]

theorem reconstructed_length : (reconstructed items chunk).length =
    chunk.startIndex + min chunk.count (items.length - chunk.startIndex) := by
  rw [reconstructed_eq]
  simp [List.extract_eq_take_drop]

theorem reconstructed_before {index : Nat} (h : index < chunk.startIndex) :
    (reconstructed items chunk)[index]? = some none := by
  rw [reconstructed_eq, List.getElem?_append_left (by simpa using h)]
  simp [h]

theorem reconstructed_within {index : Nat} (hstart : chunk.startIndex ≤ index)
    (hend : index < chunk.startIndex + chunk.count) :
    (reconstructed items chunk)[index]? = items[index]?.map some := by
  rw [reconstructed_eq, List.getElem?_append_right (by simpa using hstart)]
  simp only [List.length_replicate, List.getElem?_map, List.extract_eq_take_drop]
  rw [List.getElem?_take_of_lt (by omega), List.getElem?_drop, Nat.add_sub_cancel' hstart]

theorem roundTrip_iff : RoundTrip items chunk ↔
    chunk.startIndex ≤ items.length ∧ items.length ≤ chunk.startIndex + chunk.count := by
  have hlength := reconstructed_length items chunk
  constructor
  · intro h
    have htotal := h.length
    omega
  · rintro ⟨hstart, hend⟩
    refine ⟨by omega, fun index hindex => ?_⟩
    by_cases hchunk : chunk.startIndex ≤ index
    · rw [if_pos ⟨hchunk, by omega⟩, reconstructed_within items chunk hchunk (by omega),
        List.getElem?_eq_getElem hindex]
      rfl
    · rw [if_neg fun h => hchunk h.1, reconstructed_before items chunk (by omega)]

end Reconstruction

section Chunks

theorem flatMap_range_blocks (size count : Nat) :
    (List.range count).flatMap (fun i => List.range' (i * size) size) =
      List.range' 0 (count * size) := by
  induction count with
  | zero => simp
  | succ count ih =>
    rw [List.range_succ, List.flatMap_append, ih, List.flatMap_singleton]
    have happend := List.range'_append_1 (s := 0) (m := count * size) (n := size)
    rw [Nat.zero_add] at happend
    rw [happend, Nat.succ_mul]

theorem chunkInputItems_indexes {chunkSize : Nat} (hsize : 0 < chunkSize) (numInputItems : Nat) :
    (Runner.chunkInputItems chunkSize numInputItems).flatMap
      (fun chunk => List.range' chunk.startIndex chunk.count) = List.range' 0 numInputItems := by
  have hlow := Nat.div_mul_le_self (numInputItems + chunkSize - 1) chunkSize
  have hhigh := Nat.lt_div_mul_add (a := numInputItems + chunkSize - 1) hsize
  rw [Runner.chunkInputItems, List.flatMap_map]
  generalize hchunks : (numInputItems + chunkSize - 1) / chunkSize = numChunks at hlow hhigh ⊢
  cases numChunks with
  | zero =>
    have hzero : numInputItems = 0 := by omega
    simp [hzero]
  | succ full =>
    rw [Nat.succ_mul] at hlow hhigh
    rw [List.range_succ, List.flatMap_append, List.flatMap_singleton, Nat.add_sub_cancel,
      if_pos rfl]
    -- the chunks before the last one are full
    have hfull : ((List.range full).flatMap fun i =>
        List.range' (i * chunkSize)
          (if i = full then numInputItems - i * chunkSize else chunkSize)) =
        (List.range full).flatMap fun i => List.range' (i * chunkSize) chunkSize := by
      refine List.flatMap_congr fun i hi => ?_
      rw [if_neg (Nat.ne_of_lt (List.mem_range.mp hi))]
    have happend := List.range'_append_1 (s := 0) (m := full * chunkSize)
      (n := numInputItems - full * chunkSize)
    rw [Nat.zero_add, Nat.add_sub_cancel' (by omega)] at happend
    rw [hfull, flatMap_range_blocks, happend]

end Chunks

namespace Runner

variable {κ ι ε : Type} {r : Runner κ ι ε} {continueOnFail includeInput : Bool}

/-- The code reads its own item only: the result at an index is a function of the index and the item
there, whatever the context and the other items are. -/
def PerItem (r : Runner κ ι ε) (result : Nat → Option ι → Except ε PropertyTree) : Prop :=
  ∀ context connectionInputData index,
    (r.runCode context connectionInputData index).2 =
      result index (connectionInputData[index]?.getD none)

variable {result : Nat → Option ι → Except ε PropertyTree}

theorem forIndex_loop (hcode : r.PerItem result) (connectionInputData : List (Option ι))
    (indexes : List Nat) : ∀ loop : κ × List ReturnedItem,
    (indexes.foldlM (r.forIndex continueOnFail connectionInputData) loop).map Prod.snd =
      (indexes.flatMapM fun index => r.returnedItems continueOnFail index
        (result index (connectionInputData[index]?.getD none))).map (loop.2 ++ ·) := by
  induction indexes with
  | nil =>
    intro loop
    simp [pure, Except.pure, Except.map]
  | cons index indexes ih =>
    intro loop
    have hround : r.forIndex continueOnFail connectionInputData loop index =
        (r.returnedItems continueOnFail index
          (result index (connectionInputData[index]?.getD none))).map fun items =>
            ((r.runCode loop.1 connectionInputData index).1, loop.2 ++ items) := by
      rw [forIndex, ← hcode loop.1]
      rfl
    rw [List.foldlM_cons, List.flatMapM_cons, hround]
    cases hitems : r.returnedItems continueOnFail index
        (result index (connectionInputData[index]?.getD none)) with
    | error e => rfl
    | ok items =>
      refine (ih ((r.runCode loop.1 connectionInputData index).1, loop.2 ++ items)).trans ?_
      generalize (indexes.flatMapM fun index => r.returnedItems continueOnFail index
        (result index (connectionInputData[index]?.getD none))) = rest
      cases rest with
      | error e => rfl
      | ok rest => simp [bind, Except.bind, Except.map, pure, Except.pure, List.append_assoc]

theorem runForEachItem_eq (hcode : r.PerItem result) (chunk : Option Chunk)
    (connectionInputData : List (Option ι)) :
    r.runForEachItem continueOnFail chunk connectionInputData =
      (indexes chunk connectionInputData).flatMapM fun index =>
        r.returnedItems continueOnFail index
          (result index (connectionInputData[index]?.getD none)) := by
  rw [runForEachItem, forIndex_loop hcode]
  cases (indexes chunk connectionInputData).flatMapM fun index =>
    r.returnedItems continueOnFail index
      (result index (connectionInputData[index]?.getD none)) <;> rfl

/-- The result of the job for one item, with the item that the runner has if it gets the input. -/
def itemJob (r : Runner κ ι ε) (continueOnFail includeInput : Bool)
    (result : Nat → Option ι → Except ε PropertyTree) (items : List ι) (index : Nat) :
    Except ExecutionError (List ReturnedItem) :=
  (r.returnedItems continueOnFail index
    (result index (if includeInput then items[index]? else none))).mapError r.throwExecutionError

theorem item_within (items : List ι) (chunk : Chunk) {index : Nat}
    (hindex : index ∈ List.range' chunk.startIndex chunk.count) :
    (reconstructConnectionInputItems
      (stripInputData includeInput (some chunk) (some items)) (some chunk))[index]?.getD none =
      if includeInput then items[index]? else none := by
  obtain ⟨hstart, hend⟩ := List.mem_range'_1.mp hindex
  cases includeInput with
  | true =>
    have hitem := reconstructed_within items chunk hstart hend
    rw [reconstructed] at hitem
    rw [hitem]
    cases items[index]? <;> rfl
  | false =>
    -- without the input, the runner has nothing from the start of the chunk on
    have hlength : (reconstructConnectionInputItems (ι := ι) (none : Option (List ι))
        (some chunk)).length ≤ index := by
      simp [reconstructConnectionInputItems]
      omega
    show (reconstructConnectionInputItems (none : Option (List ι)) (some chunk))[index]?.getD
      none = none
    rw [List.getElem?_eq_none hlength]
    rfl

theorem startJob_chunk (hcode : r.PerItem result) (items : List ι) (chunk : Chunk) :
    r.startJob continueOnFail includeInput items (some chunk) =
      (List.range' chunk.startIndex chunk.count).flatMapM
        (r.itemJob continueOnFail includeInput result items) := by
  rw [startJob, runForEachItem_eq hcode, mapError_flatMapM]
  refine flatMapM_congr fun index hindex => ?_
  rw [item_within items chunk hindex]
  rfl

theorem startJob_unchunked (hcode : r.PerItem result) (items : List ι) :
    r.startJob continueOnFail true items none =
      (List.range' 0 items.length).flatMapM (r.itemJob continueOnFail true result items) := by
  have hdata : reconstructConnectionInputItems (stripInputData true none (some items)) none =
      items.map some := rfl
  rw [startJob, runForEachItem_eq hcode, mapError_flatMapM, hdata, indexes, List.length_map,
    List.range_eq_range']
  refine flatMapM_congr fun index hindex => ?_
  have hitem : (items.map some)[index]?.getD none = items[index]? := by
    rw [List.getElem?_map]
    cases items[index]? <;> rfl
  rw [hitem]
  rfl

theorem runCodeForEachItem_eq (hcode : r.PerItem result) {chunkSize : Nat} (hsize : 0 < chunkSize)
    (items : List ι) :
    r.runCodeForEachItem continueOnFail includeInput chunkSize items =
      (List.range' 0 items.length).flatMapM
        (r.itemJob continueOnFail includeInput result items) := by
  rw [runCodeForEachItem, foldlM_collects, ← chunkInputItems_indexes hsize, flatMapM_flatMap,
    flatMapM_congr fun chunk _ => startJob_chunk hcode items chunk]
  cases (chunkInputItems chunkSize items.length).flatMapM fun chunk =>
    (List.range' chunk.startIndex chunk.count).flatMapM
      (r.itemJob continueOnFail includeInput result items) <;> rfl

/-- A chunked run of the code agrees with one run over all the items. -/
structure ChunkedAgrees (r : Runner κ ι ε) (continueOnFail includeInput : Bool) (items : List ι)
    (chunk : Chunk) : Prop where
  roundTrip : RoundTrip items chunk
  concatenated : ∀ chunkSize, 0 < chunkSize →
    r.runCodeForEachItem continueOnFail includeInput chunkSize items =
      r.startJob continueOnFail includeInput items (some { startIndex := 0, count := items.length })
  unchunked : includeInput = true →
    r.startJob continueOnFail includeInput items (some { startIndex := 0, count := items.length }) =
      r.startJob continueOnFail includeInput items none

/-- For code that reads its own item only, the results of the chunks are the results of one run, and
the runner has an array of the original length if the chunk lies in the list and no items come after
it. -/
theorem chunked_agrees_iff (hcode : ∃ result, r.PerItem result) (continueOnFail includeInput : Bool)
    (items : List ι) (chunk : Chunk) :
    r.ChunkedAgrees continueOnFail includeInput items chunk ↔
      chunk.startIndex ≤ items.length ∧ items.length ≤ chunk.startIndex + chunk.count := by
  obtain ⟨result, hcode⟩ := hcode
  constructor
  · exact fun h => (roundTrip_iff items chunk).mp h.roundTrip
  · refine fun h => ⟨(roundTrip_iff items chunk).mpr h, fun chunkSize hsize => ?_, fun hinput => ?_⟩
    · rw [runCodeForEachItem_eq hcode hsize, startJob_chunk hcode]
    · subst hinput
      rw [startJob_chunk hcode, startJob_unchunked hcode]

/-- A runner of code that returns the number that is its item. -/
def exampleRunner : Runner Unit Rat Unit :=
  { buildContext := ()
    runCode := fun context connectionInputData index =>
      (context, .ok (.object [(.name ['a'],
        match connectionInputData[index]?.getD none with
        | some a => .number a
        | none => .undefined)]))
    toExecutionErrorIfNeeded := fun _ => { message := [], description := [], itemIndex := none }
    primitiveText := fun _ => []
    throwExecutionError := id }

theorem example_perItem : exampleRunner.PerItem fun _ item =>
    .ok (.object [(.name ['a'],
      match item with
      | some a => .number a
      | none => .undefined)]) :=
  fun _ _ _ => rfl

/-- The last one of two chunks. -/
theorem chunked_agrees_last :
    exampleRunner.ChunkedAgrees false true [1, 2, 3] { startIndex := 2, count := 1 } :=
  (chunked_agrees_iff ⟨_, example_perItem⟩ false true [1, 2, 3] _).mpr (by decide)

/-- The runner that gets the first one of three items has an array of length one. -/
theorem first_chunk_not_filled :
    ¬ exampleRunner.ChunkedAgrees false true [1, 2, 3] { startIndex := 0, count := 1 } := by
  intro h
  have hlength := h.roundTrip.length
  rw [reconstructed_length] at hlength
  exact absurd hlength (by decide)

end Runner

end N8n.CodeNode
