import N8n.Collections.Slices
import N8n.PairedItems.GetPairedItem

/-!
# Loop Over Items

`execute` of `packages/nodes-base/nodes/SplitInBatches/v3/SplitInBatchesV3.node.ts`: each call of
the node sends the next batch of its items to the loop output, until none is left and the items
that came back leave through the done output. `Called` says what a call leaves in the context.
-/

namespace N8n.SplitInBatches

open Collections Execution PairedItems

variable {γ : Type}

/-- An item, with its contents apart from `pairedItem`. -/
structure Item (γ : Type) where
  content : γ
  pairedItem : PairedItem := .undefined

/-- `nodeContext`, which the calls of the node share. -/
structure NodeContext (γ : Type) where
  /-- The items that are left, once the node has run. -/
  items : Option (List (Item γ)) := none
  currentRunIndex : Nat := 0
  maxRunIndex : Int := 0
  sourceData : Option ISourceData := none
  processedItems : List (Item γ) := []
  noItemsLeft : Bool := false
  done : Bool := false

/-- What a call leaves and sends to the outputs. -/
structure Result (γ : Type) where
  context : NodeContext γ
  doneOutput : List (Item γ)
  loopOutput : List (Item γ)

/-- `addSourceOverwrite(pairedItem)`. -/
def addSourceOverwrite (sourceData : Option ISourceData) : PairedItemEntry → IPairedItemData
  | .number item => { item := some item, sourceOverwrite := sourceData }
  | .object data => { data with sourceOverwrite := sourceData }

/-- `getPairedItemInformation(item)`. -/
def getPairedItemInformation (sourceData : Option ISourceData) (item : Item γ) : PairedItem :=
  match item.pairedItem with
  | .undefined => .single (.object { item := some 0, sourceOverwrite := sourceData })
  | .null => .single (.object { sourceOverwrite := sourceData })
  | .single entry => .single (.object (addSourceOverwrite sourceData entry))
  | .array entries =>
    .array (entries.map fun entry => .object (addSourceOverwrite sourceData entry))

/-- The outputs, once the context is up to date. -/
def output (context : NodeContext γ) (returnItems : List (Item γ)) : Result γ :=
  let context := { context with noItemsLeft := (context.items.getD []).isEmpty }
  if returnItems.isEmpty then ⟨{ context with done := true }, context.processedItems, []⟩
  else ⟨{ context with done := false }, [], returnItems⟩

/-- How many items `splice` takes: the whole part of the batch size. -/
def spliced (batchSize : Rat) : Nat := batchSize.floor.toNat

section Execute

variable (batchSize : Rat) (inputData : List (Item γ)) (inputSourceData : Option ISourceData)

/-- Is the first time the node runs. -/
def firstRun (nodeContext : NodeContext γ) : Result γ :=
  output
    { nodeContext with
      currentRunIndex := 0
      maxRunIndex := ((inputData.length : Rat) / batchSize).ceil
      sourceData := inputSourceData
      items := some (inputData.drop (spliced batchSize))
      processedItems := [] }
    (inputData.take (spliced batchSize))

/-- The node has been called before. So return the next batch of items. -/
def nextRun (nodeContext : NodeContext γ) (items : List (Item γ)) : Result γ :=
  let newItems := inputData.zipIdx.map fun (item, index) =>
    { item with pairedItem := .single (.object
        { item := some index, sourceOverwrite := inputSourceData }) }
  output
    { nodeContext with
      currentRunIndex := nodeContext.currentRunIndex + 1
      items := some (items.drop (spliced batchSize))
      processedItems := nodeContext.processedItems ++ newItems }
    ((items.take (spliced batchSize)).map fun item =>
      { item with pairedItem := getPairedItemInformation nodeContext.sourceData item })

/-- `execute()`. -/
def execute (reset : Bool) (nodeContext : NodeContext γ) : Result γ :=
  match nodeContext.items, reset with
  | some items, false => nextRun batchSize inputData inputSourceData nodeContext items
  | _, _ => firstRun batchSize inputData inputSourceData nodeContext

end Execute

section Calls

variable (batchSize : Rat) (inputData : List (Item γ)) (inputSourceData : Option ISourceData)
  (returned : Nat → List (Item γ) × Option ISourceData)

/-- The calls of the node without the reset option; the items that come back from the batch with
the number `k` are the input of the next call. -/
def call : Nat → Result γ
  | 0 => execute batchSize inputData inputSourceData false {}
  | k + 1 => execute batchSize (returned k).1 (returned k).2 false (call k).context

/-- What a call leaves after the batch with the number `k`. -/
structure Called (k : Nat) (r : Result γ) : Prop where
  left : r.context.items = some (inputData.drop ((k + 1) * spliced batchSize))
  processed : r.context.processedItems.map (·.content) =
    (List.range k).flatMap fun i => (returned i).1.map (·.content)
  batch : r.loopOutput.map (·.content) = slice (inputData.map (·.content)) (spliced batchSize) k
  done : r.context.done = r.loopOutput.isEmpty
  doneOutput : r.doneOutput = if r.context.done then r.context.processedItems else []

variable {batchSize inputData returned} {inputSourceData}

theorem called_output {k : Nat} {context : NodeContext γ} {returnItems : List (Item γ)}
    (hleft : context.items = some (inputData.drop ((k + 1) * spliced batchSize)))
    (hprocessed : context.processedItems.map (·.content) =
      (List.range k).flatMap fun i => (returned i).1.map (·.content))
    (hbatch : returnItems.map (·.content) =
      slice (inputData.map (·.content)) (spliced batchSize) k) :
    Called batchSize inputData returned k (output context returnItems) := by
  rw [output]
  dsimp only
  split
  · rename_i hempty
    rw [List.isEmpty_iff.mp hempty] at hbatch
    exact ⟨hleft, hprocessed, hbatch, rfl, rfl⟩
  · rename_i hmore
    exact ⟨hleft, hprocessed, hbatch, (by simpa using hmore), rfl⟩

theorem called_call (k : Nat) : Called batchSize inputData returned k
    (call batchSize inputData inputSourceData returned k) := by
  induction k with
  | zero =>
    refine called_output (by simp) rfl ?_
    rw [slice, Nat.zero_mul, List.drop_zero, List.map_take]
  | succ k ih =>
    have hleft := ih.left
    rw [call]
    unfold execute
    simp only [hleft]
    rw [nextRun]
    refine called_output ?_ ?_ ?_
    · rw [List.drop_drop, ← Nat.succ_mul]
    · rw [List.map_append, ih.processed, List.range_succ, List.flatMap_append,
        List.flatMap_singleton, List.map_map]
      refine congrArg _ (List.ext_getElem (by simp) fun i _ _ => by simp)
    · rw [List.map_map, slice, ← List.map_drop, ← List.map_take]
      rfl

/-- Every item is processed once: the batches before the done output make up the input, all but the
last of them are full, and the done output carries all items that came back. -/
theorem loops_over_items (batchSize : Rat) (inputData : List (Item γ))
    (inputSourceData : Option ISourceData) (returned : Nat → List (Item γ) × Option ISourceData)
    (hsize : 1 ≤ batchSize) :
    let size := spliced batchSize
    let result := call batchSize inputData inputSourceData returned
    let batches := inputData.length ⌈/⌉ size
    (∀ n : Nat, batchSize = n → size = n) ∧
      ((List.range batches).flatMap fun k => (result k).loopOutput.map (·.content)) =
        inputData.map (·.content) ∧
      (∀ k, k + 1 < batches → (result k).loopOutput.length = size) ∧
      (∀ k < batches, (result k).context.done = false ∧ (result k).doneOutput = []) ∧
      (result batches).context.done = true ∧ (result batches).loopOutput = [] ∧
      (result batches).doneOutput.map (·.content) =
        (List.range batches).flatMap fun k => (returned k).1.map (·.content) := by
  intro size result batches
  have hpos : 0 < size := by
    have hfloor : (1 : Int) ≤ batchSize.floor := Rat.le_floor_iff.mpr (by exact_mod_cast hsize)
    have := Int.toNat_le_toNat hfloor
    exact this
  have hcalled : ∀ k, Called batchSize inputData returned k (result k) := called_call
  have hempty : ∀ k, (result k).loopOutput = [] ↔ batches ≤ k := fun k => by
    rw [← List.map_eq_nil_iff, (hcalled k).batch, slice_eq_nil_iff hpos, List.length_map]
  have hlast : (result batches).loopOutput = [] := (hempty batches).mpr (Nat.le_refl _)
  have hdone : (result batches).context.done = true := by
    rw [(hcalled batches).done, hlast]
    rfl
  refine ⟨fun n hn => ?_, ?_, fun k hk => ?_, fun k hk => ?_, hdone, hlast, ?_⟩
  · have hfloor : (n : Rat).floor = n := Rat.floor_intCast n
    change (batchSize.floor).toNat = n
    rw [hn, hfloor, Int.toNat_natCast]
  · have hbatches : batches = (inputData.map (·.content)).length ⌈/⌉ size := by
      rw [List.length_map]
    rw [← flatMap_slice_all hpos (inputData.map (·.content)), ← hbatches]
    exact List.flatMap_congr fun k _ => (hcalled k).batch
  · have hlength := congrArg List.length (hcalled k).batch
    rw [List.length_map] at hlength
    rw [hlength]
    exact length_slice hpos (by rwa [List.length_map])
  · have hnotDone : (result k).context.done = false := by
      rw [(hcalled k).done, Bool.eq_false_iff]
      exact fun hnil => Nat.not_lt.mpr ((hempty k).mp (List.isEmpty_iff.mp hnil)) hk
    rw [(hcalled k).doneOutput, hnotDone]
    exact ⟨rfl, rfl⟩
  · rw [(hcalled batches).doneOutput, hdone, if_pos rfl]
    exact (hcalled batches).processed

/-- Three items in batches of two, each of which comes back as one item. -/
theorem loops_over_three_items :
    let result := call 2 [⟨1, .undefined⟩, ⟨2, .undefined⟩, ⟨3, .undefined⟩] none
      fun k => ([⟨k, .undefined⟩], none)
    ((List.range (3 ⌈/⌉ spliced 2)).flatMap fun k => (result k).loopOutput.map (·.content)) =
        [1, 2, 3] ∧
      (result (3 ⌈/⌉ spliced 2)).doneOutput.map (·.content) =
        (List.range (3 ⌈/⌉ spliced 2)).flatMap fun k => [k] :=
  have h := loops_over_items 2 [⟨1, .undefined⟩, ⟨2, .undefined⟩, ⟨3, .undefined⟩] none
    (fun k => ([⟨k, .undefined⟩], none)) (by decide)
  ⟨h.2.1, h.2.2.2.2.2.2⟩

end Calls

end N8n.SplitInBatches
