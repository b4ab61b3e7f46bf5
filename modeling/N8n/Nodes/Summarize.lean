import Mathlib.Data.List.Dedup
import N8n.Collections.Grouping
import N8n.Workflow.FilterParameter

/-!
# Summarize

`packages/nodes-base/nodes/Transform/Summarize/utils.ts`: the items are split by the values of the
fields, one field after the other, the items of each group are aggregated, and the tree of the
groups is flattened to a list of results or to one object.
-/

namespace N8n.Summarize

open Collections FilterParameter

inductive AggregationType where
  | append
  | average
  | concatenate
  | count
  | countUnique
  | max
  | min
  | sum

structure Aggregation where
  aggregation : AggregationType
  field : String
  includeEmpty : Bool := false
  separateBy : Option String := none
  customSeparator : Option String := none

/-- A value of the result. -/
inductive Aggregated (ν ω : Type) where
  | value (value : Value ν ω)
  | array (values : List (Value ν ω))
  deriving DecidableEq

structure AggregationResult (ν ω : Type) where
  returnData : InsertionMap String (Aggregated ν ω)
  pairedItems : Option (List Nat)

/-- The parameters of the node, and what the language does with values. Numbers that a `Map` does
not tell apart are equal. -/
structure Summary (γ ν ω : Type) where
  fieldsToSummarize : List Aggregation
  /-- `outputFormat` is `singleItem`. -/
  singleItem : Bool
  skipEmptySplitFields : Bool
  /-- The option of the first version. -/
  convertKeysToString : Bool
  getValue : γ → String → Value ν ω
  itemIndex : γ → Nat
  /-- `JSON.stringify` of an object. -/
  stringify : ω → String
  numberText : ν → String
  natural : Nat → ν
  add : ν → ν → ν
  divide : ν → ν → ν
  less : Value ν ω → Value ν ω → Bool

def AggregationType.displayName : AggregationType → String
  | .append => "appended_"
  | .average => "average_"
  | .concatenate => "concatenated_"
  | .count => "count_"
  | .countUnique => "unique_count_"
  | .max => "max_"
  | .min => "min_"
  | .sum => "sum_"

def normalizeFieldName (fieldName : String) : String :=
  String.ofList ((fieldName.toList.filter (· ∉ ['[', ']', '"'])).map fun c =>
    if c = ' ' ∨ c = '.' then '_' else c)

variable {γ ν ω : Type}

def isEmpty : Value ν ω → Bool
  | .undefined | .null => true
  | .string text => text = ""
  | _ => false

/-- No number and falsy. -/
def isEmptySplit : Value ν ω → Bool
  | .boolean value => !value
  | value => isEmpty value

/-- The results below the values of the split fields, as deep as there are fields: `splits` of a
result is a `Map`. -/
def NestedAggregationResult (κ ρ : Type) : List String → Type
  | [] => ρ
  | _ :: restSplitKeys => InsertionMap κ (NestedAggregationResult κ ρ restSplitKeys)

/-- The groups of a result, by their values of the split fields. -/
def leaves {κ ρ : Type} :
    (splitKeys : List String) → NestedAggregationResult κ ρ splitKeys → List (List κ × ρ)
  | [], result => [([], result)]
  | _ :: restSplitKeys, splits => splits.entries.flatMap fun e =>
      (leaves restSplitKeys e.2).map fun leaf => (e.1 :: leaf.1, leaf.2)

namespace Summary

variable (s : Summary γ ν ω)

/-- `String(value)`, and `JSON.stringify` of an object. -/
def text : Value ν ω → String
  | .undefined => "undefined"
  | .null => "null"
  | .boolean value => if value then "true" else "false"
  | .number value => s.numberText value
  | .string text => text
  | .object value => s.stringify value

/-- The value that an item is split by. -/
def splitValue (value : Value ν ω) : Value ν ω :=
  let splitValue := match value with
    | .object value => .string (s.stringify value)
    | value => value
  if s.convertKeysToString then .string (s.text splitValue) else splitValue

/-- The value that an item is split by at a field, unless the item is skipped there. -/
def splitKey (field : String) (item : γ) : Option (Value ν ω) :=
  let splitValue := s.splitValue (s.getValue item field)
  if s.skipEmptySplitFields && isEmptySplit splitValue then none else some splitValue

variable [DecidableEq ν] [DecidableEq ω]

/-- `aggregate(items, entry)`. -/
def aggregate (items : List γ) (entry : Aggregation) : Aggregated ν ω :=
  let data := items.map (s.getValue · entry.field)
  let present := if entry.includeEmpty then data else data.filter (!isEmpty ·)
  let numbers := data.filterMap fun
    | .number value => some value
    | _ => none
  let sum := numbers.foldl s.add (s.natural 0)
  let best (better : Value ν ω → Value ν ω → Bool) :=
    ((data.filter (!isEmpty ·)).foldl (fun best value =>
      if best.all (better value) then some value else best) none).getD .null
  match entry.aggregation with
  | .append => .array present
  | .concatenate =>
      let separateBy :=
        if entry.separateBy = some "other" then entry.customSeparator else entry.separateBy
      .value (.string ((separateBy.getD ",").intercalate (present.map s.text)))
  | .average => .value (.number (s.divide sum (s.natural numbers.length)))
  | .sum => .value (.number sum)
  | .min => .value (best s.less)
  | .max => .value (best fun value max => s.less max value)
  | .countUnique => .value (.number (s.natural present.dedup.length))
  | .count => .value (.number (s.natural present.length))

def aggregateData (data : List γ) : AggregationResult ν ω where
  returnData := fromEntries (s.fieldsToSummarize.map fun entry =>
    (normalizeFieldName (entry.aggregation.displayName ++ entry.field), s.aggregate data entry))
  pairedItems := if s.singleItem then none else some (data.map s.itemIndex)

/-- `aggregateAndSplitData({ splitKeys, inputItems, … })`, with `aggregateData` as a parameter. -/
def aggregateAndSplitData {ρ : Type} (aggregateData : List γ → ρ) :
    (splitKeys : List String) → List γ → NestedAggregationResult (Value ν ω) ρ splitKeys
  | [], inputItems => aggregateData inputItems
  | firstSplitKey :: restSplitKeys, inputItems =>
      (groupOn (s.splitKey firstSplitKey) inputItems).mapValues
        (aggregateAndSplitData aggregateData restSplitKeys)

def flattenAggregationResultToArray : (splitKeys : List String) →
    NestedAggregationResult (Value ν ω) (AggregationResult ν ω) splitKeys →
      List (AggregationResult ν ω)
  | [], result => [result]
  | fieldName :: restSplitKeys, splits => splits.entries.flatMap fun e =>
      (flattenAggregationResultToArray restSplitKeys e.2).map fun v =>
        { v with returnData := v.returnData.set (normalizeFieldName fieldName) (.value e.1) }

/-- `flattenAggregationResultToObject(result)`: the keys of an object are texts. -/
def flattenAggregationResultToObject : (splitKeys : List String) →
    NestedAggregationResult (Value ν ω) (AggregationResult ν ω) splitKeys →
      NestedAggregationResult String (InsertionMap String (Aggregated ν ω)) splitKeys
  | [], result => result.returnData
  | _ :: restSplitKeys, splits => fromEntries (splits.entries.map fun e =>
      (s.text e.1, flattenAggregationResultToObject restSplitKeys e.2))

/-- Values are compared with their type, objects by their JSON text. -/
def comparable : Value ν ω → Value ν String
  | .undefined => .undefined
  | .null => .null
  | .boolean value => .boolean value
  | .number value => .number value
  | .string text => .string text
  | .object value => .object (s.stringify value)

def splitValues (splitKeys : List String) (item : γ) : List (Value ν String) :=
  splitKeys.map fun field => s.comparable (s.getValue item field)

/-- What an item is split by at all fields, unless it is skipped. -/
def splitPath : List String → γ → Option (List (Value ν ω))
  | [], _ => some []
  | field :: rest, item =>
      (s.splitKey field item).bind fun key => (splitPath rest item).map (key :: ·)

/-- The groups, with their items. -/
def groups (splitKeys : List String) (items : List γ) : List (List (Value ν ω) × List γ) :=
  leaves splitKeys (s.aggregateAndSplitData id splitKeys items)

/-- The result of a group with its values of the split fields. -/
def labelled : List String → List (Value ν ω) → AggregationResult ν ω → AggregationResult ν ω
  | fieldName :: rest, value :: path, result =>
      let v := labelled rest path result
      { v with returnData := v.returnData.set (normalizeFieldName fieldName) (.value value) }
  | _, _, result => result

variable (splitKeys : List String) (items : List γ)

/-- Every item that is not skipped is in one group, the groups are the items with equal values, and
the flattened result has exactly what the groups aggregate to. -/
structure CountsEachItemOnce : Prop where
  once : ((s.groups splitKeys items).flatMap Prod.snd).Perm
    (items.filter fun item => (s.splitPath splitKeys item).isSome)
  together : ∀ g ∈ s.groups splitKeys items, ∀ x ∈ g.2, ∀ y ∈ g.2,
    s.splitValues splitKeys x = s.splitValues splitKeys y
  apart : (s.groups splitKeys items).Pairwise fun g g' =>
    ∀ x ∈ g.2, ∀ y ∈ g'.2, s.splitValues splitKeys x ≠ s.splitValues splitKeys y
  separate : s.singleItem = false →
    flattenAggregationResultToArray splitKeys
        (s.aggregateAndSplitData s.aggregateData splitKeys items) =
      (s.groups splitKeys items).map fun g => labelled splitKeys g.1 (s.aggregateData g.2)
  single : s.singleItem = true →
    (leaves splitKeys (s.flattenAggregationResultToObject splitKeys
        (s.aggregateAndSplitData s.aggregateData splitKeys items))).Perm
      ((s.groups splitKeys items).map fun g => (g.1.map s.text, (s.aggregateData g.2).returnData))

/-- Items with other values are never split alike: no text is that of an object, and in the first
version no two values have one text. -/
def ValuesToldApart : Prop :=
  ∀ x ∈ items, ∀ y ∈ items, (s.splitPath splitKeys x).isSome →
    s.splitPath splitKeys x = s.splitPath splitKeys y →
      s.splitValues splitKeys x = s.splitValues splitKeys y

/-- Among the items that agree in the first fields, two groups whose keys have one text are there
only when every item of the first of them is skipped. -/
def TextsToldApart : List String → List γ → Prop
  | [], _ => True
  | field :: rest, items =>
      ((groupOn (s.splitKey field) items).entries.Pairwise fun g later =>
        s.text g.1 = s.text later.1 → ∀ item ∈ g.2, s.splitPath rest item = none) ∧
      ∀ g ∈ (groupOn (s.splitKey field) items).entries, TextsToldApart rest g.2

variable {s splitKeys items} {ρ : Type} {f : List γ → ρ} {path : List (Value ν ω)}

omit [DecidableEq ν] [DecidableEq ω] in
theorem splitPath_cons {field : String} {rest : List String} {item : γ} {key : Value ν ω} :
    s.splitPath (field :: rest) item = some (key :: path) ↔
      s.splitKey field item = some key ∧ s.splitPath rest item = some path := by
  simp [splitPath, Option.bind_eq_some_iff]

omit [DecidableEq ν] [DecidableEq ω] in
theorem splitPath_congr {x y : γ} (h : s.splitValues splitKeys x = s.splitValues splitKeys y) :
    s.splitPath splitKeys x = s.splitPath splitKeys y := by
  have hvalue : ∀ v w : Value ν ω, s.comparable v = s.comparable w →
      s.splitValue v = s.splitValue w := by
    intro v w h
    cases v <;> cases w <;> simp_all [comparable, splitValue]
  induction splitKeys with
  | nil => rfl
  | cons field rest ih =>
    obtain ⟨hfield, hrest⟩ := List.cons.inj h
    rw [splitPath, splitPath, ih hrest, splitKey, splitKey, hvalue _ _ hfield]

theorem leaves_aggregateAndSplitData :
    leaves splitKeys (s.aggregateAndSplitData f splitKeys items) =
      (s.groups splitKeys items).map fun g => (g.1, f g.2) := by
  unfold groups
  induction splitKeys generalizing items with
  | nil => rfl
  | cons field rest ih =>
    simp [leaves, aggregateAndSplitData, InsertionMap.mapValues, List.flatMap_map,
      List.map_flatMap, ih, Function.comp_def]

theorem groups_cons {field : String} {rest : List String} :
    s.groups (field :: rest) items = (groupOn (s.splitKey field) items).entries.flatMap fun e =>
      (s.groups rest e.2).map fun g => (e.1 :: g.1, g.2) :=
  List.flatMap_map ..

theorem group_eq {g : List (Value ν ω) × List γ} (h : g ∈ s.groups splitKeys items) :
    g.2 = items.filter (s.splitPath splitKeys · = some g.1) := by
  induction splitKeys generalizing items g with
  | nil =>
    obtain rfl := List.mem_singleton.mp h
    exact (List.filter_eq_self.mpr fun _ _ => by simp [splitPath]).symm
  | cons field rest ih =>
    rw [groups_cons] at h
    obtain ⟨⟨key, group⟩, hgroup, hg⟩ := List.mem_flatMap.mp h
    obtain ⟨g', hg', rfl⟩ := List.mem_map.mp hg
    rw [ih hg', (mem_groupOn_iff.mp hgroup).1, List.filter_filter]
    refine List.filter_congr fun item _ => ?_
    rw [← Bool.decide_and, decide_eq_decide, splitPath_cons, and_comm]

theorem path_mem {item : γ} (hitem : item ∈ items)
    (hpath : s.splitPath splitKeys item = some path) :
    path ∈ (s.groups splitKeys items).map Prod.fst := by
  induction splitKeys generalizing items path with
  | nil =>
    cases hpath
    exact List.mem_singleton.mpr rfl
  | cons field rest ih =>
    obtain ⟨key, hkey, hmap⟩ := Option.bind_eq_some_iff.mp hpath
    obtain ⟨restPath, hrest, rfl⟩ := Option.map_eq_some_iff.mp hmap
    have hmem : item ∈ items.filter (s.splitKey field · = some key) :=
      List.mem_filter.mpr ⟨hitem, decide_eq_true hkey⟩
    obtain ⟨g, hg, rfl⟩ := List.mem_map.mp (ih hmem hrest)
    rw [groups_cons, List.mem_map]
    exact ⟨_, List.mem_flatMap.mpr ⟨_, mem_groupOn_iff.mpr ⟨rfl, List.ne_nil_of_mem hmem⟩,
      List.mem_map_of_mem hg⟩, rfl⟩

theorem nodup_paths : ((s.groups splitKeys items).map Prod.fst).Nodup := by
  induction splitKeys generalizing items with
  | nil => exact List.nodup_singleton _
  | cons field rest ih =>
    rw [groups_cons, List.map_flatMap, List.nodup_flatMap]
    refine ⟨fun e _ => ?_, ?_⟩
    · have hmap := (@ih e.2).map (f := (e.1 :: ·)) fun _ _ h => (List.cons.inj h).2
      rw [List.map_map] at hmap ⊢
      exact hmap
    · refine (List.pairwise_map.mp (groupOn (s.splitKey field) items).nodup).imp ?_
      intro e e' hne path hpath hpath'
      simp only [List.map_map, List.mem_map, Function.comp_apply] at hpath hpath'
      obtain ⟨g, -, rfl⟩ := hpath
      obtain ⟨g', -, heq⟩ := hpath'
      exact hne (List.cons.inj heq).1.symm

theorem group_ne_nil (hitems : items ≠ []) {g : List (Value ν ω) × List γ}
    (hg : g ∈ s.groups splitKeys items) : g.2 ≠ [] := by
  induction splitKeys generalizing items g with
  | nil =>
    obtain rfl := List.mem_singleton.mp hg
    exact hitems
  | cons field rest ih =>
    rw [groups_cons] at hg
    obtain ⟨e, he, hg⟩ := List.mem_flatMap.mp hg
    obtain ⟨g', hg', rfl⟩ := List.mem_map.mp hg
    exact (ih (mem_groupOn_iff.mp he).2 hg' : g'.2 ≠ [])

theorem groups_eq_nil_iff (hitems : items ≠ []) :
    s.groups splitKeys items = [] ↔ ∀ item ∈ items, s.splitPath splitKeys item = none := by
  constructor
  · intro h item hitem
    refine Option.eq_none_iff_forall_ne_some.mpr fun path hpath => ?_
    have hmem := path_mem hitem hpath
    rw [h] at hmem
    cases hmem
  · intro h
    refine List.eq_nil_iff_forall_not_mem.mpr fun g hg => group_ne_nil hitems hg ?_
    rw [group_eq hg]
    exact List.filter_eq_nil_iff.mpr fun item hitem => by simp [h item hitem]

theorem groups_perm : ((s.groups splitKeys items).flatMap Prod.snd).Perm
    (items.filter fun item => (s.splitPath splitKeys item).isSome) := by
  have hgroups : (s.groups splitKeys items).flatMap Prod.snd =
      ((s.groups splitKeys items).map Prod.fst).flatMap fun path =>
        items.filter (s.splitPath splitKeys · = some path) := by
    rw [List.flatMap_map]
    exact List.flatMap_congr fun g hg => group_eq hg
  rw [hgroups]
  refine (flatMap_filter_perm nodup_paths _ _).trans (.of_eq ?_)
  refine List.filter_congr fun item hitem => ?_
  rw [← Bool.coe_iff_coe, decide_eq_true_iff, Option.isSome_iff_exists]
  exact ⟨fun ⟨path, _, h⟩ => ⟨path, h⟩, fun ⟨path, h⟩ => ⟨path, path_mem hitem h, h⟩⟩

omit [DecidableEq ν] [DecidableEq ω] in
theorem flattenToArray_eq
    (tree : NestedAggregationResult (Value ν ω) (AggregationResult ν ω) splitKeys) :
    flattenAggregationResultToArray splitKeys tree =
      (leaves splitKeys tree).map fun leaf => labelled splitKeys leaf.1 leaf.2 := by
  induction splitKeys with
  | nil => rfl
  | cons field rest ih =>
    simp only [flattenAggregationResultToArray, leaves, List.map_flatMap, List.map_map, ih]
    rfl

theorem flattenToObject_spec (d : List γ → AggregationResult ν ω) :
    let object := leaves splitKeys (s.flattenAggregationResultToObject splitKeys
      (s.aggregateAndSplitData d splitKeys items))
    let results := (s.groups splitKeys items).map fun g => (g.1.map s.text, (d g.2).returnData)
    object.length ≤ results.length ∧
      (object.length = results.length → s.TextsToldApart splitKeys items) ∧
      (s.TextsToldApart splitKeys items → object.Perm results) := by
  induction splitKeys generalizing items with
  | nil => exact ⟨Nat.le_refl _, fun _ => trivial, fun _ => .refl _⟩
  | cons field rest ih =>
    intro object results
    let entries := (groupOn (s.splitKey field) items).entries
    let keyed := entries.map fun e => (s.text e.1, e.2)
    let flat (group : List γ) :=
      s.flattenAggregationResultToObject rest (s.aggregateAndSplitData d rest group)
    let ofGroup (e : String × List γ) :=
      (leaves rest (flat e.2)).map fun leaf => (e.1 :: leaf.1, leaf.2)
    let resultsOf (e : String × List γ) :=
      (s.groups rest e.2).map fun g => (e.1 :: g.1.map s.text, (d g.2).returnData)
    have hobject : object.Perm ((survivors keyed).flatMap ofGroup) := by
      have hleaves := (fromEntries_perm (keyed.map fun e => (e.1, flat e.2))).flatMap_right fun e =>
        (leaves rest e.2).map fun leaf => (e.1 :: leaf.1, leaf.2)
      rw [survivors_map flat, List.flatMap_map, List.map_map] at hleaves
      simp only [object, flattenAggregationResultToObject, aggregateAndSplitData,
        InsertionMap.mapValues, List.map_map]
      exact hleaves
    have hresults : results = keyed.flatMap resultsOf := by
      simp only [results, keyed, resultsOf, entries, groups_cons, List.map_flatMap, List.map_map,
        List.flatMap_map]
      rfl
    have hlength : ∀ e ∈ keyed, (ofGroup e).length ≤ (resultsOf e).length := fun e _ => by
      simpa [ofGroup, resultsOf] using (@ih e.2).1
    -- a group without results has only items that are skipped
    have hempty : ∀ g ∈ entries, resultsOf (s.text g.1, g.2) = [] ↔
        ∀ item ∈ g.2, s.splitPath rest item = none := fun g hg => by
      rw [List.map_eq_nil_iff]
      exact groups_eq_nil_iff (mem_groupOn_iff.mp hg).2
    obtain ⟨hle, heq⟩ := length_survivors_flatMap hlength
    rw [hresults, hobject.length_eq]
    refine ⟨hle, fun h => ?_, fun h => ?_⟩
    · obtain ⟨hpairs, hgroups⟩ := heq h
      refine ⟨(List.pairwise_map.mp hpairs).imp_of_mem fun hg _ h htext =>
        (hempty _ hg).mp (h htext), fun g hg => (@ih g.2).2.1 ?_⟩
      simpa [ofGroup, resultsOf] using hgroups _ (List.mem_map_of_mem hg)
    · obtain ⟨hpairs, hgroups⟩ := h
      have hpairs' : keyed.Pairwise fun e later => e.1 = later.1 → ofGroup e = [] := by
        refine List.pairwise_map.mpr (hpairs.imp_of_mem fun hg _ h htext => ?_)
        have hnil := hlength _ (List.mem_map_of_mem hg)
        rw [(hempty _ hg).mpr (h htext)] at hnil
        exact List.length_eq_zero_iff.mp (Nat.le_zero.mp hnil)
      rw [survivors_flatMap hpairs'] at hobject
      refine hobject.trans (List.Perm.flatMap_left _ fun e he => ?_)
      obtain ⟨g, hg, rfl⟩ := List.mem_map.mp he
      have hperm := ((@ih g.2).2.2 (hgroups g hg)).map fun leaf =>
        (s.text g.1 :: leaf.1, leaf.2)
      rw [List.map_map] at hperm
      exact hperm

/-- Every item is counted once exactly when no two values that are not equal are split alike, and,
for a single item, no key overwrites another one. -/
theorem counts_each_item_once_iff : s.CountsEachItemOnce splitKeys items ↔
    s.ValuesToldApart splitKeys items ∧
      (s.singleItem = true → s.TextsToldApart splitKeys items) := by
  have harray := flattenToArray_eq (s.aggregateAndSplitData s.aggregateData splitKeys items)
  rw [leaves_aggregateAndSplitData, List.map_map] at harray
  obtain ⟨-, htexts, hobject⟩ :=
    @flattenToObject_spec _ _ _ s _ _ splitKeys items s.aggregateData
  constructor
  · intro h
    refine ⟨fun x hx y hy hpath hsame => ?_, fun hsingle => htexts (h.single hsingle).length_eq⟩
    obtain ⟨path, hpath⟩ := Option.isSome_iff_exists.mp hpath
    obtain ⟨g, hg, rfl⟩ := List.mem_map.mp (path_mem hx hpath)
    have hmem : ∀ item ∈ items, s.splitPath splitKeys item = some g.1 → item ∈ g.2 := by
      rw [group_eq hg]
      exact fun item hitem h => List.mem_filter.mpr ⟨hitem, decide_eq_true h⟩
    exact h.together g hg x (hmem x hx hpath) y (hmem y hy (hsame ▸ hpath))
  · rintro ⟨hvalues, hsingle⟩
    have hmem : ∀ g ∈ s.groups splitKeys items, ∀ x ∈ g.2,
        x ∈ items ∧ s.splitPath splitKeys x = some g.1 := by
      intro g hg x hx
      rw [group_eq hg, List.mem_filter] at hx
      exact ⟨hx.1, of_decide_eq_true hx.2⟩
    refine ⟨groups_perm, fun g hg x hx y hy => ?_, ?_, fun _ => harray, fun h =>
      hobject (hsingle h)⟩
    · obtain ⟨hx, hxpath⟩ := hmem g hg x hx
      obtain ⟨hy, hypath⟩ := hmem g hg y hy
      exact hvalues x hx y hy (by rw [hxpath]; rfl) (hxpath.trans hypath.symm)
    · refine (List.pairwise_map.mp nodup_paths).imp_of_mem fun hg hg' hne x hx y hy heq => hne ?_
      have hpath := splitPath_congr heq
      rw [(hmem _ hg x hx).2, (hmem _ hg' y hy).2] at hpath
      exact Option.some.inj hpath

/-- Items with one field, which are counted for a single item. -/
def oneField : Summary (Nat × Value Nat Unit) Nat Unit where
  fieldsToSummarize := [{ aggregation := .count, field := "field" }]
  singleItem := true
  skipEmptySplitFields := false
  convertKeysToString := false
  getValue item _ := item.2
  itemIndex := Prod.fst
  stringify _ := "{}"
  numberText := toString
  natural := id
  add := (· + ·)
  divide := (· / ·)
  less _ _ := false

/-- The group of a number is lost to the one of its text. -/
theorem number_group_lost :
    ¬oneField.CountsEachItemOnce ["field"] [(0, .number 1), (1, .string "1")] :=
  fun h => absurd (h.single rfl).length_eq (by decide)

end Summary

end N8n.Summarize
