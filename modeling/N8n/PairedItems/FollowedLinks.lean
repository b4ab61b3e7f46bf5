import N8n.PairedItems.GetPairedItem

/-!
# Items found by following links

`calls_meet_iff` says when every call that `getPairedItem` makes yields the only item of
the destination node that the recorded links lead to, or an `ExpressionError`. The function fails
with other exceptions where an item on the way is not there or none of its links names an input of
its run, and it returns an item although another branch is ambiguous, since a branch's error is
dropped when another branch succeeds.
-/

namespace N8n.PairedItems.WorkflowDataProxy

open Collections Execution N8n.Graph

section Defects

variable (p : WorkflowDataProxy) (destinationNodeName : String)

/-- What keeps a call from following the links soundly, with the depth that is left to it. -/
inductive LinkDefect : Nat → PairedItemCall → Prop where
  /-- The links go deeper than the call stack, as they do on a cycle. -/
  | tooDeep {call : PairedItemCall} : LinkDefect 0 call
  /-- The link to the destination has no index, or a negative one. -/
  | noIndex {m : Nat} {call : PairedItemCall} (hdest : AtDestination destinationNodeName call)
      (houtput : (p.outputOf call).isSome) (hindex : ∀ index, call.pairedItem.item = some index →
        index < 0) : LinkDefect m call
  /-- The item on the way is not there. -/
  | missingItem {m : Nat} {call : PairedItemCall} (hdest : ¬ AtDestination destinationNodeName call)
      (houtput : (p.outputOf call).isSome) (hitem : p.itemAt call = none) : LinkDefect m call
  /-- The item has links, but none of them names an input of its run. -/
  | noInput {m : Nat} {call : PairedItemCall} {item : INodeExecutionData}
      (hdest : ¬ AtDestination destinationNodeName call) (hitem : p.itemAt call = some item)
      (hpaired : normalizePairedItem item.pairedItem ≠ []) (hlinks : p.linksFrom call = []) :
      LinkDefect m call
  /-- An ambiguous link is passed over for other ones. -/
  | swallowed {m : Nat} {call : PairedItemCall} (h : p.Swallows destinationNodeName call) :
      LinkDefect m call

/-- A call returns the only item of the destination node that the recorded links lead to, or throws
an `ExpressionError`. -/
structure Meets (usedMethodName : PairedItemMethod) (fuel : Nat) (call : PairedItemCall) :
    Prop where
  value : ∀ result, p.getPairedItem destinationNodeName usedMethodName fuel call = .ok result →
    ∃ item, result = some item ∧ p.Only destinationNodeName call item
  error : ∀ e, p.getPairedItem destinationNodeName usedMethodName fuel call = .error e →
    Documented e

end Defects

variable {p : WorkflowDataProxy} {destinationNodeName : String} {usedMethodName : PairedItemMethod}
  {call : PairedItemCall}

/-- What a visit of the search finds, in the words of the links. -/
inductive Visited (p : WorkflowDataProxy) (destinationNodeName : String) (call : PairedItemCall) :
    Visit PairedItemCall (Option INodeExecutionData) ProxyException → Prop where
  | found (hdest : AtDestination destinationNodeName call) {outputData : List INodeExecutionData}
      (houtput : p.outputOf call = some outputData)
      (hpast : ∀ index, call.pairedItem.item = some index → index < outputData.length) :
      Visited p destinationNodeName call (.found (p.itemAt call))
  | missingItem (hdest : ¬ AtDestination destinationNodeName call)
      (houtput : (p.outputOf call).isSome) (hitem : p.itemAt call = none) :
      Visited p destinationNodeName call (.failed .typeError)
  | branch (hdest : ¬ AtDestination destinationNodeName call) {item : INodeExecutionData}
      (hitem : p.itemAt call = some item) (hpaired : normalizePairedItem item.pairedItem ≠ []) :
      Visited p destinationNodeName call (.branch (p.linksFrom call))
  | noOutput {e : ProxyException} (he : Documented e) (houtput : p.outputOf call = none) :
      Visited p destinationNodeName call (.failed e)
  | pastEnd {e : ProxyException} (he : Documented e)
      (hdest : AtDestination destinationNodeName call) {outputData : List INodeExecutionData}
      (houtput : p.outputOf call = some outputData) {index : Int}
      (hindex : call.pairedItem.item = some index) (hpast : outputData.length ≤ index) :
      Visited p destinationNodeName call (.failed e)
  | noLinks {e : ProxyException} (he : Documented e)
      (hdest : ¬ AtDestination destinationNodeName call) {item : INodeExecutionData}
      (hitem : p.itemAt call = some item) (hpaired : normalizePairedItem item.pairedItem = []) :
      Visited p destinationNodeName call (.failed e)

variable (p destinationNodeName usedMethodName call) in
theorem visited : Visited p destinationNodeName call
    (p.visit destinationNodeName usedMethodName call) := by
  unfold visit
  cases hsource : call.sourceData with
  | none =>
    exact .noOutput ⟨_, rfl⟩ (by simp [outputOf, hsource])
  | some source =>
    have hat : AtDestination destinationNodeName call ↔
        source.previousNode = destinationNodeName := by
      simp [AtDestination, hsource]
    dsimp only
    cases hnode : p.getNodeOutput (p.getTaskData source) source call.nodeBeforeLast with
    | error e =>
      have houtput : p.outputOf call = none := by
        rw [output_of_eq hsource, hnode]
        rfl
      refine .noOutput ?_ houtput
      unfold getNodeOutput at hnode
      dsimp only at hnode
      split at hnode
      · cases hnode
      · cases hnode
        exact create_expression_error_documented ..
    | ok outputData =>
      have houtput : p.outputOf call = some outputData := by
        rw [output_of_eq hsource, hnode]
        rfl
      dsimp only
      split
      · rename_i hdest
        split
        · rename_i hpast
          obtain ⟨index, hindex, hle⟩ : ∃ index, call.pairedItem.item = some index ∧
              (outputData.length : Int) ≤ index := by
            simpa using (Option.any_eq_true _ _).mp hpast
          exact .pastEnd ⟨_, rfl⟩ (hat.mpr hdest) houtput hindex hle
        · rename_i hpast
          refine .found (hat.mpr hdest) houtput fun index hindex => ?_
          rw [hindex] at hpast
          simpa using hpast
      · rename_i hdest
        cases hitem : p.itemAt call with
        | none => exact .missingItem (mt hat.mp hdest) (by simp [houtput]) hitem
        | some item =>
          dsimp only
          split
          · rename_i hempty
            exact .noLinks ⟨_, rfl⟩ (mt hat.mp hdest) hitem
              (List.eq_nil_of_length_eq_zero hempty)
          · rename_i hpaired
            exact .branch (mt hat.mp hdest) hitem fun h => hpaired (by simp [h])

theorem item_at_none (houtput : p.outputOf call = none) : p.itemAt call = none := by
  simp [itemAt, houtput]

theorem exists_item_of_link {next : PairedItemCall} (hlink : next ∈ p.linksFrom call) :
    ∃ item, p.itemAt call = some item ∧ normalizePairedItem item.pairedItem ≠ [] := by
  unfold linksFrom at hlink
  split at hlink
  · rename_i source item hsource hitem
    refine ⟨item, hitem, ?_⟩
    intro hnil
    simp [hnil] at hlink
  · simp at hlink

variable (usedMethodName) in
theorem visit_found {outputData : List INodeExecutionData}
    (hdest : AtDestination destinationNodeName call) (houtput : p.outputOf call = some outputData)
    (hindex : ∀ index, call.pairedItem.item = some index → index < outputData.length) :
    p.visit destinationNodeName usedMethodName call = .found (p.itemAt call) := by
  have h := visited p destinationNodeName usedMethodName call
  generalize p.visit destinationNodeName usedMethodName call = v at h ⊢
  cases h with
  | found => rfl
  | missingItem hdest' => exact absurd hdest hdest'
  | branch hdest' => exact absurd hdest hdest'
  | noOutput _ houtput' => cases houtput.symm.trans houtput'
  | pastEnd _ _ houtput' hindex' hpast =>
    cases houtput.symm.trans houtput'
    have := hindex _ hindex'
    omega
  | noLinks _ hdest' => exact absurd hdest hdest'

variable (usedMethodName) in
theorem visit_branch {item : INodeExecutionData} (hdest : ¬ AtDestination destinationNodeName call)
    (hitem : p.itemAt call = some item) (hpaired : normalizePairedItem item.pairedItem ≠ []) :
    p.visit destinationNodeName usedMethodName call = .branch (p.linksFrom call) := by
  have h := visited p destinationNodeName usedMethodName call
  generalize p.visit destinationNodeName usedMethodName call = v at h ⊢
  cases h with
  | found hdest' => exact absurd hdest' hdest
  | missingItem _ _ hitem' => cases hitem.symm.trans hitem'
  | branch => rfl
  | noOutput _ houtput => cases hitem.symm.trans (item_at_none houtput)
  | pastEnd _ hdest' => exact absurd hdest' hdest
  | noLinks _ _ hitem' hpaired' =>
    cases hitem.symm.trans hitem'
    exact absurd hpaired' hpaired

variable (usedMethodName) in
theorem visit_link {next : PairedItemCall} (hdest : ¬ AtDestination destinationNodeName call)
    (hlink : next ∈ p.linksFrom call) :
    p.visit destinationNodeName usedMethodName call = .branch (p.linksFrom call) := by
  obtain ⟨item, hitem, hpaired⟩ := exists_item_of_link hlink
  exact visit_branch usedMethodName hdest hitem hpaired

variable (usedMethodName) in
theorem visit_missing (hdest : ¬ AtDestination destinationNodeName call)
    (houtput : (p.outputOf call).isSome) (hitem : p.itemAt call = none) :
    p.visit destinationNodeName usedMethodName call = .failed .typeError := by
  have h := visited p destinationNodeName usedMethodName call
  generalize p.visit destinationNodeName usedMethodName call = v at h ⊢
  cases h with
  | found hdest' => exact absurd hdest' hdest
  | missingItem => rfl
  | branch _ hitem' => cases hitem.symm.trans hitem'
  | noOutput _ houtput' => simp [houtput'] at houtput
  | pastEnd _ hdest' => exact absurd hdest' hdest
  | noLinks _ _ hitem' => cases hitem.symm.trans hitem'

variable {result : Option INodeExecutionData}

theorem of_visit_found (hvisit : p.visit destinationNodeName usedMethodName call = .found result) :
    AtDestination destinationNodeName call ∧ result = p.itemAt call ∧
      ∃ outputData, p.outputOf call = some outputData ∧
        ∀ index, call.pairedItem.item = some index → index < outputData.length := by
  have h := visited p destinationNodeName usedMethodName call
  rw [hvisit] at h
  cases h with
  | found hdest houtput hpast => exact ⟨hdest, rfl, _, houtput, hpast⟩

theorem of_visit_branch {next : List PairedItemCall}
    (hvisit : p.visit destinationNodeName usedMethodName call = .branch next) :
    ¬ AtDestination destinationNodeName call ∧ next = p.linksFrom call ∧
      ∃ item, p.itemAt call = some item ∧ normalizePairedItem item.pairedItem ≠ [] := by
  have h := visited p destinationNodeName usedMethodName call
  rw [hvisit] at h
  cases h with
  | branch hdest hitem hpaired => exact ⟨hdest, rfl, _, hitem, hpaired⟩

theorem of_visit_failed {e : ProxyException}
    (hvisit : p.visit destinationNodeName usedMethodName call = .failed e)
    (he : ¬ Documented e) :
    ¬ AtDestination destinationNodeName call ∧ (p.outputOf call).isSome ∧
      p.itemAt call = none := by
  have h := visited p destinationNodeName usedMethodName call
  rw [hvisit] at h
  cases h with
  | missingItem hdest houtput hitem => exact ⟨hdest, houtput, hitem⟩
  | noOutput he' => exact absurd he' he
  | pastEnd he' => exact absurd he' he
  | noLinks he' => exact absurd he' he

variable (usedMethodName) in
theorem reaches_iff {item : INodeExecutionData} :
    p.Reaches destinationNodeName call item ↔
      (p.search destinationNodeName usedMethodName).Reaches (·.isSome) call (some item) := by
  constructor
  · intro h
    induction h with
    | @here call item hdest hitem =>
      cases houtput : p.outputOf call with
      | none => cases hitem.symm.trans (item_at_none houtput)
      | some outputData =>
        refine .found (.trans (visit_found usedMethodName hdest houtput ?_)
          (congrArg Visit.found hitem)) rfl
        intro index hindex
        rw [item_at_eq houtput, hindex] at hitem
        by_contra hpast
        cases hitem.symm.trans (element_at_eq_none_iff.mpr (.inr (by omega)))
    | follow hdest hlink hreach ih =>
      exact .branch (visit_link usedMethodName hdest hlink) hlink ih
  · intro h
    generalize hresult : some item = result at h
    induction h with
    | found hvisit =>
      obtain ⟨hdest, rfl, -⟩ := of_visit_found hvisit
      exact .here hdest hresult.symm
    | branch hvisit hmem hreach ih =>
      obtain ⟨hdest, rfl, -⟩ := of_visit_branch hvisit
      exact .follow hdest hmem (ih hresult)

variable (usedMethodName) in
theorem search_reaches_iff :
    (p.search destinationNodeName usedMethodName).Reaches (·.isSome) call result ↔
      ∃ item, result = some item ∧ p.Reaches destinationNodeName call item := by
  constructor
  · intro h
    have hsome : result.isSome := by
      induction h with
      | found _ hv => exact hv
      | branch _ _ _ ih => exact ih
    obtain ⟨item, rfl⟩ := Option.isSome_iff_exists.mp hsome
    exact ⟨item, rfl, (reaches_iff usedMethodName).mpr h⟩
  · rintro ⟨item, rfl, h⟩
    exact (reaches_iff usedMethodName).mp h

variable (usedMethodName) in
theorem only_iff :
    (p.search destinationNodeName usedMethodName).Only (·.isSome) call result ↔
      ∃ item, result = some item ∧ p.Only destinationNodeName call item := by
  simp only [UnanimousSearch.Only, search_reaches_iff, Only]
  constructor
  · rintro ⟨⟨item, rfl, hreach⟩, honly⟩
    exact ⟨item, rfl, hreach, fun other hother => Option.some.inj (honly _ ⟨other, rfl, hother⟩)⟩
  · rintro ⟨item, rfl, hreach, honly⟩
    refine ⟨⟨item, rfl, hreach⟩, ?_⟩
    rintro _ ⟨other, rfl, hother⟩
    rw [honly other hother]

variable (usedMethodName) in
theorem calls_iff {fuel m : Nat} {x : PairedItemCall} :
    p.Calls destinationNodeName fuel call m x ↔
      (p.search destinationNodeName usedMethodName).Calls fuel call m x := by
  constructor
  · intro h
    induction h with
    | self => exact .self
    | follow hdest hlink hcall ih =>
      exact .branch (visit_link usedMethodName hdest hlink) hlink ih
  · intro h
    induction h with
    | self => exact .self
    | branch hvisit hmem hcall ih =>
      obtain ⟨hdest, rfl, -⟩ := of_visit_branch hvisit
      exact .follow hdest hmem ih

variable (usedMethodName) in
theorem swallows_iff :
    p.Swallows destinationNodeName call ↔
      (p.search destinationNodeName usedMethodName).Swallows (·.isSome) call := by
  simp only [UnanimousSearch.Swallows, only_iff, search_reaches_iff, Swallows]
  constructor
  · rintro ⟨hdest, item, ⟨next, hnext, honly⟩, hagree, last, hlast, other, hreach, hne⟩
    refine ⟨_, some item, visit_link usedMethodName hdest hnext, ⟨next, hnext, item, rfl, honly⟩,
      ?_, last, hlast, some other, ⟨other, rfl, hreach⟩, fun h => hne (Option.some.inj h)⟩
    rintro c hc _ ⟨w, rfl, hw⟩
    rw [hagree c hc w hw]
  · rintro ⟨next, result, hvisit, ⟨c, hc, item, rfl, honly⟩, hagree, last, hlast, _,
      ⟨other, rfl, hreach⟩, hne⟩
    obtain ⟨hdest, rfl, -⟩ := of_visit_branch hvisit
    exact ⟨hdest, item, ⟨c, hc, honly⟩,
      fun c hc w hw => Option.some.inj (hagree c hc _ ⟨w, rfl, hw⟩), last, hlast, other, hreach,
      fun h => hne (congrArg some h)⟩

variable (usedMethodName) in
theorem link_defect_iff {m : Nat} :
    p.LinkDefect destinationNodeName m call ↔
      (p.search destinationNodeName usedMethodName).Fails (·.isSome) Documented m call := by
  constructor
  · intro h
    cases h with
    | tooDeep => exact .exhausted
    | noIndex hdest houtput hindex =>
      obtain ⟨outputData, houtput⟩ := Option.isSome_iff_exists.mp houtput
      have hnone : p.itemAt call = none := by
        rw [item_at_eq houtput, Option.bind_eq_none_iff]
        exact fun index h => element_at_eq_none_iff.mpr (.inl (hindex index h))
      refine .improper (visit_found usedMethodName hdest houtput ?_) (by simp [hnone])
      intro index h
      have := hindex index h
      omega
    | missingItem hdest houtput hitem =>
      exact .undocumented (visit_missing usedMethodName hdest houtput hitem)
        fun ⟨_, h⟩ => by cases h
    | noInput hdest hitem hpaired hlinks =>
      exact .noBranch (.trans (visit_branch usedMethodName hdest hitem hpaired)
        (congrArg Visit.branch hlinks))
    | swallowed h => exact .swallows ((swallows_iff usedMethodName).mp h)
  · intro h
    cases h with
    | exhausted => exact .tooDeep
    | improper hvisit hv =>
      obtain ⟨hdest, rfl, outputData, houtput, hpast⟩ := of_visit_found hvisit
      refine .noIndex hdest (by simp [houtput]) fun index hindex => ?_
      have hnone : p.itemAt call = none := by simpa using hv
      rw [item_at_eq houtput, hindex] at hnone
      have := element_at_eq_none_iff.mp hnone
      have := hpast index hindex
      omega
    | undocumented hvisit he =>
      obtain ⟨hdest, houtput, hitem⟩ := of_visit_failed hvisit he
      exact .missingItem hdest houtput hitem
    | noBranch hvisit =>
      obtain ⟨hdest, hlinks, item, hitem, hpaired⟩ := of_visit_branch hvisit
      exact .noInput hdest hitem hpaired hlinks.symm
    | swallows h => exact .swallowed ((swallows_iff usedMethodName).mpr h)

variable (usedMethodName) in
theorem meets_search_iff {fuel : Nat} :
    p.Meets destinationNodeName usedMethodName fuel call ↔
      (p.search destinationNodeName usedMethodName).Meets (·.isSome) Documented fuel call := by
  constructor
  · rintro ⟨hvalue, herror⟩
    rw [get_paired_item_eq_run] at hvalue herror
    exact ⟨fun result h => (only_iff usedMethodName).mpr (hvalue result h), herror⟩
  · rintro ⟨hvalue, herror⟩
    rw [← get_paired_item_eq_run] at hvalue herror
    exact ⟨fun result h => (only_iff usedMethodName).mp (hvalue result h), herror⟩

variable (usedMethodName) in
/-- Every call that `getPairedItem` makes follows the links soundly exactly if none of these calls
has a defect. -/
theorem calls_meet_iff {fuel : Nat} :
    (∀ m x, p.Calls destinationNodeName fuel call m x →
      p.Meets destinationNodeName usedMethodName m x) ↔
      ∀ m x, p.Calls destinationNodeName fuel call m x →
        ¬ p.LinkDefect destinationNodeName m x := by
  simp only [calls_iff usedMethodName, meets_search_iff usedMethodName,
    link_defect_iff usedMethodName]
  exact UnanimousSearch.meets_iff (fun _ => ⟨_, rfl⟩) (fun ⟨_, h⟩ => by cases h)
    (fun ⟨_, h⟩ => by cases h)

end N8n.PairedItems.WorkflowDataProxy
