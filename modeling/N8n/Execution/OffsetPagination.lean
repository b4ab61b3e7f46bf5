import N8n.Collections.Fallible
import N8n.Collections.Slices

/-!
# Offset pagination

`makeRequest`, `postProcessResponseData` and `runPostReceiveAction` of
`packages/core/src/execution-engine/routing-node.ts`, for `offset` pagination: pages are requested
until one has, after post-processing, another number of items than the page size.
-/

namespace N8n.RoutingNode

open Collections

variable {J ι ε : Type}

/-- How JSON values `J` and items `ι` are read and built. -/
structure Host (J ι : Type) where
  /-- The elements of an array. -/
  elements : J → Option (List J)
  get : J → String → J
  isUndefined : J → Bool
  /-- `{ json }`. -/
  ofJson : J → ι
  json : ι → J

/-- `PostReceiveAction`, its parameters as functions of the response and the item they are
evaluated for. The `sort` and `binaryData` actions are functions here. -/
inductive PostReceiveAction (J ι ε : Type) where
  | function (action : J → List ι → Except ε (J × List ι))
  | rootProperty (property : String)
  | filter (pass : J → ι → Except ε Bool)
  /-- `parseInt(maxResults, 10)`, `none` when it is not a number. -/
  | limit (maxResults : J → Except ε (Option Int))
  | set (value : J → Except ε J)
  | setKeyValue (value : J → ι → Except ε J)

/-- What ends a request early. -/
inductive RequestError (ε : Type) where
  | action (error : ε)
  /-- `tempResponseData[0].json` of no item at all. -/
  | noFirstItem
  /-- `The rootProperty "…" could not be found on item.` -/
  | rootPropertyMissing (property : String)
  /-- The property has no `map`. -/
  | notAnArray

/-- `inputData.slice(0, count)`. -/
def sliceTo (inputData : List ι) : Option Int → List ι
  | none => []
  | some count =>
    inputData.take (if count < 0 then inputData.length + count else count).toNat

/-- `runPostReceiveAction(action, inputData, responseData)`, with the response it leaves. -/
def runPostReceiveAction (host : Host J ι) :
    J × List ι → PostReceiveAction J ι ε → Except ε (J × List ι)
  | (response, inputData), .function action => action response inputData
  | (response, inputData), .rootProperty property =>
    pure (response, inputData.flatMap fun item =>
      let itemContent := host.get (host.json item) property
      ((host.elements itemContent).getD [itemContent]).map host.ofJson)
  | (response, inputData), .filter pass => do
    pure (response, ← inputData.filterM (pass response))
  | (response, inputData), .limit maxResults => do
    pure (response, sliceTo inputData (← maxResults response))
  | (response, _), .set value => do
    pure (response, [host.ofJson (← value response)])
  | (response, inputData), .setKeyValue value => do
    pure (response, ← inputData.mapM fun item => do pure (host.ofJson (← value response item)))

/-- A request with offset pagination, and the server that answers it. -/
structure OffsetRequest (J ι ε : Type) where
  host : Host J ι
  pageSize : Nat
  /-- Empty when it is not set. -/
  rootProperty : String
  maxResults : Option Nat
  /-- The actions of each method. -/
  postReceive : List (List (PostReceiveAction J ι ε))
  /-- The body of the response to an offset and a limit. -/
  server : Nat → Nat → J

/-- A request sent, by the parameters it sets. -/
structure SentRequest where
  offset : Nat
  limit : Nat

/-- What the pagination does: the requests it sends and how it ends. -/
structure Outcome (ι ε : Type) where
  requests : List SentRequest
  result : Except (RequestError ε) (List ι)

namespace OffsetRequest

variable (r : OffsetRequest J ι ε)

/-- `postProcessResponseData(responseData)`. -/
def postProcessResponseData (body : J) : Except ε (List ι) :=
  if r.postReceive.isEmpty then
    pure (((r.host.elements body).getD [body]).map r.host.ofJson)
  else do
    let (_, returnData) ← r.postReceive.flatten.foldlM (runPostReceiveAction r.host)
      (body, [r.host.ofJson body])
    pure returnData

/-- The items below the `rootProperty` of the first item. -/
def belowRootProperty (tempResponseData : List ι) : Except (RequestError ε) (List ι) :=
  match tempResponseData with
  | [] => .error .noFirstItem
  | item :: _ =>
    let tempResponseValue := r.host.get (r.host.json item) r.rootProperty
    if r.host.isUndefined tempResponseValue then
      .error (.rootPropertyMissing r.rootProperty)
    else
      match r.host.elements tempResponseValue with
      | none => .error .notAnArray
      | some values => .ok (values.map r.host.ofJson)

/-- The items that a response adds to the result. -/
def itemsOf (body : J) : Except (RequestError ε) (List ι) :=
  match r.postProcessResponseData body with
  | .error error => .error (.action error)
  | .ok tempResponseData =>
    if r.rootProperty = "" then .ok tempResponseData else r.belowRootProperty tempResponseData

/-- The maximum, when one is set. -/
def maximum : Option Nat := r.maxResults.filter (· ≠ 0)

/-- The limit of the next request after `length` results, if one is made. -/
def limitAfter (length : Nat) : Option Nat :=
  match r.maximum with
  | none => some r.pageSize
  | some maxResults =>
    let resultsMissing := maxResults - length
    if resultsMissing < 1 then none else some (min r.pageSize resultsMissing)

/-- The loop of `makeRequest`, from an offset and the results so far; `none` is out of fuel. -/
def makeRequests : Nat → Nat → List ι → Option (Outcome ι ε)
  | 0, _, _ => none
  | fuel + 1, offset, responseData =>
    match r.limitAfter responseData.length with
    | none => some ⟨[], .ok responseData⟩
    | some limit =>
      match r.itemsOf (r.server offset limit) with
      | .error error => some ⟨[⟨offset, limit⟩], .error error⟩
      | .ok tempResponseData =>
        if tempResponseData.length ≠ 0 ∧ tempResponseData.length = r.pageSize then
          (makeRequests fuel (offset + r.pageSize) (responseData ++ tempResponseData)).map
            fun outcome => { outcome with requests := ⟨offset, limit⟩ :: outcome.requests }
        else
          some ⟨[⟨offset, limit⟩], .ok (responseData ++ tempResponseData)⟩

/-- The server answers by the slices of its list, in a body of its own. -/
def Serves (body : List J → J) (list : List J) : Prop :=
  ∀ offset limit, r.server offset limit = body ((list.drop offset).take limit)

/-- The first of the items, as many as are still missing after `count` results. -/
def cut (count : Nat) (items : List ι) : List ι :=
  match r.maximum with
  | none => items
  | some maxResults => items.take (maxResults - count)

section

variable (body : List J → J) (list : List J) (processed : Nat → List ι)

/-- The pages of the list can be processed: the full ones and the one after them, which is shorter
and may be empty. -/
def PagesProcessed : Prop :=
  ∀ k ≤ list.length / r.pageSize, r.itemsOf (body (slice list r.pageSize k)) = .ok (processed k)

/-- The processed items from the page `n` on. -/
def itemsFrom (n : Nat) : List ι :=
  ((List.range (list.length / r.pageSize + 1)).drop n).flatMap processed

/-- The pagination ends with the processed items of all pages, or the first of them, and requests
no page twice. -/
def ReturnsEveryItem : Prop :=
  ∃ processed, r.PagesProcessed body list processed ∧
    ∃ fuel outcome, r.makeRequests fuel 0 [] = some outcome ∧
      outcome.result = .ok (r.cut 0 (r.itemsFrom list processed 0)) ∧
      (outcome.requests.map SentRequest.offset).Nodup

/-- The first `n` pages have as many processed items as the page size, and with them the maximum
is reached, or else the next request gets another number of items: exactly those that are still
to come. -/
structure NothingFollows (n : Nat) : Prop where
  full : ∀ k < n, k ≤ list.length / r.pageSize ∧ (processed k).length = r.pageSize
  within : ∀ maxResults, r.maximum = some maxResults → n * r.pageSize ≤ maxResults
  complete : r.maximum = some (n * r.pageSize) ∨
    ∃ limit, r.limitAfter (n * r.pageSize) = some limit ∧
      r.itemsOf (r.server (n * r.pageSize) limit) =
        .ok (r.cut (n * r.pageSize) (r.itemsFrom list processed n)) ∧
      (r.cut (n * r.pageSize) (r.itemsFrom list processed n)).length ≠ r.pageSize

end

variable {r} {body : List J → J} {list : List J} {processed : Nat → List ι} {n k fuel offset : Nat}
  {responseData : List ι} {outcome : Outcome ι ε}

theorem requests_increase (hsize : 0 < r.pageSize)
    (h : r.makeRequests fuel offset responseData = some outcome) :
    (∀ request ∈ outcome.requests, offset ≤ request.offset) ∧
      (outcome.requests.map SentRequest.offset).Nodup := by
  induction fuel generalizing offset responseData outcome with
  | zero => cases h
  | succ fuel ih =>
    rw [makeRequests] at h
    split at h
    · cases h
      simp
    · split at h
      · cases h
        exact ⟨by simp, by simp⟩
      · split at h
        · obtain ⟨later, hlater, rfl⟩ := Option.map_eq_some_iff.mp h
          obtain ⟨hle, hnodup⟩ := ih hlater
          refine ⟨fun request hmem => ?_, List.nodup_cons.mpr ⟨fun hmem => ?_, hnodup⟩⟩
          · obtain rfl | hmem := List.mem_cons.mp hmem
            · exact Nat.le_refl _
            · have := hle request hmem
              omega
          · obtain ⟨request, hrequest, heq : request.offset = offset⟩ := List.mem_map.mp hmem
            have := hle request hrequest
            omega
        · cases h
          exact ⟨by simp, by simp⟩

theorem results_extend {items : List ι}
    (h : r.makeRequests fuel offset responseData = some outcome)
    (hitems : outcome.result = .ok items) : responseData <+: items := by
  induction fuel generalizing offset responseData outcome with
  | zero => cases h
  | succ fuel ih =>
    rw [makeRequests] at h
    split at h
    · cases h
      cases hitems
      exact List.prefix_refl _
    · split at h
      · cases h
        cases hitems
      · split at h
        · obtain ⟨later, hlater, rfl⟩ := Option.map_eq_some_iff.mp h
          exact (List.prefix_append _ _).trans (ih hlater hitems)
        · cases h
          cases hitems
          exact List.prefix_append _ _

theorem items_split (hk : k ≤ list.length / r.pageSize + 1) :
    r.itemsFrom list processed 0 =
      (List.range k).flatMap processed ++ r.itemsFrom list processed k := by
  rw [itemsFrom, itemsFrom, ← List.flatMap_append, List.drop_zero]
  conv_lhs => rw [← List.take_append_drop k (List.range _), List.take_range, Nat.min_eq_left hk]

theorem length_pages (hfull : ∀ i < k, (processed i).length = r.pageSize) :
    ((List.range k).flatMap processed).length = k * r.pageSize := by
  rw [List.length_flatMap, List.map_congr_left (g := fun _ => r.pageSize)
    fun i hi => hfull i (List.mem_range.mp hi)]
  simp

theorem range_flatMap_succ :
    (List.range (k + 1)).flatMap processed = (List.range k).flatMap processed ++ processed k := by
  rw [List.range_succ, List.flatMap_append, List.flatMap_singleton]

theorem cut_append {first rest : List ι}
    (hwithin : ∀ maxResults, r.maximum = some maxResults → first.length ≤ maxResults) :
    r.cut 0 (first ++ rest) = first ++ r.cut first.length rest := by
  unfold cut
  split
  · rfl
  next maxResults hmax =>
    rw [Nat.sub_zero, List.take_append, List.take_of_length_le (hwithin _ hmax)]

theorem limit_eq_none_iff :
    r.limitAfter n = none ↔ ∃ maxResults, r.maximum = some maxResults ∧ maxResults ≤ n := by
  unfold limitAfter
  cases r.maximum with
  | none => simp
  | some maxResults =>
    simp only [ite_eq_left_iff, reduceCtorEq, imp_false, Decidable.not_not, Option.some.injEq,
      exists_eq_left']
    omega

theorem limit_eq_pageSize
    (h : ∀ maxResults, r.maximum = some maxResults → n + r.pageSize ≤ maxResults)
    (hsize : 0 < r.pageSize) : r.limitAfter n = some r.pageSize := by
  unfold limitAfter
  split
  · rfl
  next maxResults hmax =>
    have := h _ hmax
    rw [if_neg (by omega), Nat.min_eq_left (by omega)]

theorem run_complete (hsize : 0 < r.pageSize) (hserver : r.Serves body list)
    (hpages : r.PagesProcessed body list processed)
    (hn : r.NothingFollows list processed n) (d : Nat) (hk : k + d = n) :
    ∃ outcome, r.makeRequests (d + 1) (k * r.pageSize) ((List.range k).flatMap processed) =
        some outcome ∧ outcome.result = .ok (r.cut 0 (r.itemsFrom list processed 0)) := by
  have hle : k ≤ list.length / r.pageSize + 1 := by
    by_contra hgt
    have := (hn.full (list.length / r.pageSize + 1) (by omega)).1
    omega
  have hlength := length_pages (k := k)
    fun i hi => (hn.full i (by omega)).2
  induction d generalizing k with
  | zero =>
    obtain rfl : k = n := hk
    rw [items_split hle, cut_append (by rw [hlength]; exact hn.within), hlength, makeRequests,
      hlength]
    obtain hmax | ⟨limit, hlimit, hitems, hne⟩ := hn.complete
    · have hlimit : r.limitAfter (k * r.pageSize) = none := by simp [limitAfter, hmax]
      have hcut : r.cut (k * r.pageSize) (r.itemsFrom list processed k) = [] := by
        simp [cut, hmax]
      simp [hlimit, hcut]
    · simp [hlimit, hitems, hne]
  | succ d ih =>
    obtain ⟨hlast, hsizek⟩ := hn.full k (by omega)
    have hroom : ∀ maxResults, r.maximum = some maxResults →
        k * r.pageSize + r.pageSize ≤ maxResults := by
      intro maxResults hmax
      have := hn.within _ hmax
      have := Nat.mul_le_mul_right r.pageSize (show k + 1 ≤ n by omega)
      rw [Nat.succ_mul] at this
      omega
    have hitems : r.itemsOf (r.server (k * r.pageSize) r.pageSize) = .ok (processed k) := by
      rw [hserver]
      exact hpages k hlast
    obtain ⟨outcome, hrun, hresult⟩ := ih (k := k + 1) (by omega) (by omega)
      (length_pages fun i hi => (hn.full i (by omega)).2)
    rw [Nat.succ_mul, range_flatMap_succ] at hrun
    rw [makeRequests, hlength, limit_eq_pageSize hroom hsize]
    simp only [hitems]
    rw [if_pos ⟨by omega, hsizek⟩, hrun]
    exact ⟨_, rfl, hresult⟩

theorem room_of_prefix (hsize : 0 < r.pageSize) (hk : k ≤ list.length / r.pageSize + 1)
    (h : r.pageSize ≤ (r.cut (k * r.pageSize) (r.itemsFrom list processed k)).length) :
    k ≤ list.length / r.pageSize ∧
      ∀ maxResults, r.maximum = some maxResults → k * r.pageSize + r.pageSize ≤ maxResults := by
  constructor
  · by_contra hlast
    obtain rfl : k = list.length / r.pageSize + 1 := by omega
    have hrest : r.itemsFrom list processed (list.length / r.pageSize + 1) = [] := by
      rw [itemsFrom, List.drop_of_length_le (by simp), List.flatMap_nil]
    rw [hrest] at h
    unfold cut at h
    split at h <;> simp at h <;> omega
  · intro maxResults hmax
    rw [cut, hmax, List.length_take] at h
    omega

theorem complete_of_run (hsize : 0 < r.pageSize) (hserver : r.Serves body list)
    (hpages : r.PagesProcessed body list processed)
    (hfull : ∀ i < k, i ≤ list.length / r.pageSize ∧ (processed i).length = r.pageSize)
    (hwithin : ∀ maxResults, r.maximum = some maxResults → k * r.pageSize ≤ maxResults)
    (hrun : r.makeRequests fuel (k * r.pageSize) ((List.range k).flatMap processed) =
      some outcome)
    (hresult : outcome.result = .ok (r.cut 0 (r.itemsFrom list processed 0))) :
    ∃ n, r.NothingFollows list processed n := by
  induction fuel generalizing k outcome with
  | zero => cases hrun
  | succ fuel ih =>
    have hle : k ≤ list.length / r.pageSize + 1 := by
      by_contra hgt
      have := (hfull (list.length / r.pageSize + 1) (by omega)).1
      omega
    have hlength := length_pages fun i hi => (hfull i hi).2
    have hcut : r.cut 0 (r.itemsFrom list processed 0) = (List.range k).flatMap processed ++
        r.cut (k * r.pageSize) (r.itemsFrom list processed k) := by
      rw [items_split hle, cut_append (by rw [hlength]; exact hwithin), hlength]
    rw [makeRequests, hlength] at hrun
    split at hrun
    next hlimit =>
      obtain ⟨maxResults, hmax, hreached⟩ := limit_eq_none_iff.mp hlimit
      have := hwithin _ hmax
      exact ⟨k, hfull, hwithin, .inl (by rw [hmax]; congr 1; omega)⟩
    next limit hlimit =>
      split at hrun
      · cases hrun
        cases hresult
      next temp htemp =>
        split at hrun
        next hpage =>
          obtain ⟨later, hlater, rfl⟩ := Option.map_eq_some_iff.mp hrun
          -- the page is among the items still to come, so it was requested as a whole
          have hprefix := results_extend hlater hresult
          rw [hcut, List.prefix_append_right_inj] at hprefix
          obtain ⟨hlast, hroom⟩ := room_of_prefix hsize hle (hpage.2 ▸ hprefix.length_le)
          rw [limit_eq_pageSize hroom hsize] at hlimit
          cases hlimit
          obtain rfl : processed k = temp := by
            rw [hserver] at htemp
            exact Except.ok.inj ((hpages k hlast).symm.trans htemp)
          refine ih (k := k + 1) (fun i hi => ?_) (fun maxResults hmax => ?_)
            (?_ : _ = some later) hresult
          · obtain hlt | rfl := Nat.lt_succ_iff_lt_or_eq.mp hi
            · exact hfull i hlt
            · exact ⟨hlast, hpage.2⟩
          · rw [Nat.succ_mul]
            exact hroom _ hmax
          · rw [Nat.succ_mul, range_flatMap_succ]
            exact hlater
        next hpage =>
          cases hrun
          rw [hcut] at hresult
          obtain rfl := List.append_cancel_left (Except.ok.inj hresult)
          exact ⟨k, hfull, hwithin, .inr ⟨limit, hlimit, htemp, fun h => hpage ⟨by omega, h⟩⟩⟩

/-- Offset pagination returns the processed items of every page, or the first of them, exactly
when nothing follows the first page whose processed items are not as many as the page size. -/
theorem returns_every_item_iff (hsize : 0 < r.pageSize) (hserver : r.Serves body list) :
    r.ReturnsEveryItem body list ↔ ∃ processed, r.PagesProcessed body list processed ∧
      ∃ n, r.NothingFollows list processed n := by
  constructor
  · rintro ⟨processed, hpages, fuel, outcome, hrun, hresult, -⟩
    have hstart : r.makeRequests fuel (0 * r.pageSize) ((List.range 0).flatMap processed) =
        some outcome := by
      rw [Nat.zero_mul]
      exact hrun
    exact ⟨processed, hpages, complete_of_run hsize hserver hpages
      (fun i hi => absurd hi (Nat.not_lt_zero i)) (by simp) hstart hresult⟩
  · rintro ⟨processed, hpages, n, hn⟩
    obtain ⟨outcome, hrun, hresult⟩ :=
      run_complete (k := 0) hsize hserver hpages hn n (Nat.zero_add n)
    rw [Nat.zero_mul] at hrun
    exact ⟨processed, hpages, n + 1, outcome, hrun, hresult, (requests_increase hsize hrun).2⟩

/-- The numbers one to three in pages of two, below `results`, of which a filter drops one. -/
def numbersWithout (dropped : Nat) : OffsetRequest (List Nat) (List Nat) Unit where
  host :=
    { elements := fun numbers => some (numbers.map ([·]))
      get := fun numbers _ => numbers
      isUndefined := fun _ => false
      ofJson := id
      json := id }
  pageSize := 2
  rootProperty := ""
  maxResults := none
  postReceive := [[.rootProperty "results", .filter fun _ item => .ok (item ≠ [dropped])]]
  server := fun offset limit => (([[1], [2], [3]].drop offset).take limit).flatten

theorem last_dropped_returns_every_item :
    (numbersWithout 3).ReturnsEveryItem List.flatten [[1], [2], [3]] := by
  have hpages : (numbersWithout 3).PagesProcessed List.flatten [[1], [2], [3]]
      fun k => if k = 0 then [[1], [2]] else [] := by
    intro k hk
    obtain rfl | rfl : k = 0 ∨ k = 1 := by
      simp only [numbersWithout, List.length_cons, List.length_nil] at hk
      omega
    · rfl
    · rfl
  refine (returns_every_item_iff (by decide) fun _ _ => rfl).mpr ⟨_, hpages, 1, ⟨?_, ?_, ?_⟩⟩
  · intro k hk
    obtain rfl : k = 0 := by omega
    decide
  · rintro maxResults ⟨⟩
  · exact .inr ⟨2, rfl, rfl, by decide⟩

/-- A filter that drops an item of the first page ends the pagination there. -/
theorem first_dropped_loses_page :
    ¬(numbersWithout 1).ReturnsEveryItem List.flatten [[1], [2], [3]] := by
  rintro ⟨processed, hpages, fuel, outcome, hrun, hresult, -⟩
  have hfirst : .ok [[2]] = Except.ok (processed 0) := hpages 0 (by decide)
  have hsecond : .ok [[3]] = Except.ok (processed 1) := hpages 1 (by decide)
  cases fuel with
  | zero => cases hrun
  | succ fuel =>
    obtain rfl : ⟨[⟨0, 2⟩], .ok [[2]]⟩ = outcome := Option.some.inj hrun
    have hitems : [[2]] = processed 0 ++ (processed 1 ++ []) := Except.ok.inj hresult
    rw [← Except.ok.inj hfirst, ← Except.ok.inj hsecond] at hitems
    exact absurd hitems (by decide)

end OffsetRequest

end N8n.RoutingNode
