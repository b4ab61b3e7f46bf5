import Mathlib.Data.List.Forall2
import Mathlib.Data.List.MinMax
import N8n.Collections.InsertionMap
import N8n.Transition.Runs
import N8n.Webhooks.WebhookEntity

/-!
# The cache of webhooks

`WebhookService` keeps the rows of the webhook table in a cache. Calls suspend at the database; the
commands to the cache are not awaited and take effect when they are given. A look-up carries the
rows that had been deleted before it started, and `resurrected` collects the answers among them.
`never_resurrected` says under which condition on the writes to the cache there are none.
-/

namespace N8n.Webhooks

open Collections Transition

/-! ## Looking up dynamic webhooks

`findDynamicWebhook` takes the rows of the request's method, webhook id and number of segments and
keeps the first of those with the most static segments among the rows whose static segments all
occur in the request. It compares sets of segments: `find_dynamic_webhook_iff` says on which
tables and requests that finds the most specific row that matches position by position.
-/

section

variable {rows : List WebhookEntity} {method : Method} {path : List Char} {w w' : WebhookEntity}

/-- The best match so far. -/
structure BestMatch where
  webhook : Option WebhookEntity
  maxMatches : Nat
  deriving DecidableEq, Repr

/-- Do all static segments of the row occur among the segments of the request? -/
def allStaticSegmentsMatch (requestSegments : List (List Char)) (dw : WebhookEntity) : Bool :=
  dw.staticSegments.all fun s => decide (s ∈ requestSegments)

/-- One round of the search for the best match. -/
def BestMatch.next (requestSegments : List (List Char)) (acc : BestMatch) (dw : WebhookEntity) :
    BestMatch :=
  if allStaticSegmentsMatch requestSegments dw ∧ acc.maxMatches < dw.staticSegments.length then
    ⟨some dw, dw.staticSegments.length⟩
  else if dw.staticSegments.length = 0 ∧ acc.webhook.isNone then
    -- The path consists of parameters only, so it matches anything.
    { acc with webhook := some dw }
  else acc

/-- The rows of the request's webhook id, method and number of further segments. -/
def dynamicWebhooks (rows : List WebhookEntity) (method : Method) (path : List Char) :
    List WebhookEntity :=
  rows.filter fun w =>
    decide (w.webhookId = some ((segments path).headD []) ∧ w.method = method ∧
      w.pathLength = some (segments path).tail.length)

/-- The dynamic webhook for a request. -/
def findDynamicWebhook (rows : List WebhookEntity) (method : Method) (path : List Char) :
    Option WebhookEntity :=
  ((dynamicWebhooks rows method path).foldl (BestMatch.next (segments path).tail) ⟨none, 0⟩).webhook

/-- The rows whose static segments all occur in the request, in the order of the table. -/
def setMatches (rows : List WebhookEntity) (method : Method) (path : List Char) :
    List WebhookEntity :=
  (dynamicWebhooks rows method path).filter (allStaticSegmentsMatch (segments path).tail)

/-- The row matches the request position by position: the same method and webhook id, as many
segments, and each static segment equal to the request's segment at its position. -/
def Matches (w : WebhookEntity) (method : Method) (path : List Char) : Prop :=
  w.webhookId = some ((segments path).headD []) ∧ w.method = method ∧
    List.Forall₂ (fun s r => isParameter s = false → s = r) (segments w.webhookPath)
      (segments path).tail

instance (w : WebhookEntity) (method : Method) (path : List Char) :
    Decidable (Matches w method path) :=
  inferInstanceAs (Decidable (_ ∧ _ ∧ _))

/-- The answer to a request is positional, complete and most specific. -/
structure MostSpecific (rows : List WebhookEntity) (method : Method) (path : List Char)
    (answer : Option WebhookEntity) : Prop where
  positional : ∀ w, answer = some w → w ∈ rows ∧ Matches w method path
  complete : (∃ w ∈ rows, Matches w method path) → answer.isSome
  specific : ∀ w, answer = some w → ∀ w' ∈ rows, Matches w' method path →
    w'.staticSegments.length ≤ w.staticSegments.length

/-- A round keeps the first of the rows with the most static segments among those that match as a
set. -/
theorem next_argmax {requestSegments : List (List Char)} (dws : List WebhookEntity)
    (dw : WebhookEntity) (acc : BestMatch)
    (hwebhook : acc.webhook = (dws.filter (allStaticSegmentsMatch requestSegments)).argmax
      fun w => w.staticSegments.length)
    (hmax : acc.maxMatches = (acc.webhook.map fun w => w.staticSegments.length).getD 0) :
    (acc.next requestSegments dw).webhook =
      ((dws ++ [dw]).filter (allStaticSegmentsMatch requestSegments)).argmax
        (fun w => w.staticSegments.length) ∧
    (acc.next requestSegments dw).maxMatches =
      ((acc.next requestSegments dw).webhook.map fun w => w.staticSegments.length).getD 0 := by
  obtain ⟨webhook, maxMatches⟩ := acc
  dsimp only at hwebhook hmax
  rw [List.filter_append]
  by_cases hset : allStaticSegmentsMatch requestSegments dw
  · have hdw : [dw].filter (allStaticSegmentsMatch requestSegments) = [dw] := by simp [hset]
    rw [hdw, List.argmax_concat, ← hwebhook]
    cases webhook with
    | none =>
      simp only [Option.map_none, Option.getD_none] at hmax
      by_cases hzero : dw.staticSegments.length = 0
      · simp [BestMatch.next, hset, hmax, hzero]
      · have hpos : 0 < dw.staticSegments.length := by omega
        simp [BestMatch.next, hset, hmax, hpos]
    | some w =>
      simp only [Option.map_some, Option.getD_some] at hmax
      by_cases hlt : w.staticSegments.length < dw.staticSegments.length
      · simp [BestMatch.next, hset, hmax, hlt]
      · simp [BestMatch.next, hset, hmax, hlt]
  · -- A row without static segments matches every set, so nothing changes here.
    have hne : dw.staticSegments.length ≠ 0 := by
      intro hzero
      exact hset (by simp [allStaticSegmentsMatch, List.length_eq_zero_iff.mp hzero])
    have hdw : [dw].filter (allStaticSegmentsMatch requestSegments) = [] := by simp [hset]
    rw [hdw, List.append_nil]
    simpa [BestMatch.next, hset, hne] using ⟨hwebhook, hmax⟩

/-- The search finds the first of the rows with the most static segments among those that match as
a set. -/
theorem find_dynamic_webhook_argmax (rows : List WebhookEntity) (method : Method)
    (path : List Char) :
    findDynamicWebhook rows method path =
      (setMatches rows method path).argmax fun w => w.staticSegments.length := by
  have hfold : ∀ dws : List WebhookEntity,
      (dws.foldl (BestMatch.next (segments path).tail) ⟨none, 0⟩).webhook =
        (dws.filter (allStaticSegmentsMatch (segments path).tail)).argmax
          (fun w => w.staticSegments.length) ∧
      (dws.foldl (BestMatch.next (segments path).tail) ⟨none, 0⟩).maxMatches =
        ((dws.foldl (BestMatch.next (segments path).tail) ⟨none, 0⟩).webhook.map
          fun w => w.staticSegments.length).getD 0 := by
    intro dws
    induction dws using List.reverseRecOn with
    | nil => exact ⟨rfl, rfl⟩
    | append_singleton dws dw ih =>
      rw [List.foldl_append]
      exact next_argmax dws dw _ ih.1 ih.2
  exact (hfold (dynamicWebhooks rows method path)).1

theorem mem_set_matches_iff :
    w ∈ setMatches rows method path ↔
      w ∈ rows ∧ (w.webhookId = some ((segments path).headD []) ∧ w.method = method ∧
        w.pathLength = some (segments path).tail.length) ∧
      ∀ s ∈ w.staticSegments, s ∈ (segments path).tail := by
  simp only [setMatches, dynamicWebhooks, allStaticSegmentsMatch, List.mem_filter,
    List.all_eq_true, decide_eq_true_eq, and_assoc]

theorem argmax_of_mem_set_matches (h : w ∈ setMatches rows method path) :
    ∃ best,
      ((setMatches rows method path).argmax fun w => w.staticSegments.length) = some best := by
  refine Option.ne_none_iff_exists'.mp fun hnone => ?_
  exact List.ne_nil_of_mem h (List.argmax_eq_none.mp hnone)

theorem Matches.mem_set_matches (h : Matches w method path) (hmem : w ∈ rows)
    (hregistered : Registered w) : w ∈ setMatches rows method path := by
  obtain ⟨hid, hmethod, hsegments⟩ := h
  refine mem_set_matches_iff.mpr ⟨hmem, ⟨hid, hmethod, ?_⟩, fun s hs => ?_⟩
  · rw [hregistered.path_length, hid, Option.map_some, hsegments.length_eq]
  · obtain ⟨hmem, hstatic⟩ := List.mem_filter.mp hs
    obtain ⟨i, hlt, rfl⟩ := List.getElem_of_mem hmem
    have hlt' : i < (segments path).tail.length := hsegments.length_eq ▸ hlt
    have heq := hsegments.get hlt hlt' (by simpa using hstatic)
    simp only [List.get_eq_getElem] at heq
    rw [heq]
    exact List.getElem_mem hlt'

/-- The lookup answers with a positional and most specific match, and finds one whenever there is
one, exactly when every row that matches as a set without matching by position is beaten by a row
that matches by position: one with more static segments, or with as many and before it. -/
theorem find_dynamic_webhook_iff (hregistered : ∀ w ∈ rows, Registered w) :
    MostSpecific rows method path (findDynamicWebhook rows method path) ↔
      ∀ w ∈ setMatches rows method path, ¬ Matches w method path →
        ∃ w' ∈ setMatches rows method path, Matches w' method path ∧
          (w.staticSegments.length < w'.staticSegments.length ∨
            w.staticSegments.length = w'.staticSegments.length ∧
              (setMatches rows method path).idxOf w' < (setMatches rows method path).idxOf w) := by
  rw [find_dynamic_webhook_argmax]
  constructor
  · intro h w hw hnot
    obtain ⟨best, hbest⟩ := argmax_of_mem_set_matches hw
    obtain ⟨hmem, hmax, hfirst⟩ := List.argmax_eq_some_iff.mp hbest
    have hpositional : Matches best method path := (h.positional best hbest).2
    refine ⟨best, hmem, hpositional, ?_⟩
    have hle := hmax w hw
    by_cases heq : w.staticSegments.length = best.staticSegments.length
    · refine .inr ⟨heq, lt_of_le_of_ne (hfirst w hw (le_of_eq heq.symm)) fun hidx => hnot ?_⟩
      rwa [(List.idxOf_inj hmem).mp hidx] at hpositional
    · exact .inl (lt_of_le_of_ne hle heq)
  · intro h
    refine ⟨fun w hw => ?_, ?_, fun w hw w' hw' hmatches => ?_⟩
    · obtain ⟨hmem, hmax, hfirst⟩ := List.argmax_eq_some_iff.mp hw
      refine ⟨(mem_set_matches_iff.mp hmem).1, ?_⟩
      by_contra hnot
      obtain ⟨w', hmem', -, hmore | ⟨hequal, hbefore⟩⟩ := h w hmem hnot
      · exact absurd (hmax w' hmem') (not_le.mpr hmore)
      · exact absurd (hfirst w' hmem' (le_of_eq hequal)) (not_le.mpr hbefore)
    · rintro ⟨w, hw, hmatches⟩
      obtain ⟨best, hbest⟩ := argmax_of_mem_set_matches
        (hmatches.mem_set_matches hw (hregistered w hw))
      rw [hbest]
      rfl
    · obtain ⟨-, hmax, -⟩ := List.argmax_eq_some_iff.mp hw
      exact hmax w' (hmatches.mem_set_matches hw' (hregistered w' hw'))

/-- A table with the one webhook `GET user/:id`. -/
def userWebhook : WebhookData :=
  ⟨"workflow".toList, "Webhook".toList, .get, "user/:id".toList⟩

/-- A request whose segments stand at their positions is answered as it should be. -/
theorem find_dynamic_webhook_user :
    MostSpecific [userWebhook.toEntity (some "uuid".toList)] .get "uuid/user/42".toList
      (findDynamicWebhook [userWebhook.toEntity (some "uuid".toList)] .get
        "uuid/user/42".toList) := by
  refine (find_dynamic_webhook_iff ?_).mpr ?_
  · intro w hw
    exact ⟨userWebhook, some "uuid".toList, List.mem_singleton.mp hw⟩
  · decide +kernel

/-- The webhook `GET user/:id` answers a request for `42/user`, which it does not match. -/
theorem find_dynamic_webhook_swapped :
    ¬ ∀ (rows : List WebhookEntity) (method : Method) (path : List Char),
      (∀ w ∈ rows, Registered w) →
        MostSpecific rows method path (findDynamicWebhook rows method path) := by
  intro h
  have hspecific := h [userWebhook.toEntity (some "uuid".toList)] .get "uuid/42/user".toList
    fun w hw => ⟨userWebhook, some "uuid".toList, List.mem_singleton.mp hw⟩
  have hmatches := (hspecific.positional (userWebhook.toEntity (some "uuid".toList))
    (by decide +kernel)).2
  revert hmatches
  decide +kernel

end

/-! ## The cache of webhooks -/

/-- A suspended call of the service. -/
inductive WebhookCall where
  /-- `findStaticWebhook` awaits the database, after the cache had no entry. -/
  | findingStatic (method : Method) (path : List Char) (before : List WebhookEntity)
  | foundStatic (method : Method) (path : List Char) (before : List WebhookEntity)
      (dbStaticWebhook : Option WebhookEntity)
  /-- `findDynamicWebhook` awaits the database. -/
  | findingDynamic (method : Method) (path : List Char) (before : List WebhookEntity)
  /-- `storeWebhook` awaits the database. -/
  | upserting (webhook : WebhookEntity)
  /-- `deleteWorkflowWebhooks` awaits the rows of the workflow. -/
  | findingRows (workflowId : List Char)
  | foundRows (webhooks : List WebhookEntity)
  /-- `deleteWebhooks` deleted the rows' cache entries and awaits the database. -/
  | removing (webhooks : List WebhookEntity)
  /-- `populateCache` awaits the rows of static webhooks. -/
  | findingAllStatic
  | foundAllStatic (staticWebhooks : List WebhookEntity)
  deriving DecidableEq, Repr

namespace WebhookCall

/-- The rows that had been deleted before a look-up started and were not stored since. -/
def before : WebhookCall → List WebhookEntity
  | .findingStatic _ _ before => before
  | .foundStatic _ _ before _ => before
  | .findingDynamic _ _ before => before
  | _ => []

/-- The rows that are cleared from the cache and on their way out of the database. -/
def removed : WebhookCall → List WebhookEntity
  | .removing webhooks => webhooks
  | _ => []

/-- The call after a row is stored: look-ups may return it. -/
def stored (webhook : WebhookEntity) : WebhookCall → WebhookCall
  | .findingStatic method path before =>
    .findingStatic method path (before.filter (· ≠ webhook))
  | .foundStatic method path before dbStaticWebhook =>
    .foundStatic method path (before.filter (· ≠ webhook)) dbStaticWebhook
  | .findingDynamic method path before =>
    .findingDynamic method path (before.filter (· ≠ webhook))
  | call => call

end WebhookCall

/-- The table and the cache, the suspended calls, the rows that were deleted and not stored since,
and the answers to look-ups that started after the row was deleted. -/
structure WebhookStore where
  rows : InsertionMap (Method × List Char) WebhookEntity
  cache : InsertionMap (List Char) WebhookEntity
  calls : List WebhookCall
  deleted : List WebhookEntity
  resurrected : List WebhookEntity
  deriving DecidableEq, Repr

/-- The primary key of a row. -/
def WebhookEntity.primaryKey (w : WebhookEntity) : Method × List Char := (w.method, w.webhookPath)

inductive WebhookEvent where
  | findWebhook (method : Method) (path : List Char)
  | storeWebhook (webhook : WebhookEntity)
  | deleteWorkflowWebhooks (workflowId : List Char)
  | populateCache
  /-- The time to live of a cache entry ends. -/
  | expire (key : List Char)
  /-- A suspended call goes on; `ok` tells whether the database answered. -/
  | goOn (call : WebhookCall) (ok : Bool)
  deriving DecidableEq, Repr

namespace WebhookStore

def suspend (s : WebhookStore) (call : WebhookCall) : WebhookStore :=
  { s with calls := s.calls ++ [call] }

/-- A look-up answers with a row. -/
def answer (s : WebhookStore) (before : List WebhookEntity) (row : WebhookEntity) : WebhookStore :=
  if row ∈ before then { s with resurrected := s.resurrected ++ [row] } else s

/-- A row is stored, so it no longer counts as deleted. -/
def stored (s : WebhookStore) (webhook : WebhookEntity) : WebhookStore :=
  { s with
    deleted := s.deleted.filter (· ≠ webhook)
    calls := s.calls.map (·.stored webhook) }

/-- Go on with a suspended call after the database answered. -/
def goOn (s : WebhookStore) : WebhookCall → WebhookStore
  | .findingStatic method path before =>
    s.suspend (.foundStatic method path before (s.rows.get? (method, path)))
  | .foundStatic method path before (some dbStaticWebhook) =>
    { s with
      cache := s.cache.set (WebhookEntity.keyOf method path) dbStaticWebhook }.answer before
        dbStaticWebhook
  | .foundStatic method path before none => s.suspend (.findingDynamic method path before)
  | .findingDynamic method path before =>
    match findDynamicWebhook s.rows.values method path with
    | some webhook => s.answer before webhook
    | none => s
  | .upserting webhook =>
    { s with rows := s.rows.set webhook.primaryKey webhook }.stored webhook
  | .findingRows workflowId =>
    s.suspend (.foundRows (s.rows.values.filter (·.workflowId = workflowId)))
  | .foundRows webhooks =>
    { s with
      cache := webhooks.foldl (fun cache (w : WebhookEntity) => cache.delete w.cacheKey)
        s.cache }.suspend (.removing webhooks)
  | .removing webhooks =>
    { s with
      rows := webhooks.foldl (fun rows (w : WebhookEntity) => rows.delete w.primaryKey) s.rows
      deleted := s.deleted ++ webhooks }
  | .findingAllStatic => s.suspend (.foundAllStatic (s.rows.values.filter (·.webhookId = none)))
  | .foundAllStatic staticWebhooks =>
    { s with
      cache := staticWebhooks.foldl (fun cache (w : WebhookEntity) => cache.set w.cacheKey w)
        s.cache }

/-- The state after an event. -/
def step (s : WebhookStore) : WebhookEvent → Option WebhookStore
  | .findWebhook method path =>
    match s.cache.get? (WebhookEntity.keyOf method path) with
    | some cachedStaticWebhook => some (s.answer s.deleted cachedStaticWebhook)
    | none => some (s.suspend (.findingStatic method path s.deleted))
  | .storeWebhook webhook =>
    some (({ s with cache := s.cache.set webhook.cacheKey webhook }.stored webhook).suspend
      (.upserting webhook))
  | .deleteWorkflowWebhooks workflowId => some (s.suspend (.findingRows workflowId))
  | .populateCache => some (s.suspend .findingAllStatic)
  | .expire key => some { s with cache := s.cache.delete key }
  | .goOn call ok =>
    if call ∈ s.calls then
      let s := { s with calls := s.calls.erase call }
      some (if ok then s.goOn call else s)
    else none

def initial : WebhookStore := ⟨.empty, .empty, [], [], []⟩

/-- No deletion has cleared the row from the cache and is still removing it from the database. -/
def NotRemoving (s : WebhookStore) (row : WebhookEntity) : Prop :=
  ∀ call ∈ s.calls, row ∉ call.removed

instance (s : WebhookStore) (row : WebhookEntity) : Decidable (s.NotRemoving row) :=
  inferInstanceAs (Decidable (∀ call ∈ s.calls, _))

/-- The row may be written to the cache at the key: a deletion of the row clears this key, the row
has not been deleted, and it is not being removed. -/
structure MayCache (s : WebhookStore) (key : List Char) (row : WebhookEntity) : Prop where
  key : key = row.cacheKey
  notDeleted : row ∉ s.deleted
  notRemoving : s.NotRemoving row

instance (s : WebhookStore) (key : List Char) (row : WebhookEntity) :
    Decidable (s.MayCache key row) :=
  decidable_of_iff (key = row.cacheKey ∧ row ∉ s.deleted ∧ s.NotRemoving row)
    ⟨fun h => ⟨h.1, h.2.1, h.2.2⟩, fun h => ⟨h.key, h.notDeleted, h.notRemoving⟩⟩

/-- The condition on an event: what it writes to the cache may be cached. A row that is stored does
not count as deleted. -/
def CachesLiveRows (s : WebhookStore) : WebhookEvent → Prop
  | .storeWebhook webhook => s.NotRemoving webhook
  | .goOn (.foundStatic method path _ (some row)) _ =>
    s.MayCache (WebhookEntity.keyOf method path) row
  | .goOn (.foundAllStatic staticWebhooks) _ =>
    ∀ row ∈ staticWebhooks, s.MayCache row.cacheKey row
  | _ => True

instance (s : WebhookStore) : (e : WebhookEvent) → Decidable (s.CachesLiveRows e)
  | .storeWebhook webhook => inferInstanceAs (Decidable (s.NotRemoving webhook))
  | .goOn (.foundStatic _ _ _ (some _)) _ => inferInstanceAs (Decidable (s.MayCache _ _))
  | .goOn (.foundAllStatic staticWebhooks) _ =>
    inferInstanceAs (Decidable (∀ row ∈ staticWebhooks, s.MayCache row.cacheKey row))
  | .findWebhook _ _ | .deleteWorkflowWebhooks _ | .populateCache | .expire _
  | .goOn (.findingStatic _ _ _) _ | .goOn (.foundStatic _ _ _ none) _
  | .goOn (.findingDynamic _ _ _) _ | .goOn (.upserting _) _ | .goOn (.findingRows _) _
  | .goOn (.foundRows _) _ | .goOn (.removing _) _ | .goOn .findingAllStatic _ => .isTrue trivial

/-- Rows that are cached or stored are alive, and look-ups hold no row that had been deleted before
they started. -/
structure Live (s : WebhookStore) : Prop where
  cached : ∀ key row, s.cache.get? key = some row → s.MayCache key row
  rows : ∀ key row, s.rows.get? key = some row → key = row.primaryKey ∧ row ∉ s.deleted
  before : ∀ call ∈ s.calls, call.before ⊆ s.deleted
  found : ∀ method path before row, .foundStatic method path before (some row) ∈ s.calls →
    row ∉ before
  resurrected : s.resurrected = []

variable {s s' : WebhookStore} {webhook row : WebhookEntity} {call : WebhookCall}

theorem Live.suspend (h : s.Live) (hbefore : call.before ⊆ s.deleted)
    (hremoving : ∀ key row, s.cache.get? key = some row → row ∉ call.removed)
    (hfound : ∀ method path before row, call = .foundStatic method path before (some row) →
      row ∉ before) : (s.suspend call).Live where
  cached key row hget := by
    obtain ⟨hkey, hdeleted, hnot⟩ := h.cached key row hget
    refine ⟨hkey, hdeleted, fun other hother => ?_⟩
    cases List.mem_append.mp hother with
    | inl hold => exact hnot other hold
    | inr hnew =>
      rw [List.mem_singleton.mp hnew]
      exact hremoving key row hget
  rows := h.rows
  before other hother := by
    cases List.mem_append.mp hother with
    | inl hold => exact h.before other hold
    | inr hnew =>
      rw [List.mem_singleton.mp hnew]
      exact hbefore
  found method path before row hmem := by
    cases List.mem_append.mp hmem with
    | inl hold => exact h.found method path before row hold
    | inr hnew => exact hfound method path before row (List.mem_singleton.mp hnew).symm
  resurrected := h.resurrected

theorem Live.take (h : s.Live) (call : WebhookCall) :
    Live { s with calls := s.calls.erase call } where
  cached key row hget :=
    let hmay := h.cached key row hget
    ⟨hmay.key, hmay.notDeleted, fun other hother =>
      hmay.notRemoving other (List.mem_of_mem_erase hother)⟩
  rows := h.rows
  before other hother := h.before other (List.mem_of_mem_erase hother)
  found method path before row hmem := h.found method path before row (List.mem_of_mem_erase hmem)
  resurrected := h.resurrected

theorem Live.restrict_cache (h : s.Live) {cache : InsertionMap (List Char) WebhookEntity}
    (hcache : ∀ key row, cache.get? key = some row → s.cache.get? key = some row) :
    Live { s with cache := cache } where
  cached key row hget :=
    let hmay := h.cached key row (hcache key row hget)
    ⟨hmay.key, hmay.notDeleted, hmay.notRemoving⟩
  rows := h.rows
  before := h.before
  found := h.found
  resurrected := h.resurrected

theorem Live.set_cache (h : s.Live) {key : List Char} (hmay : s.MayCache key row) :
    Live { s with cache := s.cache.set key row } where
  cached key' row' hget := by
    dsimp only at hget
    rw [InsertionMap.get_set] at hget
    split at hget
    · rename_i hkey
      cases hget
      exact ⟨hkey.trans hmay.key, hmay.notDeleted, hmay.notRemoving⟩
    · obtain ⟨hkey, hdeleted, hnot⟩ := h.cached key' row' hget
      exact ⟨hkey, hdeleted, hnot⟩
  rows := h.rows
  before := h.before
  found := h.found
  resurrected := h.resurrected

theorem Live.answer (h : s.Live) {before : List WebhookEntity} (hrow : row ∉ before) :
    (s.answer before row).Live := by
  rw [WebhookStore.answer, if_neg hrow]
  exact h

theorem before_stored (webhook : WebhookEntity) (call : WebhookCall) :
    (call.stored webhook).before = call.before.filter (· ≠ webhook) := by
  cases call <;> rfl

theorem removed_stored (webhook : WebhookEntity) (call : WebhookCall) :
    (call.stored webhook).removed = call.removed := by
  cases call <;> rfl

theorem live_stored
    (hcached : ∀ key row, s.cache.get? key = some row →
      key = row.cacheKey ∧ s.NotRemoving row ∧ (row = webhook ∨ row ∉ s.deleted))
    (hrows : ∀ key row, s.rows.get? key = some row →
      key = row.primaryKey ∧ (row = webhook ∨ row ∉ s.deleted))
    (hbefore : ∀ call ∈ s.calls, call.before ⊆ s.deleted)
    (hfound : ∀ method path before row, .foundStatic method path before (some row) ∈ s.calls →
      row ∉ before)
    (hresurrected : s.resurrected = []) : (s.stored webhook).Live where
  cached key row hget := by
    obtain ⟨hkey, hnot, hdeleted⟩ := hcached key row hget
    refine ⟨hkey, fun hmem => ?_, fun other hother => ?_⟩
    · obtain ⟨hmem, hne⟩ := List.mem_filter.mp hmem
      exact hdeleted.elim (by simpa using hne) fun hnot => hnot hmem
    · obtain ⟨call, hcall, rfl⟩ := List.mem_map.mp hother
      rw [removed_stored]
      exact hnot call hcall
  rows key row hget := by
    obtain ⟨hkey, hdeleted⟩ := hrows key row hget
    refine ⟨hkey, fun hmem => ?_⟩
    obtain ⟨hmem, hne⟩ := List.mem_filter.mp hmem
    exact hdeleted.elim (by simpa using hne) fun hnot => hnot hmem
  before other hother := by
    obtain ⟨call, hcall, rfl⟩ := List.mem_map.mp hother
    rw [before_stored]
    exact List.filter_subset _ (hbefore call hcall)
  found method path before row hmem := by
    obtain ⟨call, hcall, heq⟩ := List.mem_map.mp hmem
    cases call with
    | foundStatic method' path' before' found =>
      cases heq
      exact fun hrow => hfound _ _ _ _ hcall (List.mem_filter.mp hrow).1
    | findingStatic | findingDynamic | upserting | findingRows | foundRows | removing
    | findingAllStatic | foundAllStatic => cases heq
  resurrected := hresurrected

theorem Live.set_many (h : s.Live) {staticWebhooks : List WebhookEntity}
    (hmay : ∀ row ∈ staticWebhooks, s.MayCache row.cacheKey row) :
    Live { s with
      cache := staticWebhooks.foldl (fun cache (w : WebhookEntity) => cache.set w.cacheKey w)
        s.cache } := by
  induction staticWebhooks generalizing s with
  | nil => exact h
  | cons w rest ih =>
    refine ih (h.set_cache (hmay w (by simp))) fun row hrow => ?_
    obtain ⟨hkey, hdeleted, hnot⟩ := hmay row (List.mem_cons_of_mem w hrow)
    exact ⟨hkey, hdeleted, hnot⟩

theorem Live.find_dynamic (h : s.Live) {method : Method} {path : List Char}
    (hfind : findDynamicWebhook s.rows.values method path = some row) : row ∉ s.deleted := by
  rw [find_dynamic_webhook_argmax] at hfind
  have hmem := (mem_set_matches_iff.mp (List.argmax_mem (Option.mem_def.mpr hfind))).1
  obtain ⟨key, hget⟩ := InsertionMap.mem_values_iff.mp hmem
  exact (h.rows key row hget).2

theorem MayCache.take {key : List Char} (h : s.MayCache key row) (call : WebhookCall) :
    MayCache { s with calls := s.calls.erase call } key row :=
  ⟨h.key, h.notDeleted, fun other hother => h.notRemoving other (List.mem_of_mem_erase hother)⟩

theorem Live.remove (h : s.Live) {webhooks : List WebhookEntity}
    (hcached : ∀ key row, s.cache.get? key = some row → row ∉ webhooks) :
    Live { s with
      rows := webhooks.foldl (fun rows (w : WebhookEntity) => rows.delete w.primaryKey) s.rows
      deleted := s.deleted ++ webhooks } where
  cached key row hget := by
    obtain ⟨hkey, hdeleted, hnot⟩ := h.cached key row hget
    refine ⟨hkey, fun hmem => ?_, hnot⟩
    cases List.mem_append.mp hmem with
    | inl hold => exact hdeleted hold
    | inr hnew => exact hcached key row hget hnew
  rows key row hget := by
    dsimp only at hget
    rw [InsertionMap.get_foldl_delete] at hget
    split at hget
    · cases hget
    · rename_i hkey
      obtain ⟨heq, hdeleted⟩ := h.rows key row hget
      refine ⟨heq, fun hmem => ?_⟩
      cases List.mem_append.mp hmem with
      | inl hold => exact hdeleted hold
      | inr hnew => exact hkey (heq ▸ List.mem_map_of_mem hnew)
  before call hcall := fun _ hmem => List.mem_append_left webhooks (h.before call hcall hmem)
  found := h.found
  resurrected := h.resurrected

theorem Live.go_on (h : s.Live) (hcall : call ∈ s.calls)
    (hkeeps : s.CachesLiveRows (.goOn call true)) :
    (goOn { s with calls := s.calls.erase call } call).Live := by
  have htake := h.take call
  have hbefore := h.before call hcall
  cases call with
  | findingStatic method path before =>
    refine htake.suspend hbefore (fun _ _ _ => List.not_mem_nil) ?_
    intro method' path' before' row heq
    obtain ⟨rfl, rfl, rfl, hget⟩ := WebhookCall.foundStatic.inj heq
    exact fun hmem => (h.rows _ row hget).2 (hbefore hmem)
  | foundStatic method path before dbStaticWebhook =>
    cases dbStaticWebhook with
    | none =>
      exact htake.suspend hbefore (fun _ _ _ => List.not_mem_nil)
        fun _ _ _ _ heq => by cases heq
    | some row =>
      have hmay : s.MayCache (WebhookEntity.keyOf method path) row := hkeeps
      exact (htake.set_cache (hmay.take _)).answer (h.found method path before row hcall)
  | findingDynamic method path before =>
    dsimp only [goOn]
    cases hfind : findDynamicWebhook s.rows.values method path with
    | none => exact htake
    | some webhook => exact htake.answer fun hmem => h.find_dynamic hfind (hbefore hmem)
  | upserting webhook =>
    refine live_stored (fun key row hget => ?_) (fun key row hget => ?_) htake.before htake.found
      htake.resurrected
    · obtain ⟨hkey, hdeleted, hnot⟩ := htake.cached key row hget
      exact ⟨hkey, hnot, .inr hdeleted⟩
    · dsimp only at hget
      rw [InsertionMap.get_set] at hget
      split at hget
      · rename_i hkey
        cases hget
        exact ⟨hkey, .inl rfl⟩
      · obtain ⟨hkey, hdeleted⟩ := h.rows key row hget
        exact ⟨hkey, .inr hdeleted⟩
  | findingRows workflowId =>
    exact htake.suspend (List.nil_subset _) (fun _ _ _ => List.not_mem_nil)
      fun _ _ _ _ heq => by cases heq
  | foundRows webhooks =>
    -- The deletion of the cache entries leaves no row of the list in the cache.
    refine Live.suspend ?_ (List.nil_subset _) ?_ fun _ _ _ _ heq => by cases heq
    · exact htake.restrict_cache fun key row hget => by
        rw [InsertionMap.get_foldl_delete] at hget
        split at hget
        · cases hget
        · exact hget
    · intro key row hget hmem
      dsimp only at hget
      rw [InsertionMap.get_foldl_delete] at hget
      split at hget
      · cases hget
      · rename_i hkey
        exact hkey ((h.cached key row hget).key ▸ List.mem_map_of_mem hmem)
  | removing webhooks =>
    refine htake.remove fun key row hget => ?_
    exact (h.cached key row hget).notRemoving _ hcall
  | findingAllStatic =>
    exact htake.suspend (List.nil_subset _) (fun _ _ _ => List.not_mem_nil)
      fun _ _ _ _ heq => by cases heq
  | foundAllStatic staticWebhooks =>
    have hmay : ∀ row ∈ staticWebhooks, s.MayCache row.cacheKey row := hkeeps
    exact htake.set_many fun row hrow => (hmay row hrow).take _

theorem Live.step_some {e : WebhookEvent} (h : s.Live) (hkeeps : s.CachesLiveRows e)
    (hstep : step s e = some s') : s'.Live := by
  cases e with
  | findWebhook method path =>
    dsimp only [step] at hstep
    cases hget : s.cache.get? (WebhookEntity.keyOf method path) with
    | some row =>
      rw [hget] at hstep
      cases hstep
      exact h.answer (h.cached _ row hget).notDeleted
    | none =>
      rw [hget] at hstep
      cases hstep
      exact h.suspend (List.Subset.refl _) (fun _ _ _ => List.not_mem_nil)
        fun _ _ _ _ heq => by cases heq
  | storeWebhook webhook =>
    cases hstep
    refine Live.suspend (live_stored (fun key row hget => ?_) (fun key row hget => ?_) h.before
      h.found h.resurrected) (List.nil_subset _) (fun _ _ _ => List.not_mem_nil)
        fun _ _ _ _ heq => by cases heq
    · dsimp only at hget
      rw [InsertionMap.get_set] at hget
      split at hget
      · rename_i hkey
        cases hget
        exact ⟨hkey, hkeeps, .inl rfl⟩
      · obtain ⟨hkey, hdeleted, hnot⟩ := h.cached key row hget
        exact ⟨hkey, hnot, .inr hdeleted⟩
    · obtain ⟨hkey, hdeleted⟩ := h.rows key row hget
      exact ⟨hkey, .inr hdeleted⟩
  | deleteWorkflowWebhooks workflowId =>
    cases hstep
    exact h.suspend (List.nil_subset _) (fun _ _ _ => List.not_mem_nil)
      fun _ _ _ _ heq => by cases heq
  | populateCache =>
    cases hstep
    exact h.suspend (List.nil_subset _) (fun _ _ _ => List.not_mem_nil)
      fun _ _ _ _ heq => by cases heq
  | expire key =>
    cases hstep
    refine h.restrict_cache fun key' row hget => ?_
    rw [InsertionMap.get_delete] at hget
    split at hget
    · cases hget
    · exact hget
  | goOn call ok =>
    dsimp only [step] at hstep
    split at hstep
    · rename_i hcall
      cases hstep
      cases ok with
      | false => exact h.take call
      | true => exact h.go_on hcall (by cases call <;> exact hkeeps)
    · cases hstep

/-- In every run whose writes to the cache are of live rows, no look-up that starts after the
deletion of a webhook answers with it, unless it was stored again. -/
theorem never_resurrected (h : Reachable step CachesLiveRows initial s) : s.resurrected = [] := by
  refine (h.keeps Live ?_ fun s e s' hlive hkeeps hstep => hlive.step_some hkeeps hstep).resurrected
  exact ⟨fun _ _ hget => (by cases hget), fun _ _ hget => (by cases hget),
    fun _ hcall => (by cases hcall), fun _ _ _ _ hcall => (by cases hcall), rfl⟩

section Runs

/-- The webhook `GET hook` of a workflow. -/
def hookWebhook : WebhookEntity :=
  ⟨"workflow".toList, "hook".toList, .get, "Webhook".toList, none, none⟩

/-- The state after a webhook was stored, found through the database, deleted and looked up
again. -/
def afterDeletion : Option WebhookStore :=
  runAllowed step CachesLiveRows initial
    [.storeWebhook hookWebhook, .goOn (.upserting hookWebhook) true,
      .expire hookWebhook.cacheKey, .findWebhook .get "hook".toList,
      .goOn (.findingStatic .get "hook".toList []) true,
      .goOn (.foundStatic .get "hook".toList [] (some hookWebhook)) true,
      .deleteWorkflowWebhooks "workflow".toList,
      .goOn (.findingRows "workflow".toList) true, .goOn (.foundRows [hookWebhook]) true,
      .goOn (.removing [hookWebhook]) true, .findWebhook .get "hook".toList]

/-- A webhook that is deleted after a look-up wrote it to the cache stays deleted. -/
theorem never_resurrected_deleted :
    ∃ s, afterDeletion = some s ∧ s.deleted = [hookWebhook] ∧ s.resurrected = [] := by
  obtain ⟨s, hs, hdeleted⟩ : ∃ s, afterDeletion = some s ∧ s.deleted = [hookWebhook] := by
    refine Option.map_eq_some_iff.mp (?_ : afterDeletion.map deleted = some [hookWebhook])
    decide +kernel
  exact ⟨s, hs, hdeleted, never_resurrected (reachable_of_runAllowed .start hs)⟩

/-- The state after a look-up read a webhook from the database, wrote it to the cache after the
deletion had cleared it, and a second look-up started after the deletion. -/
def afterWriteBack : Option WebhookStore :=
  run step initial
    [.storeWebhook hookWebhook, .goOn (.upserting hookWebhook) true,
      .expire hookWebhook.cacheKey, .findWebhook .get "hook".toList,
      .goOn (.findingStatic .get "hook".toList []) true,
      .deleteWorkflowWebhooks "workflow".toList,
      .goOn (.findingRows "workflow".toList) true, .goOn (.foundRows [hookWebhook]) true,
      .goOn (.foundStatic .get "hook".toList [] (some hookWebhook)) true,
      .goOn (.removing [hookWebhook]) true, .findWebhook .get "hook".toList]

/-- The write-back of a look-up brings a deleted webhook back. -/
theorem resurrected_by_write_back :
    ¬ ∀ s, Reachable step (fun _ _ => True) initial s → s.resurrected = [] := by
  intro h
  obtain ⟨s, hs, hresurrected⟩ :
      ∃ s, afterWriteBack = some s ∧ s.resurrected = [hookWebhook] := by
    refine Option.map_eq_some_iff.mp (?_ : afterWriteBack.map resurrected = some [hookWebhook])
    decide +kernel
  rw [h s (reachable_of_run hs)] at hresurrected
  cases hresurrected

end Runs

end WebhookStore

end N8n.Webhooks
