import Mathlib.Data.List.Induction
import N8n.Webhooks.TestWebhooks

/-!
# Calls that listen for test webhooks

One call of `TestWebhooks.needsWebhook` from its start to its end
(`packages/cli/src/webhooks/test-webhooks.ts`), with the registrations that it finds and leaves and
those that it replaces on its way. Which of the calls to the cache and to third-party services fail
is given with the webhooks.
-/

namespace N8n.Webhooks

open Collections

/-- What happens when a test webhook is set up. -/
inductive SetupOutcome where
  /-- The registration at its key cannot be read. -/
  | lookupFails
  /-- The webhook cannot be registered, though it may have been stored. -/
  | registerFails (stored : Bool)
  /-- The webhook cannot be created at the third-party service, or registered a second time. -/
  | createFails
  | succeeds
  deriving DecidableEq

/-- A webhook to listen for, with what happens when it is set up. -/
structure TestWebhookSetup where
  webhook : TestWebhook
  outcome : SetupOutcome
  deriving DecidableEq

/-- The errors of `needsWebhook`. -/
inductive NeedsWebhookError where
  | workflowMissingId
  | webhookPathTaken (node : List Char)
  /-- An error of the cache or of a third-party service. -/
  | service
  deriving DecidableEq

/-- The registrations during a call, with those that were replaced. -/
structure Listening where
  registrations : InsertionMap Key TestWebhookRegistration
  replaced : List TestWebhookRegistration

namespace Listening

variable (call : NeedsWebhook)

/-- `registrations.register(registration)`. -/
def register (s : Listening) (webhook : TestWebhook) : Listening where
  registrations := s.registrations.set webhook.cleaned.key (call.registration webhook)
  replaced := s.replaced ++ (s.registrations.get? webhook.cleaned.key).toList

/-- `deactivateWebhooks(workflow)`, where the webhooks can be deleted at third-party services if
`deletes`. -/
def deactivateWebhooks (deletes : Bool) (s : Listening) : Listening :=
  if s.registrations.values.any (·.workflowId = call.workflowId) && deletes then
    { s with registrations := .empty }
  else s

/-- The loop over the webhooks. -/
def listen (deletes : Bool) :
    List TestWebhookSetup → Listening → Except NeedsWebhookError Bool × Listening
  | [], s => (.ok true, s)
  | setup :: rest, s =>
    let webhook := setup.webhook
    if setup.outcome = .lookupFails then (.error .service, s)
    else if call.runData.contains webhook.node then (.ok false, s)
    else if TestWebhooks.pathTaken call webhook (s.registrations.get? webhook.key) then
      (.error (.webhookPathTaken webhook.node), s)
    else match setup.outcome with
      | .registerFails stored =>
        let s := if stored then s.register call webhook else s
        (.error .service, s.deactivateWebhooks call deletes)
      | .createFails =>
        (.error .service, (s.register call webhook).deactivateWebhooks call deletes)
      | _ => listen deletes rest ((s.register call webhook).register call webhook)

/-- The webhooks to listen for, with the outcomes of their setups in their order. -/
def setups (outcome : Nat → SetupOutcome) : List TestWebhookSetup :=
  call.listened.zipIdx.map fun (webhook, index) => ⟨webhook, outcome index⟩

/-- `needsWebhook(options)`, for the outcomes of the setups. -/
def needsWebhook (outcome : Nat → SetupOutcome) (deletes : Bool) (s : Listening) :
    Except NeedsWebhookError Bool × Listening :=
  if call.workflowId = [] then (.error .workflowMissingId, s)
  else if call.triggerToStartFrom.any (·.2) then (.ok false, s)
  else if call.listened.all (·.restartWebhook) then (.ok false, s)
  else listen call deletes (setups call outcome) s

/-- The call gets to the loop over the webhooks. -/
def Listens : Prop :=
  call.workflowId ≠ [] ∧ call.triggerToStartFrom.any (·.2) = false ∧
    call.listened.all (·.restartWebhook) = false

/-- How the loop over the webhooks ends. -/
inductive Ending where
  | completes
  /-- It is left at a webhook that is not set up. -/
  | stops
  /-- The setup of a webhook fails, and the webhooks are deactivated. -/
  | fails
  deriving DecidableEq

/-- The webhooks that the loop registers, and how it ends. -/
def course (registrations : InsertionMap Key TestWebhookRegistration) :
    List TestWebhookSetup → List TestWebhook × Ending
  | [] => ([], .completes)
  | setup :: rest =>
    let webhook := setup.webhook
    if setup.outcome = .lookupFails ∨ call.runData.contains webhook.node ∨
        TestWebhooks.pathTaken call webhook (registrations.get? webhook.key) then
      ([], .stops)
    else match setup.outcome with
      | .registerFails stored => (if stored then [webhook] else [], .fails)
      | .createFails => ([webhook], .fails)
      | _ =>
        let (registered, ending) := course
          (registrations.set webhook.cleaned.key (call.registration webhook)) rest
        (webhook :: registered, ending)

/-- The registration was made for the workflow and the user of the call. -/
def IsOwn (r : TestWebhookRegistration) : Prop :=
  r.workflowId = call.workflowId ∧ r.userId = call.userId

/-- A call that throws or returns `false` leaves the registrations as they were, and it replaces
none of another workflow or another user. -/
structure AllOrNothing (outcome : Nat → SetupOutcome) (deletes : Bool)
    (registrations : InsertionMap Key TestWebhookRegistration) : Prop where
  unchanged : (needsWebhook call outcome deletes ⟨registrations, []⟩).1 ≠ .ok true → ∀ key,
    (needsWebhook call outcome deletes ⟨registrations, []⟩).2.registrations.get? key =
      registrations.get? key
  keepsOthers : ∀ r ∈ (needsWebhook call outcome deletes ⟨registrations, []⟩).2.replaced,
    IsOwn call r

/-- Each webhook is registered already as the call registers it: the last one of each key. -/
def Kept (registrations : InsertionMap Key TestWebhookRegistration)
    (registered : List TestWebhook) : Prop :=
  ∀ key webhook, registered.reverse.find? (·.cleaned.key = key) = some webhook →
    registrations.get? key = some (call.registration webhook)

/-- The registrations are left as they were: each webhook that the loop registers was registered
already, or the webhooks are deactivated and there was no registration. -/
def LeavesRegistrations (deletes : Bool)
    (registrations : InsertionMap Key TestWebhookRegistration) (registered : List TestWebhook) :
    Ending → Prop
  | .completes => True
  | .stops => Kept call registrations registered
  | .fails =>
    if deletes = true ∧
        (registered ≠ [] ∨ ∃ r ∈ registrations.values, r.workflowId = call.workflowId) then
      registrations.entries = []
    else Kept call registrations registered

/-- The webhooks are registered at keys at which no other workflow and no other user has a
registration. -/
def OwnKeys (registrations : InsertionMap Key TestWebhookRegistration)
    (registered : List TestWebhook) : Prop :=
  ∀ webhook ∈ registered, ∀ r ∈ registrations.get? webhook.cleaned.key, IsOwn call r

/-- The registrations after webhooks were registered. -/
def registerAll (registrations : InsertionMap Key TestWebhookRegistration)
    (registered : List TestWebhook) : InsertionMap Key TestWebhookRegistration :=
  registered.foldl (fun registrations webhook =>
    registrations.set webhook.cleaned.key (call.registration webhook)) registrations

variable {call} {registrations : InsertionMap Key TestWebhookRegistration}
  {registered : List TestWebhook} {deletes : Bool}

theorem get_registerAll (key : Key) : (registerAll call registrations registered).get? key =
    ((registered.reverse.find? (·.cleaned.key = key)).map call.registration).or
      (registrations.get? key) := by
  induction registered using List.reverseRecOn with
  | nil => rfl
  | append_singleton pre webhook ih =>
    rw [registerAll, List.foldl_append, List.foldl_cons, List.foldl_nil, InsertionMap.get_set,
      List.reverse_append, List.reverse_singleton, List.singleton_append]
    by_cases hkey : key = webhook.cleaned.key
    · simp [hkey]
    · rw [if_neg hkey, List.find?_cons_of_neg (by simpa using Ne.symm hkey)]
      exact ih

theorem registerAll_unchanged_iff : (∀ key,
    (registerAll call registrations registered).get? key = registrations.get? key) ↔
      Kept call registrations registered := by
  refine forall_congr' fun key => ?_
  rw [get_registerAll]
  cases registered.reverse.find? (·.cleaned.key = key) with
  | none => simp
  | some webhook => simp [eq_comm]

/-- After registering webhooks the workflow has a registration exactly when there are some, or it
had one. -/
theorem registerAll_any_iff :
    (registerAll call registrations registered).values.any (·.workflowId = call.workflowId) ↔
      registered ≠ [] ∨ ∃ r ∈ registrations.values, r.workflowId = call.workflowId := by
  cases hlast : registered.reverse with
  | nil =>
    obtain rfl := List.reverse_eq_nil_iff.mp hlast
    simp [registerAll]
  | cons webhook rest =>
    have hne : registered ≠ [] := by
      rintro rfl
      cases hlast
    refine iff_of_true ?_ (.inl hne)
    have hget : (registerAll call registrations registered).get? webhook.cleaned.key =
        some (call.registration webhook) := by
      rw [get_registerAll, hlast, List.find?_cons_of_pos (by simp)]
      rfl
    exact List.any_eq_true.mpr
      ⟨_, InsertionMap.mem_values_iff.mpr ⟨_, hget⟩, decide_eq_true rfl⟩

theorem ownKeys_cons {webhook : TestWebhook} :
    OwnKeys call registrations (webhook :: registered) ↔
      (∀ r ∈ registrations.get? webhook.cleaned.key, IsOwn call r) ∧
        OwnKeys call registrations registered :=
  List.forall_mem_cons

theorem ownKeys_set {webhook : TestWebhook}
    (hown : ∀ r ∈ registrations.get? webhook.cleaned.key, IsOwn call r) :
    OwnKeys call (registrations.set webhook.cleaned.key (call.registration webhook)) registered ↔
      OwnKeys call registrations registered := by
  refine forall₂_congr fun other _ => ?_
  rw [InsertionMap.get_set]
  split
  · rename_i hkey
    rw [hkey]
    refine iff_of_true (fun r hr => ?_) hown
    cases hr
    exact ⟨rfl, rfl⟩
  · rfl

theorem replaced_register (s : Listening) (webhook : TestWebhook) :
    (∀ r ∈ (s.register call webhook).replaced, IsOwn call r) ↔
      (∀ r ∈ s.replaced, IsOwn call r) ∧
        ∀ r ∈ s.registrations.get? webhook.cleaned.key, IsOwn call r := by
  simp [register, or_imp, forall_and]

theorem replaced_register_twice (s : Listening) (webhook : TestWebhook) :
    (∀ r ∈ ((s.register call webhook).register call webhook).replaced, IsOwn call r) ↔
      (∀ r ∈ s.replaced, IsOwn call r) ∧
        ∀ r ∈ s.registrations.get? webhook.cleaned.key, IsOwn call r := by
  rw [replaced_register, replaced_register]
  refine and_iff_left_of_imp fun _ r hr => ?_
  rw [register, InsertionMap.get_set_same] at hr
  cases hr
  exact ⟨rfl, rfl⟩

theorem deactivateWebhooks_eq (s : Listening) : s.deactivateWebhooks call deletes =
    ⟨(deactivateWebhooks call deletes ⟨s.registrations, []⟩).registrations, s.replaced⟩ := by
  unfold deactivateWebhooks
  split <;> rfl

variable (deletes) in
theorem listen_course {setups : List TestWebhookSetup} {s : Listening} {ending : Ending}
    (hcourse : course call s.registrations setups = (registered, ending)) :
    ((listen call deletes setups s).1 = .ok true ↔ ending = .completes) ∧
    (listen call deletes setups s).2.registrations =
      (if ending = .fails then
        (deactivateWebhooks call deletes
          ⟨registerAll call s.registrations registered, []⟩).registrations
      else registerAll call s.registrations registered) ∧
    ((∀ r ∈ (listen call deletes setups s).2.replaced, IsOwn call r) ↔
      (∀ r ∈ s.replaced, IsOwn call r) ∧ OwnKeys call s.registrations registered) := by
  induction setups generalizing s registered ending with
  | nil =>
    cases hcourse
    simp [listen, registerAll, OwnKeys]
  | cons setup rest ih =>
    obtain ⟨webhook, outcome⟩ := setup
    simp only [course] at hcourse
    split_ifs at hcourse with hstop
    · cases hcourse
      have hstopped : ∃ result : Except NeedsWebhookError Bool, result ≠ .ok true ∧
          listen call deletes (⟨webhook, outcome⟩ :: rest) s = (result, s) := by
        simp only [listen]
        split_ifs with hlookup hrun htaken
        · exact ⟨_, by simp, rfl⟩
        · exact ⟨_, by simp, rfl⟩
        · exact ⟨_, by simp, rfl⟩
        · exact absurd hstop (not_or.mpr ⟨hlookup, not_or.mpr ⟨hrun, htaken⟩⟩)
      obtain ⟨result, hresult, hlisten⟩ := hstopped
      rw [hlisten]
      simp [hresult, registerAll, OwnKeys]
    · obtain ⟨hlookup, hrun, htaken⟩ : outcome ≠ .lookupFails ∧
          call.runData.contains webhook.node = false ∧
          TestWebhooks.pathTaken call webhook (s.registrations.get? webhook.key) = false := by
        simpa using hstop
      have hregistered :
          (deactivateWebhooks call deletes (s.register call webhook)).registrations =
          (deactivateWebhooks call deletes
            ⟨registerAll call s.registrations [webhook], []⟩).registrations := by
        rw [deactivateWebhooks_eq]
        rfl
      have hreplaced : (∀ r ∈ (deactivateWebhooks call deletes
          (s.register call webhook)).replaced, IsOwn call r) ↔
          (∀ r ∈ s.replaced, IsOwn call r) ∧ OwnKeys call s.registrations [webhook] := by
        rw [deactivateWebhooks_eq, replaced_register]
        simp [OwnKeys]
      simp only [listen, hlookup, hrun, htaken, Bool.false_eq_true, if_false]
      cases outcome with
      | lookupFails => exact absurd rfl hlookup
      | registerFails stored =>
        cases hcourse
        cases stored with
        | true => exact ⟨by simp, hregistered, hreplaced⟩
        | false =>
          refine ⟨by simp, ?_, ?_⟩
          · exact (congrArg Listening.registrations (deactivateWebhooks_eq s)).trans rfl
          · simp [deactivateWebhooks_eq s, OwnKeys]
      | createFails =>
        cases hcourse
        exact ⟨by simp, hregistered, hreplaced⟩
      | succeeds =>
        cases hcourse
        have htwice : ((s.register call webhook).register call webhook).registrations =
            s.registrations.set webhook.cleaned.key (call.registration webhook) := by
          simp only [register]
          exact InsertionMap.set_of_get (InsertionMap.get_set_same _ _ _)
        have hrest := ih (congrArg (course call · rest) htwice)
        rw [htwice, replaced_register_twice] at hrest
        obtain ⟨hresult, hregistrations, hothers⟩ := hrest
        refine ⟨hresult, hregistrations, hothers.trans ?_⟩
        rw [and_assoc]
        exact and_congr_right fun _ =>
          (and_congr_right ownKeys_set).trans ownKeys_cons.symm

theorem unregistered_iff : (∀ key, InsertionMap.empty.get? key = registrations.get? key) ↔
    registrations.entries = [] := by
  constructor
  · intro hnone
    refine List.eq_nil_iff_forall_not_mem.mpr fun ⟨key, r⟩ hmem => ?_
    exact InsertionMap.get_eq_none_iff.mp (hnone key).symm r hmem
  · intro hnil key
    refine (InsertionMap.get_eq_none_iff.mpr fun r hmem => ?_).symm
    rw [hnil] at hmem
    exact List.not_mem_nil hmem

theorem leaves_iff {ending : Ending} (hending : ending ≠ .completes) :
    (∀ key, (if ending = .fails then
        (deactivateWebhooks call deletes
          ⟨registerAll call registrations registered, []⟩).registrations
      else registerAll call registrations registered).get? key = registrations.get? key) ↔
      LeavesRegistrations call deletes registrations registered ending := by
  cases ending with
  | completes => exact absurd rfl hending
  | stops => exact registerAll_unchanged_iff
  | fails =>
    simp only [LeavesRegistrations, if_true, deactivateWebhooks, Bool.and_eq_true,
      registerAll_any_iff, and_comm (b := deletes = true)]
    split
    · exact unregistered_iff
    · exact registerAll_unchanged_iff

/-- A call leaves the registrations as they were when it throws or returns `false`, and replaces
none of another workflow or another user, exactly when the webhooks that it registers have keys of
their own and, unless it completes, leave the registrations as they were. -/
theorem listening_all_or_nothing_iff (call : NeedsWebhook) (outcome : Nat → SetupOutcome)
    (deletes : Bool) (registrations : InsertionMap Key TestWebhookRegistration) :
    AllOrNothing call outcome deletes registrations ↔
      (Listens call →
        LeavesRegistrations call deletes registrations
            (course call registrations (setups call outcome)).1
            (course call registrations (setups call outcome)).2 ∧
          OwnKeys call registrations (course call registrations (setups call outcome)).1) := by
  by_cases hlistens : Listens call
  · obtain ⟨hid, htrigger, hrestart⟩ := hlistens
    have hlisten : needsWebhook call outcome deletes ⟨registrations, []⟩ =
        listen call deletes (setups call outcome) ⟨registrations, []⟩ := by
      simp [needsWebhook, hid, htrigger, hrestart]
    obtain ⟨hresult, hregistrations, hothers⟩ :=
      listen_course deletes (s := ⟨registrations, []⟩)
        (rfl : course call registrations (setups call outcome) = _)
    constructor
    · rintro ⟨hunchanged, hkeeps⟩ -
      rw [hlisten] at hunchanged hkeeps
      refine ⟨?_, (hothers.mp hkeeps).2⟩
      by_cases hending : (course call registrations (setups call outcome)).2 = .completes
      · rw [hending]
        trivial
      · rw [← leaves_iff hending, ← hregistrations]
        exact hunchanged (mt hresult.mp hending)
    · intro hcondition
      obtain ⟨hleaves, hown⟩ := hcondition ⟨hid, htrigger, hrestart⟩
      refine ⟨fun hne => ?_, ?_⟩
      · rw [hlisten] at hne ⊢
        rw [hregistrations]
        exact (leaves_iff (mt hresult.mpr hne)).mpr hleaves
      · rw [hlisten]
        exact hothers.mpr ⟨by simp, hown⟩
  · have hearly : ∃ result, needsWebhook call outcome deletes ⟨registrations, []⟩ =
        (result, ⟨registrations, []⟩) := by
      simp only [needsWebhook]
      split_ifs with hid htrigger hrestart
      · exact ⟨_, rfl⟩
      · exact ⟨_, rfl⟩
      · exact ⟨_, rfl⟩
      · exact absurd ⟨hid, by simpa using htrigger, by simpa using hrestart⟩ hlistens
    obtain ⟨result, hearly⟩ := hearly
    refine iff_of_true ⟨fun _ key => ?_, fun r hr => ?_⟩ fun h => absurd h hlistens
    · rw [hearly]
    · rw [hearly] at hr
      cases hr

section Example

/-- A webhook of a manual run. -/
def listenedWebhook (path : String) : TestWebhook :=
  ⟨"Webhook".toList, path.toList, .get, none, false⟩

/-- A call for a workflow with a webhook at the path `a`. -/
def firstCall : NeedsWebhook :=
  ⟨0, "user".toList, "first".toList, [listenedWebhook "a"], [], none, none, none⟩

/-- Another user listens for the webhook of another workflow, at the path `b`. -/
def othersWebhook : InsertionMap Key TestWebhookRegistration :=
  .set .empty "GET|b".toList
    ⟨none, "second".toList, none, listenedWebhook "b", true, "other".toList⟩

/-- When the webhook cannot be created, the registration of the other workflow is gone. -/
theorem failed_setup_unregisters_others :
    (needsWebhook firstCall (fun _ => .createFails) true ⟨othersWebhook, []⟩).1 =
      .error .service ∧
    (othersWebhook.get? "GET|b".toList).isSome = true ∧
    (needsWebhook firstCall (fun _ => .createFails) true
      ⟨othersWebhook, []⟩).2.registrations.get? "GET|b".toList = none ∧
    ¬ AllOrNothing firstCall (fun _ => .createFails) true othersWebhook := by
  have hthrows : (needsWebhook firstCall (fun _ => .createFails) true ⟨othersWebhook, []⟩).1 =
      .error .service := rfl
  have hlost : (needsWebhook firstCall (fun _ => .createFails) true
      ⟨othersWebhook, []⟩).2.registrations.get? "GET|b".toList = none := by decide +kernel
  refine ⟨hthrows, by decide +kernel, hlost, fun h => ?_⟩
  have hunchanged := h.unchanged (by rw [hthrows]; simp) "GET|b".toList
  rw [hlost] at hunchanged
  revert hunchanged
  decide +kernel

end Example

end Listening

end N8n.Webhooks
