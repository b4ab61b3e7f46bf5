import N8n.Collections.InsertionMap
import N8n.Transition.Runs
import N8n.Webhooks.WebhookEntity

/-!
# Test webhooks

`TestWebhooks` listens for the webhooks of workflows that are run manually. The registrations are
shared by all main instances, and every instance keeps the timeout of each key. The calls of
`needsWebhook`, `cancelWebhook`, `executeWebhook` and `deactivateWebhooks` suspend at the
registrations and at third-party services: a `Task` is a suspended call, and `advance` goes on with
it up to its next suspension.
-/

namespace N8n.Webhooks

open Collections

abbrev Key := List Char

/-- A webhook that a manual run of a workflow can start with. -/
structure TestWebhook where
  node : List Char
  path : List Char
  httpMethod : Method
  webhookId : Option (List Char)
  restartWebhook : Bool
  deriving DecidableEq, Repr

/-- The key of a webhook in the registrations. -/
def toKey (webhookId : Option (List Char)) (httpMethod : Method) (webhookPath : List Char) : Key :=
  match webhookId.filter (· ≠ []) with
  | none => httpMethod.text ++ '|' :: webhookPath
  | some webhookId =>
    let path :=
      if webhookId <+: webhookPath then
        webhookPath.drop ((webhookPath.idxOf? '/').elim 0 (· + 1))
      else webhookPath
    httpMethod.text ++ '|' :: webhookId ++ '|' :: (Nat.repr (segments path).length).toList

def removeTrailingSlash (path : List Char) : List Char :=
  if path.getLast? = some '/' then path.dropLast else path

namespace TestWebhook

/-- The key of the webhook before its path is cleaned. -/
def key (w : TestWebhook) : Key := toKey w.webhookId w.httpMethod w.path

def cleaned (w : TestWebhook) : TestWebhook := { w with path := removeTrailingSlash w.path }

end TestWebhook

/-- A registration; the ids of its workflow entity and of its webhook's workflow are the same. -/
structure TestWebhookRegistration where
  pushRef : Option (List Char)
  workflowId : List Char
  destinationNode : Option (List Char)
  webhook : TestWebhook
  isTest : Bool
  userId : List Char
  deriving DecidableEq, Repr

/-- A timer of a main instance that cancels the test webhooks of a workflow. -/
structure TestTimer where
  id : Nat
  main : Nat
  workflowId : List Char
  deriving DecidableEq, Repr

/-- The arguments of `needsWebhook`, with the webhooks of the workflow. The trigger to start from
comes with whether it has data. -/
structure NeedsWebhook where
  main : Nat
  userId : List Char
  workflowId : List Char
  webhooks : List TestWebhook
  runData : List (List Char)
  pushRef : Option (List Char)
  destinationNode : Option (List Char)
  triggerToStartFrom : Option (List Char × Bool)
  deriving DecidableEq, Repr

/-- The webhooks to listen for: those of the preferred trigger, if there is one. -/
def NeedsWebhook.listened (call : NeedsWebhook) : List TestWebhook :=
  match call.triggerToStartFrom with
  | some (name, _) => call.webhooks.filter (·.node = name)
  | none => call.webhooks

/-- What `needsWebhook` registers for a webhook. -/
def NeedsWebhook.registration (call : NeedsWebhook) (webhook : TestWebhook) :
    TestWebhookRegistration :=
  { pushRef := call.pushRef
    workflowId := call.workflowId
    destinationNode := call.destinationNode
    webhook := webhook.cleaned
    isTest := true
    userId := call.userId }

/-- A suspended call. -/
inductive Task where
  /-- `executeWebhook` awaits the execution that the webhook starts. -/
  | executing (main : Nat) (key : Key) (registration : TestWebhookRegistration)
  /-- The command `clear-test-webhooks` is on its way to a main instance. -/
  | clearing (main : Nat) (key : Key) (registration : TestWebhookRegistration)
  /-- `deactivateWebhooks` awaits all registrations. Then the timeout of a key may be deleted. -/
  | deactivating (workflowId : List Char) (afterwards : Option (Nat × Key))
  /-- `deactivateWebhooks` deletes the webhooks of the workflow at third-party services. -/
  | deregistering (workflowId : List Char) (afterwards : Option (Nat × Key))
  /-- `cancelWebhook` goes through the keys. -/
  | cancelling (main : Nat) (workflowId : List Char) (keys : List Key) (foundWebhook : Bool)
  /-- `needsWebhook` awaits the registration at the key of the first webhook. -/
  | registering (call : NeedsWebhook) (timeout : TestTimer) (webhooks : List TestWebhook)
  /-- `needsWebhook` awaits the creation of a webhook that is registered. -/
  | creating (call : NeedsWebhook) (timeout : TestTimer) (webhook : TestWebhook)
      (rest : List TestWebhook)
  /-- `needsWebhook` registered a webhook a second time and is about to store its timeout. -/
  | arming (call : NeedsWebhook) (timeout : TestTimer) (webhook : TestWebhook)
      (rest : List TestWebhook)
  deriving DecidableEq, Repr

/-- The workflow for which a call was made. -/
def Task.workflowId : Task → List Char
  | .executing _ _ registration => registration.workflowId
  | .clearing _ _ registration => registration.workflowId
  | .deactivating workflowId _ => workflowId
  | .deregistering workflowId _ => workflowId
  | .cancelling _ workflowId _ _ => workflowId
  | .registering call _ _ => call.workflowId
  | .creating call _ _ _ => call.workflowId
  | .arming call _ _ _ => call.workflowId

/-- The shared registrations, the timeouts of the main instances, the timers that have neither
fired nor been cleared, and the suspended calls. -/
structure TestWebhooks where
  registrations : InsertionMap Key TestWebhookRegistration
  timeouts : InsertionMap (Nat × Key) TestTimer
  running : List TestTimer
  nextTimer : Nat
  tasks : List Task
  deriving DecidableEq, Repr

namespace TestWebhooks

def spawn (s : TestWebhooks) (tasks : List Task) : TestWebhooks :=
  { s with tasks := s.tasks ++ tasks }

def clearTimeout (s : TestWebhooks) (main : Nat) (key : Key) : TestWebhooks :=
  match s.timeouts.get? (main, key) with
  | some timeout => { s with running := s.running.filter (· ≠ timeout) }
  | none => s

def register (s : TestWebhooks) (registration : TestWebhookRegistration) : TestWebhooks :=
  { s with
    registrations := s.registrations.set registration.webhook.key registration }

/-- The test webhook at the key of a request, when its static segments occur in the path. -/
def getActiveWebhook (s : TestWebhooks) (httpMethod : Method) (path : List Char)
    (webhookId : Option (List Char)) : Option TestWebhook :=
  match s.registrations.get? (toKey webhookId httpMethod path) with
  | none => none
  | some registration =>
    let staticElements := (segments registration.webhook.path).filter (!isParameter ·)
    let allStaticExist := staticElements.all fun e => decide (e ∈ segments path)
    if allStaticExist ∧ staticElements.length > 0 then some registration.webhook
    else if staticElements.length = 0 then some registration.webhook
    else none

/-- The registration for a request: that of a static webhook, or that of a dynamic one. -/
def findRegistration (s : TestWebhooks) (httpMethod : Method) (requestPath : List Char) :
    Option (Key × TestWebhookRegistration) :=
  let path := removeTrailingSlash requestPath
  let webhook :=
    match s.getActiveWebhook httpMethod path none with
    | some webhook => some webhook
    | none =>
      s.getActiveWebhook httpMethod (['/'].intercalate (segments path).tail)
        (some ((segments path).headD []))
  match webhook with
  | none => none
  | some webhook => (s.registrations.get? webhook.key).map fun r => (webhook.key, r)

/-- `needsWebhook` up to its first suspension. -/
def needsWebhook (s : TestWebhooks) (call : NeedsWebhook) : TestWebhooks :=
  if call.workflowId = [] then s
  else if call.triggerToStartFrom.any (·.2) then s
  else if call.listened.all (·.restartWebhook) then s
  else
    let timeout : TestTimer := ⟨s.nextTimer, call.main, call.workflowId⟩
    { s with
      running := s.running ++ [timeout]
      nextTimer := s.nextTimer + 1
      tasks := s.tasks ++ [.registering call timeout call.listened] }

/-- Is the key taken by a webhook that is no test webhook of this user and workflow? -/
def pathTaken (call : NeedsWebhook) (webhook : TestWebhook)
    (registrationByKey : Option TestWebhookRegistration) : Bool :=
  match registrationByKey with
  | none => false
  | some registration =>
    (webhook.webhookId.filter (· ≠ [])).isNone && !registration.isTest &&
      registration.userId ≠ call.userId && registration.workflowId ≠ call.workflowId

/-- What follows the deactivation: deleting the timeout of a key, where that was asked for. -/
def after (s : TestWebhooks) : Option (Nat × Key) → TestWebhooks
  | some place => { s with timeouts := s.timeouts.delete place }
  | none => s

variable (mains : List Nat)

/-- Go on with a call that was suspended. `ok` tells whether what it awaits succeeds, or whether
the request of `executeWebhook` started an execution or failed to; `hasPushRef` whether the main
instance holds the connection of the registration's editor. -/
def advance (s : TestWebhooks) (ok hasPushRef : Bool) : Task → TestWebhooks
  | .executing main key registration =>
    if ok = false then s
    else if 1 < mains.length ∧ registration.pushRef.any (· ≠ []) ∧ hasPushRef = false then
      -- Another main instance created the webhook and is told to clear it.
      s.spawn ((mains.filter (· ≠ main)).map fun other => .clearing other key registration)
    else (s.clearTimeout main key).spawn [.deactivating registration.workflowId none]
  | .clearing main key registration =>
    if hasPushRef then
      (s.clearTimeout main key).spawn [.deactivating registration.workflowId none]
    else s
  | .deactivating workflowId afterwards =>
    if ok = false then s
    else if s.registrations.values.any (·.workflowId = workflowId) then
      s.spawn [.deregistering workflowId afterwards]
    else s.after afterwards
  | .deregistering _ afterwards =>
    if ok then
      -- `deregisterAll` deletes the registrations of all workflows.
      { s with registrations := .empty }.after afterwards
    else s
  | .cancelling _ _ [] _ => s
  | .cancelling main workflowId (key :: rest) foundWebhook =>
    match s.registrations.get? key with
    | none => s.spawn [.cancelling main workflowId rest foundWebhook]
    | some registration =>
      if registration.workflowId ≠ workflowId then
        s.spawn [.cancelling main workflowId rest foundWebhook]
      else
        (s.clearTimeout main key).spawn
          ((if foundWebhook then [] else [.deactivating workflowId none]) ++
            [.cancelling main workflowId rest true])
  | .registering _ _ [] => s
  | .registering call timeout (webhook :: rest) =>
    if call.runData.contains webhook.node then s
    else if pathTaken call webhook (s.registrations.get? webhook.key) then s
    else if ok then
      (s.register (call.registration webhook)).spawn [.creating call timeout webhook rest]
    else s.spawn [.deactivating call.workflowId (some (call.main, webhook.key))]
  | .creating call timeout webhook rest =>
    if ok then
      (s.register (call.registration webhook)).spawn [.arming call timeout webhook rest]
    else s.spawn [.deactivating call.workflowId (some (call.main, webhook.key))]
  | .arming call timeout webhook rest =>
    { s with timeouts := s.timeouts.set (call.main, webhook.key) timeout }.spawn
      [.registering call timeout rest]

end TestWebhooks

/-- What happens at the main instances. -/
inductive TestWebhookEvent where
  /-- A request arrives; `nodeFound` tells whether the webhook's node is still in the workflow. -/
  | execute (main : Nat) (httpMethod : Method) (path : List Char) (nodeFound : Bool)
  | needs (call : NeedsWebhook)
  | cancel (main : Nat) (workflowId : List Char)
  | fire (timeout : TestTimer)
  | advance (task : Task) (ok hasPushRef : Bool)
  deriving DecidableEq, Repr

/-- The workflow for which something happens. -/
def TestWebhookEvent.workflowId : TestWebhookEvent → Option (List Char)
  | .execute _ _ _ _ => none
  | .needs call => some call.workflowId
  | .cancel _ workflowId => some workflowId
  | .fire timeout => some timeout.workflowId
  | .advance task _ _ => some task.workflowId

namespace TestWebhooks

variable (mains : List Nat)

/-- The state after an event. -/
def step (s : TestWebhooks) : TestWebhookEvent → Option TestWebhooks
  | .execute main httpMethod path nodeFound =>
    match s.findRegistration httpMethod path with
    | some (key, registration) =>
      if nodeFound then some (s.spawn [.executing main key registration]) else some s
    | none => some s
  | .needs call => some (s.needsWebhook call)
  | .cancel main workflowId =>
    some (s.spawn [.cancelling main workflowId s.registrations.keys false])
  | .fire timeout =>
    if timeout ∈ s.running then
      some ({ s with running := s.running.filter (· ≠ timeout) }.spawn
        [.cancelling timeout.main timeout.workflowId s.registrations.keys false])
    else none
  | .advance task ok hasPushRef =>
    if task ∈ s.tasks then
      some ({ s with tasks := s.tasks.erase task }.advance mains ok hasPushRef task)
    else none

def initial : TestWebhooks := ⟨.empty, .empty, [], 0, []⟩

end TestWebhooks

end N8n.Webhooks
