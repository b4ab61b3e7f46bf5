import Mathlib.Data.List.Infix

/-!
# Webhook rows

The rows of the webhook table: `WebhookEntity` with its computed properties, and `toEntity`, the
row that activating a workflow stores for a webhook of one of its nodes. Texts are lists of
characters.
-/

namespace N8n.Webhooks

/-- Texts are compared by their characters. -/
scoped instance textLawfulBEq : LawfulBEq (List Char) := inferInstance

/-- The HTTP methods of a webhook. -/
inductive Method where
  | delete
  | get
  | head
  | patch
  | post
  | put
  deriving DecidableEq, Repr

/-- The method's name, as it stands in cache keys. -/
def Method.text : Method → List Char
  | .delete => "DELETE".toList
  | .get => "GET".toList
  | .head => "HEAD".toList
  | .patch => "PATCH".toList
  | .post => "POST".toList
  | .put => "PUT".toList

/-- A row of the webhook table. -/
structure WebhookEntity where
  workflowId : List Char
  webhookPath : List Char
  method : Method
  node : List Char
  webhookId : Option (List Char)
  pathLength : Option Nat
  deriving DecidableEq, Repr

/-- The segments of a path. -/
def segments (path : List Char) : List (List Char) := path.splitOn '/'

/-- Is the segment a parameter, such as `:id`? -/
def isParameter (segment : List Char) : Bool := segment.head? == some ':'

namespace WebhookEntity

/-- The segments that are not parameters. -/
def staticSegments (w : WebhookEntity) : List (List Char) :=
  (segments w.webhookPath).filter (!isParameter ·)

/-- The unique section of the webhook's path. -/
def uniquePath (w : WebhookEntity) : List Char :=
  if ':' ∈ w.webhookPath then (w.webhookId.getD []) ++ '/' :: w.webhookPath else w.webhookPath

/-- The key of a method and a path in the cache. -/
def keyOf (method : Method) (path : List Char) : List Char :=
  "webhook:".toList ++ method.text ++ '-' :: path

/-- The key under which the row is cached. -/
def cacheKey (w : WebhookEntity) : List Char := keyOf w.method w.uniquePath

end WebhookEntity

/-- A webhook of a node of a workflow that is being activated. -/
structure WebhookData where
  workflowId : List Char
  node : List Char
  httpMethod : Method
  path : List Char
  deriving DecidableEq, Repr

/-- The path without a slash at its start and at its end. -/
def trimSlashes (path : List Char) : List Char :=
  let path := if path.head? = some '/' then path.drop 1 else path
  if path.getLast? = some '/' then path.dropLast else path

/-- The row stored for a webhook whose node has the given webhook id: `addWebhooks`. -/
def WebhookData.toEntity (webhookData : WebhookData) (nodeWebhookId : Option (List Char)) :
    WebhookEntity :=
  let path := webhookData.path
  let webhook : WebhookEntity :=
    { workflowId := webhookData.workflowId
      webhookPath := trimSlashes path
      method := webhookData.httpMethod
      node := webhookData.node
      webhookId := none
      pathLength := none }
  -- An empty webhook id counts as none.
  match nodeWebhookId.filter (· ≠ []) with
  | some webhookId =>
    if path.head? = some ':' ∨ ['/', ':'] <:+: path then
      { webhook with
        webhookId := some webhookId
        pathLength := some (segments webhook.webhookPath).length }
    else webhook
  | none => webhook

/-- The rows that activating workflows stores. -/
def Registered (w : WebhookEntity) : Prop :=
  ∃ (webhookData : WebhookData) (nodeWebhookId : Option (List Char)),
    w = webhookData.toEntity nodeWebhookId

theorem Registered.path_length {w : WebhookEntity} (h : Registered w) :
    w.pathLength = w.webhookId.map fun _ => (segments w.webhookPath).length := by
  obtain ⟨webhookData, nodeWebhookId, rfl⟩ := h
  unfold WebhookData.toEntity
  cases nodeWebhookId.filter (· ≠ []) with
  | none => rfl
  | some webhookId =>
    dsimp only
    split <;> rfl

end N8n.Webhooks
