import N8n.Collections.KeyedList
import N8n.Execution.Status
import N8n.Transition.Runs
import N8n.Webhooks.WebhookEntity

/-!
# Executions resumed by one request

A request checks the status of the execution when it has read it, and hands its run data over much
later; the status changes only after that. While no request reads the execution as waiting when
another one is on its way to resume it, the run data is handed over once.
-/

namespace N8n.Webhooks

open Collections Transition

/-! ## Webhooks of waiting executions

`WaitingWebhooks.executeWebhook` for one stored execution, from the request to the moment at which
the resumed run is registered in `ActiveExecutions`. A request suspends at the database, while the
node's webhook is prepared and run, and in `ActiveExecutions.add`. The requests are numbered in the
order in which they arrive.
-/

/-- A webhook of the node that the execution waits at. -/
structure NodeWebhook where
  httpMethod : Method
  path : List Char
  restartWebhook : Bool
  isForm : Bool
  deriving DecidableEq, Repr

/-- What the stored execution tells a request. -/
structure WaitingRow where
  status : ExecutionStatus
  /-- `resultData.error` is set. -/
  hasError : Bool
  finished : Bool
  /-- The ids of the nodes whose operation is to send and wait. -/
  sendAndWaitNodes : List (List Char)
  /-- The webhooks of the last executed node, unless it is not in the workflow. -/
  nodeWebhooks : Option (List NodeWebhook)
  /-- The last executed node has a form or a Wait node among its children. -/
  hasChildForms : Bool
  deriving DecidableEq, Repr

/-- What the webhook function of the node returns for a request. -/
inductive WebhookResult where
  | workflowData
  /-- The workflow should not run. -/
  | noWorkflowData
  /-- It throws; the workflow is run to throw the error. -/
  | threw
  deriving DecidableEq, Repr

/-- A request, with what the webhook function makes of it. -/
structure WaitingRequest where
  method : Method
  suffix : Option (List Char)
  webhookResult : WebhookResult
  deriving DecidableEq, Repr

/-- What a request awaits. -/
inductive RequestPoint where
  | gettingExecution
  /-- The database has answered. -/
  | gotExecution (execution : Option WaitingRow)
  /-- `getBase`, in `getWebhookExecutionData`. -/
  | gettingBase (execution : WaitingRow)
  | gettingProject
  | gettingAdditionalData
  | parsingBody
  | runningWebhook
  /-- `throttle`, in `ActiveExecutions.add`. -/
  | throttling
  | updatingExecution
  /-- The database has set the execution to running. -/
  | updatedExecution
  deriving DecidableEq, Repr

/-- How a request ends. -/
inductive RequestAnswer where
  | conflict
  | notFound
  /-- The page that says that no action is required. -/
  | noActionRequired
  | noWebhookResponse
  /-- The response of the node's webhook, which does not resume the execution. -/
  | webhookResponse
  /-- Something that is awaited rejects. -/
  | error
  /-- The run is registered; what is sent depends on the response mode. -/
  | resumed
  deriving DecidableEq, Repr

/-- A request in progress. -/
structure RequestCall where
  number : Nat
  request : WaitingRequest
  point : RequestPoint
  deriving DecidableEq, Repr

/-- The stored execution, the requests in progress, the number of requests, those that handed their
run data to `WorkflowRunner.run`, the run in `ActiveExecutions`, and the answers. -/
structure WaitingWebhooks where
  row : Option WaitingRow
  calls : List RequestCall
  received : Nat
  handed : List Nat
  activeExecution : Option Nat
  answers : List (Nat × WaitingRequest × RequestAnswer)
  deriving DecidableEq, Repr

inductive RequestEvent where
  | executeWebhook (request : WaitingRequest)
  /-- The database executes a command of a request. -/
  | query (number : Nat)
  /-- What a request awaits resolves, or rejects. -/
  | resume (number : Nat) (resolved : Bool)
  deriving DecidableEq, Repr

/-- Is the suffix the id of a node that sends and waits? -/
def isSendAndWaitRequest (execution : WaitingRow) (suffix : Option (List Char)) : Bool :=
  suffix.any fun suffix => suffix ≠ [] && execution.sendAndWaitNodes.contains suffix

/-- Is it a webhook that the request restarts the execution with? -/
def restarts (request : WaitingRequest) (webhook : NodeWebhook) : Bool :=
  webhook.httpMethod = request.method && webhook.path = request.suffix.getD [] &&
    webhook.restartWebhook && !webhook.isForm

namespace WaitingWebhooks

/-- A request awaits something else. -/
def moveTo (s : WaitingWebhooks) (call : RequestCall) (point : RequestPoint) : WaitingWebhooks :=
  { s with calls := s.calls.map fun c => if c.number = call.number then { c with point } else c }

/-- A request ends. -/
def finish (s : WaitingWebhooks) (call : RequestCall) (answer : RequestAnswer) : WaitingWebhooks :=
  { s with
    calls := s.calls.filter (·.number ≠ call.number)
    answers := s.answers ++ [(call.number, call.request, answer)] }

/-- The checks of `executeWebhook`, and of `getWebhookExecutionData` up to its first `await`. -/
def check (s : WaitingWebhooks) (call : RequestCall) : Option WaitingRow → WaitingWebhooks
  | none => s.finish call .notFound
  | some execution =>
    if execution.status = .running then s.finish call .conflict
    else if execution.hasError then s.finish call .conflict
    else if execution.finished then
      if isSendAndWaitRequest execution call.request.suffix then s.finish call .noActionRequired
      else s.finish call .conflict
    else match execution.nodeWebhooks with
      | none => s.finish call .notFound
      | some _ => s.moveTo call (.gettingBase execution)

/-- `getWebhookExecutionData` looks for the webhook of the request. -/
def findWebhook (s : WaitingWebhooks) (call : RequestCall) (execution : WaitingRow) :
    WaitingWebhooks :=
  if (execution.nodeWebhooks.getD []).any (restarts call.request) then s.moveTo call .gettingProject
  else if isSendAndWaitRequest execution call.request.suffix then s.finish call .noActionRequired
  else if !execution.hasError && execution.status = .waiting && execution.hasChildForms then
    s.finish call .noWebhookResponse
  else s.finish call .notFound

/-- The webhook function has returned: the run data is handed to `WorkflowRunner.run`, unless the
workflow should not run. -/
def handOver (s : WaitingWebhooks) (call : RequestCall) : WaitingWebhooks :=
  if call.request.webhookResult = .noWorkflowData then s.finish call .webhookResponse
  else ({ s with handed := s.handed ++ [call.number] } : WaitingWebhooks).moveTo call .throttling

/-- What a request awaits has resolved. -/
def goOn (s : WaitingWebhooks) (call : RequestCall) : Option WaitingWebhooks :=
  match call.point with
  | .gettingExecution => none
  | .gotExecution execution => some (s.check call execution)
  | .gettingBase execution => some (s.findWebhook call execution)
  | .gettingProject => some (s.moveTo call .gettingAdditionalData)
  | .gettingAdditionalData => some (s.moveTo call .parsingBody)
  | .parsingBody => some (s.moveTo call .runningWebhook)
  | .runningWebhook => some (s.handOver call)
  | .throttling => some (s.moveTo call .updatingExecution)
  | .updatingExecution => none
  | .updatedExecution =>
    some (({ s with activeExecution := some call.number } : WaitingWebhooks).finish call .resumed)

/-- The database executes the command that a request awaits. -/
def executeQuery (s : WaitingWebhooks) (call : RequestCall) : Option WaitingWebhooks :=
  match call.point with
  | .gettingExecution => some (s.moveTo call (.gotExecution s.row))
  | .updatingExecution =>
    some (({ s with row := s.row.map fun row => { row with status := .running } } :
      WaitingWebhooks).moveTo call .updatedExecution)
  | _ => none

/-- The state after an event. -/
def step (s : WaitingWebhooks) : RequestEvent → Option WaitingWebhooks
  | .executeWebhook request =>
    some { s with
      calls := s.calls ++ [⟨s.received, request, .gettingExecution⟩]
      received := s.received + 1 }
  | .query number => (s.calls.find? (·.number = number)).bind s.executeQuery
  | .resume number resolved =>
    (s.calls.find? (·.number = number)).bind fun call =>
      if resolved then s.goOn call
      else if call.point = .runningWebhook then none
      else some (s.finish call .error)

/-- Before the first request. -/
def initial (row : Option WaitingRow) : WaitingWebhooks := ⟨row, [], 0, [], none, []⟩

end WaitingWebhooks

/-! ## Executions resumed by one request -/

/-- The node that the execution waits at resumes on the request. -/
def WaitingRow.ResumesOn (row : WaitingRow) (request : WaitingRequest) : Prop :=
  row.hasError = false ∧ row.finished = false ∧
    (row.nodeWebhooks.getD []).any (restarts request) = true ∧
    request.webhookResult ≠ .noWorkflowData

instance (row : WaitingRow) (request : WaitingRequest) : Decidable (row.ResumesOn request) :=
  inferInstanceAs (Decidable (_ ∧ _ ∧ _ ∧ _))

/-- The request has found the execution not to be running, and has not handed its data over. -/
def RequestPoint.underWay : RequestPoint → Bool
  | .gettingExecution => false
  | .gotExecution execution => execution.any fun execution => execution.status ≠ .running
  | .gettingBase _ => true
  | .gettingProject => true
  | .gettingAdditionalData => true
  | .parsingBody => true
  | .runningWebhook => true
  | .throttling => false
  | .updatingExecution => false
  | .updatedExecution => false

namespace WaitingWebhooks

variable {row : WaitingRow} {s s' : WaitingWebhooks} {call : RequestCall}

/-- The run data is handed over once, and the other requests that the node resumes on are answered
with a conflict, unless something that they await rejects. -/
structure ResumedOnce (row : WaitingRow) (s : WaitingWebhooks) : Prop where
  once : s.handed.length ≤ 1
  conflict : ∀ number request answer, (number, request, answer) ∈ s.answers →
    row.ResumesOn request → number ∉ s.handed → answer = .conflict ∨ answer = .error

/-- A request that may resume the execution reads it as not running only if no other request is on
its way to resume it or has handed its run data over. -/
def exclusive (s : WaitingWebhooks) : RequestEvent → Prop
  | .executeWebhook _ => True
  | .query number =>
    ∀ row ∈ s.row, row.status ≠ .running → ∀ call ∈ s.calls, call.number = number →
      call.point = .gettingExecution → row.ResumesOn call.request →
        s.handed = [] ∧ ∀ other ∈ s.calls, other.point.underWay → ¬ row.ResumesOn other.request
  | .resume _ _ => True

instance (s : WaitingWebhooks) : DecidablePred s.exclusive
  | .executeWebhook _ => isTrue trivial
  | .query _ => inferInstanceAs (Decidable (∀ _ ∈ _, _))
  | .resume .. => isTrue trivial

/-- The row of the running execution. -/
def running (row : WaitingRow) : WaitingRow := { row with status := .running }

/-- What a request knows of the execution at a point. -/
def Sound (row : WaitingRow) (handed : List Nat) (call : RequestCall) : RequestPoint → Prop
  | .gettingExecution => True
  | .gotExecution execution => execution = some row ∨ execution = some (running row)
  | .gettingBase execution => execution = row ∧ row.hasError = false ∧ row.finished = false
  | .gettingProject | .gettingAdditionalData | .parsingBody | .runningWebhook =>
    row.hasError = false ∧ row.finished = false ∧
      (row.nodeWebhooks.getD []).any (restarts call.request) = true
  | .throttling | .updatingExecution | .updatedExecution => call.number ∈ handed

theorem Sound.append {handed : List Nat} {point : RequestPoint} (h : Sound row handed call point)
    (number : Nat) : Sound row (handed ++ [number]) call point := by
  cases point with
  | throttling | updatingExecution | updatedExecution => exact List.mem_append_left _ h
  | gettingExecution | gotExecution | gettingBase | gettingProject | gettingAdditionalData
  | parsingBody | runningWebhook => exact h

/-- What the events keep: at most one request is on its way to resume the execution, and none once
the run data was handed over. -/
structure Invariant (row : WaitingRow) (s : WaitingWebhooks) : Prop where
  resumedOnce : ResumedOnce row s
  stored : s.row = some row ∨ s.row = some (running row)
  numbers : (s.calls.map RequestCall.number).Nodup
  fresh : ∀ call ∈ s.calls, call.number < s.received
  sound : ∀ call ∈ s.calls, Sound row s.handed call call.point
  single : ∀ call ∈ s.calls, ∀ other ∈ s.calls, call.point.underWay → other.point.underWay →
    row.ResumesOn call.request → row.ResumesOn other.request → call.number = other.number
  none_left : s.handed ≠ [] → ∀ call ∈ s.calls, call.point.underWay →
    ¬ row.ResumesOn call.request

section Calls

theorem mem_moveTo {c : RequestCall} {point : RequestPoint} (h : c ∈ (s.moveTo call point).calls) :
    (∃ old ∈ s.calls, old.number = call.number ∧ c = { old with point }) ∨
      c ∈ s.calls ∧ c.number ≠ call.number :=
  mem_map_ite.mp h

theorem mem_finish {c : RequestCall} {answer : RequestAnswer} :
    c ∈ (s.finish call answer).calls ↔ c ∈ s.calls ∧ c.number ≠ call.number := by
  rw [finish, List.mem_filter, decide_eq_true_iff]

theorem map_number_moveTo (s : WaitingWebhooks) (call : RequestCall) (point : RequestPoint) :
    (s.moveTo call point).calls.map RequestCall.number = s.calls.map RequestCall.number :=
  map_map_ite fun _ => rfl

theorem Invariant.eq_of_number (h : Invariant row s) {c c' : RequestCall} (hc : c ∈ s.calls)
    (hc' : c' ∈ s.calls) (hnumber : c.number = c'.number) : c = c' :=
  List.inj_on_of_nodup_map h.numbers hc hc' hnumber

end Calls

section Invariant

theorem initial_invariant (row : WaitingRow) : Invariant row (initial (some row)) where
  resumedOnce := ⟨Nat.zero_le _, fun _ _ _ hmem => absurd hmem List.not_mem_nil⟩
  stored := .inl rfl
  numbers := List.nodup_nil
  fresh _ hmem := absurd hmem List.not_mem_nil
  sound _ hmem := absurd hmem List.not_mem_nil
  single _ hmem := absurd hmem List.not_mem_nil
  none_left hne := absurd rfl hne

/-- A request ends; one that the node resumes on ends with a conflict, unless it was handed over or
failed. -/
theorem Invariant.finish (h : Invariant row s) {answer : RequestAnswer}
    (hanswer : row.ResumesOn call.request → call.number ∉ s.handed →
      answer = .conflict ∨ answer = .error) : Invariant row (s.finish call answer) where
  resumedOnce := by
    refine ⟨h.resumedOnce.once, fun number request other hmem => ?_⟩
    obtain hmem | hmem := List.mem_append.mp hmem
    · exact h.resumedOnce.conflict number request other hmem
    · cases List.mem_singleton.mp hmem
      exact hanswer
  stored := h.stored
  numbers := h.numbers.sublist (List.filter_sublist.map RequestCall.number)
  fresh c hc := h.fresh c (mem_finish.mp hc).1
  sound c hc := h.sound c (mem_finish.mp hc).1
  single c hc c' hc' := h.single c (mem_finish.mp hc).1 c' (mem_finish.mp hc').1
  none_left hne c hc := h.none_left hne c (mem_finish.mp hc).1

/-- A request awaits something else: it was on its way to resume the execution, or no other one is
and the run data was not handed over. -/
theorem Invariant.moveTo (h : Invariant row s) (hcall : call ∈ s.calls) {point : RequestPoint}
    (hsound : Sound row s.handed call point)
    (hway : point.underWay → row.ResumesOn call.request → call.point.underWay ∨
      s.handed = [] ∧ ∀ other ∈ s.calls, other.point.underWay → ¬ row.ResumesOn other.request) :
    Invariant row (s.moveTo call point) where
  resumedOnce := ⟨h.resumedOnce.once, h.resumedOnce.conflict⟩
  stored := h.stored
  numbers := by
    rw [map_number_moveTo]
    exact h.numbers
  fresh c hc := by
    obtain ⟨old, hold, -, rfl⟩ | ⟨hc, -⟩ := mem_moveTo hc
    · exact h.fresh old hold
    · exact h.fresh c hc
  sound c hc := by
    obtain ⟨old, hold, hnumber, rfl⟩ | ⟨hc, -⟩ := mem_moveTo hc
    · cases h.eq_of_number hold hcall hnumber
      cases point <;> exact hsound
    · exact h.sound c hc
  single c hc c' hc' hunder hunder' hresumes hresumes' := by
    -- two requests on their way are both the one that moved, or were so before
    obtain ⟨old, hold, hnumber, rfl⟩ | ⟨hc, hne⟩ := mem_moveTo hc
    · cases h.eq_of_number hold hcall hnumber
      obtain ⟨old', -, hnumber', rfl⟩ | ⟨hc', -⟩ := mem_moveTo hc'
      · exact hnumber'.symm
      · obtain hbefore | ⟨-, hnone⟩ := hway hunder hresumes
        · exact h.single call hcall c' hc' hbefore hunder' hresumes hresumes'
        · exact absurd hresumes' (hnone c' hc' hunder')
    · obtain ⟨old', hold', hnumber', rfl⟩ | ⟨hc', -⟩ := mem_moveTo hc'
      · cases h.eq_of_number hold' hcall hnumber'
        obtain hbefore | ⟨-, hnone⟩ := hway hunder' hresumes'
        · exact h.single c hc call hcall hunder hbefore hresumes hresumes'
        · exact absurd hresumes (hnone c hc hunder)
      · exact h.single c hc c' hc' hunder hunder' hresumes hresumes'
  none_left hne c hc hunder hresumes := by
    obtain ⟨old, hold, hnumber, rfl⟩ | ⟨hc, -⟩ := mem_moveTo hc
    · cases h.eq_of_number hold hcall hnumber
      obtain hbefore | ⟨hempty, -⟩ := hway hunder hresumes
      · exact h.none_left hne call hcall hbefore hresumes
      · exact hne hempty
    · exact h.none_left hne c hc hunder hresumes

theorem Invariant.handOver (h : Invariant row s) (hcall : call ∈ s.calls)
    (hpoint : call.point = .runningWebhook) : Invariant row (s.handOver call) := by
  have hmatches := h.sound call hcall
  rw [hpoint] at hmatches
  obtain ⟨herror, hfinished, hmatch⟩ := hmatches
  have hunder : call.point.underWay := by
    rw [hpoint]
    rfl
  rw [WaitingWebhooks.handOver]
  split
  · rename_i hresult
    exact h.finish fun hresumes => absurd hresult hresumes.2.2.2
  · rename_i hresult
    have hresumes : row.ResumesOn call.request := ⟨herror, hfinished, hmatch, hresult⟩
    -- had another request handed its run data over, this one would not be under way
    have hempty : s.handed = [] := by
      by_contra hne
      exact h.none_left hne call hcall hunder hresumes
    have hother : ∀ c ∈ s.calls, c.number ≠ call.number → c.point.underWay →
        ¬ row.ResumesOn c.request := fun c hc hne hway hresumes' =>
      hne (h.single c hc call hcall hway hunder hresumes' hresumes)
    have hmoved : ∀ c ∈ (({ s with handed := s.handed ++ [call.number] } :
        WaitingWebhooks).moveTo call .throttling).calls, c.point.underWay →
          ¬ row.ResumesOn c.request := by
      intro c hc hway
      obtain ⟨old, -, -, rfl⟩ | ⟨hc, hne⟩ := mem_moveTo hc
      · cases hway
      · exact hother c hc hne hway
    refine ⟨⟨?_, fun number request answer hmem hresumes' hnot => ?_⟩, h.stored, ?_, fun c hc => ?_,
      fun c hc => ?_, fun c hc c' _ hway _ hresumes' => ?_, fun _ => hmoved⟩
    · show (s.handed ++ [call.number]).length ≤ 1
      rw [hempty]
      exact Nat.le_refl 1
    · exact h.resumedOnce.conflict number request answer hmem hresumes' fun hold =>
        hnot (List.mem_append_left _ hold)
    · rw [map_number_moveTo]
      exact h.numbers
    · obtain ⟨old, hold, -, rfl⟩ | ⟨hc, -⟩ := mem_moveTo hc
      · exact h.fresh old hold
      · exact h.fresh c hc
    · obtain ⟨old, -, hnumber, rfl⟩ | ⟨hc, -⟩ := mem_moveTo hc
      · exact List.mem_append_right _ (List.mem_singleton.mpr hnumber)
      · exact (h.sound c hc).append call.number
    · exact absurd hresumes' (hmoved c hc hway)

theorem Invariant.check (h : Invariant row s) (hcall : call ∈ s.calls)
    {execution : Option WaitingRow} (hpoint : call.point = .gotExecution execution) :
    Invariant row (s.check call execution) := by
  have hsound := h.sound call hcall
  rw [hpoint] at hsound
  obtain ⟨found, rfl, hfields⟩ : ∃ found, execution = some found ∧
      found = { row with status := found.status } := by
    obtain rfl | rfl := hsound
    · exact ⟨row, rfl, rfl⟩
    · exact ⟨running row, rfl, rfl⟩
  have hfinish : ∀ answer, (row.ResumesOn call.request → answer = .conflict) →
      Invariant row (s.finish call answer) := fun answer hanswer =>
    h.finish fun hresumes _ => .inl (hanswer hresumes)
  rw [WaitingWebhooks.check]
  split
  · exact hfinish _ fun _ => rfl
  · -- it was read before another request set the execution to running
    rename_i hstatus
    obtain rfl : found = row := by
      obtain heq | heq := hsound
      · exact Option.some.inj heq
      · cases heq
        exact absurd rfl hstatus
    split
    · exact hfinish _ fun _ => rfl
    · rename_i herror
      split
      · rename_i hfinished
        split
        · exact hfinish _ fun hresumes => absurd hfinished (by rw [hresumes.2.1]; nofun)
        · exact hfinish _ fun _ => rfl
      · rename_i hfinished
        split
        · rename_i hwebhooks
          refine hfinish _ fun hresumes => ?_
          have hmatch := hresumes.2.2.1
          rw [hwebhooks] at hmatch
          cases hmatch
        · refine h.moveTo hcall ⟨rfl, ?_, ?_⟩ fun _ _ => .inl ?_
          · exact Bool.eq_false_iff.mpr herror
          · exact Bool.eq_false_iff.mpr hfinished
          · rw [hpoint]
            exact decide_eq_true hstatus

theorem Invariant.findWebhook (h : Invariant row s) (hcall : call ∈ s.calls)
    {execution : WaitingRow} (hpoint : call.point = .gettingBase execution) :
    Invariant row (s.findWebhook call execution) := by
  have hsound := h.sound call hcall
  rw [hpoint] at hsound
  obtain ⟨rfl, herror, hfinished⟩ := hsound
  rw [WaitingWebhooks.findWebhook]
  split
  · rename_i hmatch
    refine h.moveTo hcall ⟨herror, hfinished, hmatch⟩ fun _ _ => .inl ?_
    rw [hpoint]
    rfl
  · rename_i hmatch
    have hfinish : ∀ answer, Invariant execution (s.finish call answer) := fun answer =>
      h.finish fun hresumes => absurd hresumes.2.2.1 hmatch
    split
    · exact hfinish _
    · split
      · exact hfinish _
      · exact hfinish _

theorem Invariant.advance (h : Invariant row s) (hcall : call ∈ s.calls) {point : RequestPoint}
    (hsound : Sound row s.handed call call.point → Sound row s.handed call point)
    (hway : point.underWay → call.point.underWay) : Invariant row (s.moveTo call point) :=
  h.moveTo hcall (hsound (h.sound call hcall)) fun hunder _ => .inl (hway hunder)

theorem Invariant.goOn (h : Invariant row s) (hcall : call ∈ s.calls)
    (hstep : s.goOn call = some s') : Invariant row s' := by
  unfold WaitingWebhooks.goOn at hstep
  cases hpoint : call.point with
  | gettingExecution =>
    rw [hpoint] at hstep
    cases hstep
  | gotExecution execution =>
    rw [hpoint] at hstep
    cases hstep
    exact h.check hcall hpoint
  | gettingBase execution =>
    rw [hpoint] at hstep
    cases hstep
    exact h.findWebhook hcall hpoint
  | gettingProject =>
    rw [hpoint] at hstep
    cases hstep
    exact h.advance hcall (by rw [hpoint]; exact id) (by rw [hpoint]; exact id)
  | gettingAdditionalData =>
    rw [hpoint] at hstep
    cases hstep
    exact h.advance hcall (by rw [hpoint]; exact id) (by rw [hpoint]; exact id)
  | parsingBody =>
    rw [hpoint] at hstep
    cases hstep
    exact h.advance hcall (by rw [hpoint]; exact id) (by rw [hpoint]; exact id)
  | runningWebhook =>
    rw [hpoint] at hstep
    cases hstep
    exact h.handOver hcall hpoint
  | throttling =>
    rw [hpoint] at hstep
    cases hstep
    exact h.advance hcall (by rw [hpoint]; exact id) nofun
  | updatingExecution =>
    rw [hpoint] at hstep
    cases hstep
  | updatedExecution =>
    rw [hpoint] at hstep
    cases hstep
    have hhanded := h.sound call hcall
    rw [hpoint] at hhanded
    have hactive : Invariant row { s with activeExecution := some call.number } :=
      ⟨⟨h.resumedOnce.once, h.resumedOnce.conflict⟩, h.stored, h.numbers, h.fresh, h.sound,
        h.single, h.none_left⟩
    exact hactive.finish fun _ hnot => absurd hhanded hnot

/-- The database reads the execution for a request, or sets it to running for one that has handed
its run data over. -/
theorem Invariant.executeQuery (h : Invariant row s) (hcall : call ∈ s.calls)
    (hexclusive : s.exclusive (.query call.number)) (hstep : s.executeQuery call = some s') :
    Invariant row s' := by
  unfold WaitingWebhooks.executeQuery at hstep
  split at hstep
  · rename_i hpoint
    cases hstep
    refine h.moveTo hcall h.stored fun hunder hresumes => .inr ?_
    obtain hrow | hrow := h.stored
    · rw [hrow] at hunder
      exact hexclusive row hrow (of_decide_eq_true hunder) call hcall rfl hpoint hresumes
    · rw [hrow] at hunder
      have hne : ExecutionStatus.running ≠ .running := of_decide_eq_true hunder
      exact absurd rfl hne
  · rename_i hpoint
    cases hstep
    have hrow : (s.row.map fun row => { row with status := .running }) = some (running row) := by
      obtain hrow | hrow := h.stored
      · rw [hrow]
        rfl
      · rw [hrow]
        rfl
    have hrunning : Invariant row
        { s with row := s.row.map fun row => { row with status := .running } } :=
      ⟨⟨h.resumedOnce.once, h.resumedOnce.conflict⟩, .inr hrow, h.numbers, h.fresh, h.sound,
        h.single, h.none_left⟩
    exact hrunning.advance hcall (by rw [hpoint]; exact id) nofun
  · cases hstep

theorem Invariant.executeWebhook (h : Invariant row s) (request : WaitingRequest) :
    Invariant row { s with
      calls := s.calls ++ [⟨s.received, request, .gettingExecution⟩]
      received := s.received + 1 } where
  resumedOnce := ⟨h.resumedOnce.once, h.resumedOnce.conflict⟩
  stored := h.stored
  numbers := by
    rw [List.map_append]
    refine h.numbers.append (List.nodup_singleton _) fun number hold hnew => ?_
    obtain ⟨c, hc, rfl⟩ := List.mem_map.mp hold
    exact Nat.ne_of_lt (h.fresh c hc) (List.mem_singleton.mp hnew)
  fresh c hc := by
    obtain hc | hc := List.mem_append.mp hc
    · exact Nat.lt_succ_of_lt (h.fresh c hc)
    · cases List.mem_singleton.mp hc
      exact Nat.lt_succ_self _
  sound c hc := by
    obtain hc | hc := List.mem_append.mp hc
    · exact h.sound c hc
    · cases List.mem_singleton.mp hc
      trivial
  single c hc c' hc' hunder hunder' := by
    obtain hc | hc := List.mem_append.mp hc
    · obtain hc' | hc' := List.mem_append.mp hc'
      · exact h.single c hc c' hc' hunder hunder'
      · cases List.mem_singleton.mp hc'
        cases hunder'
    · cases List.mem_singleton.mp hc
      cases hunder
  none_left hne c hc hunder := by
    obtain hc | hc := List.mem_append.mp hc
    · exact h.none_left hne c hc hunder
    · cases List.mem_singleton.mp hc
      cases hunder

theorem Invariant.step {event : RequestEvent} (h : Invariant row s)
    (hexclusive : s.exclusive event) (hstep : s.step event = some s') : Invariant row s' := by
  cases event with
  | executeWebhook request =>
    cases hstep
    exact h.executeWebhook request
  | query number =>
    obtain ⟨call, hfind, hquery⟩ := Option.bind_eq_some_iff.mp hstep
    obtain rfl : call.number = number := by simpa using List.find?_some hfind
    exact h.executeQuery (List.mem_of_find?_eq_some hfind) hexclusive hquery
  | resume number resolved =>
    obtain ⟨call, hfind, hstep⟩ := Option.bind_eq_some_iff.mp hstep
    have hcall := List.mem_of_find?_eq_some hfind
    split at hstep
    · exact h.goOn hcall hstep
    · split at hstep
      · cases hstep
      · cases hstep
        exact h.finish fun _ _ => .inr rfl

end Invariant

/-- The execution is resumed by at most one request, in every run in which no request reads it as
waiting when another one is on its way to resume it. -/
theorem handed_over_once (h : Reachable step exclusive (initial (some row)) s) :
    ResumedOnce row s :=
  (h.keeps (Invariant row) (initial_invariant row) fun _ _ _ hs hexclusive hstep =>
    hs.step hexclusive hstep).resumedOnce

/-- An execution that waits for a call of the webhook without a suffix. -/
def sampleRow : WaitingRow where
  status := .waiting
  hasError := false
  finished := false
  sendAndWaitNodes := []
  nodeWebhooks := some [⟨.get, [], true, false⟩]
  hasChildForms := false

/-- A request that the execution resumes on. -/
def sampleRequest : WaitingRequest := ⟨.get, none, .workflowData⟩

/-- A request up to the end of its webhook function. -/
def runWebhook (number : Nat) : List RequestEvent :=
  List.replicate 6 (.resume number true)

/-- The second request comes when the run of the first one is registered. -/
theorem later_request_conflicts : ∃ s,
    Reachable step exclusive (initial (some sampleRow)) s ∧ ResumedOnce sampleRow s ∧
      s.handed = [0] ∧ s.activeExecution = some 0 ∧
      s.answers.map (fun a => (a.1, a.2.2)) = [(0, .resumed), (1, .conflict)] := by
  obtain ⟨s, hs, hlists⟩ : ∃ s,
      runAllowed step exclusive (initial (some sampleRow))
        ([.executeWebhook sampleRequest, .executeWebhook sampleRequest, .query 0] ++
          runWebhook 0 ++ [.resume 0 true, .query 0, .resume 0 true, .query 1, .resume 1 true]) =
        some s ∧
      (s.handed, s.activeExecution, s.answers.map (fun a => (a.1, a.2.2))) =
        ([0], some 0, [(0, .resumed), (1, .conflict)]) := by
    refine Option.map_eq_some_iff.mp ?_
    decide +kernel
  simp only [Prod.mk.injEq] at hlists
  have hreach := reachable_of_runAllowed .start hs
  exact ⟨s, hreach, handed_over_once hreach, hlists⟩

/-- Two requests read the execution while it waits: both hand their run data over. -/
theorem two_requests_resume :
    ¬ ∀ s, Reachable step (fun _ _ => True) (initial (some sampleRow)) s →
      ResumedOnce sampleRow s := by
  intro h
  obtain ⟨s, hs, hhanded⟩ : ∃ s,
      run step (initial (some sampleRow))
        ([.executeWebhook sampleRequest, .executeWebhook sampleRequest, .query 0, .query 1] ++
          runWebhook 0 ++ runWebhook 1) = some s ∧ s.handed = [0, 1] := by
    refine Option.map_eq_some_iff.mp ?_
    decide +kernel
  have honce := (h s (reachable_of_run hs)).once
  rw [hhanded] at honce
  exact absurd honce (by decide)

end WaitingWebhooks

end N8n.Webhooks
