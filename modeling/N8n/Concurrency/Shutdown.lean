import N8n.Concurrency.ConservedCapacity

/-!
# Shutdown of the active executions

`ActiveExecutions.shutdown` stops executions and hands them to `ConcurrencyControlService`
(`packages/cli/src/active-executions.ts` and
`packages/cli/src/concurrency/concurrency-control.service.ts`). The two services go on reacting to
events afterwards, until the last execution is gone.
-/

namespace N8n.Concurrency

open Collections Transition

/-- Settings under which `throttle` and `release` do what they do once the control is disabled. -/
def ConcurrencySettings.disabled (c : ConcurrencySettings) : ConcurrencySettings where
  regular := c.regular
  limit _ := -1
  limit_ne_zero _ := by decide

/-- The active executions with the concurrency control. -/
structure Services where
  active : ActiveExecutions
  /-- The ids of the active executions that have a `responsePromise`. -/
  responsePromises : List String
  isEnabled : Bool
  /-- The ids that were passed to `cancelMany`. -/
  canceled : List String

inductive ServiceEvent where
  | execution (event : ExecutionEvent)
  | attachResponsePromise (executionId : String)
  | shutdown (cancelAll : Bool)

namespace Services

variable (c : ConcurrencySettings)

def initial : Services where
  active := .initial c
  responsePromises := []
  isEnabled := c.isEnabled
  canceled := []

/-- The settings that the control follows. -/
def settings (s : Services) : ConcurrencySettings := if s.isEnabled then c else c.disabled

/-- `queue.remove(executionId)`, with the execution that it lets through. -/
def removeWaiting (type : ConcurrencyQueueType) (active : ActiveExecutions) (executionId : String) :
    ActiveExecutions :=
  let (queue, effects) := (active.queues type).remove executionId
  (resolved effects).foldl (ActiveExecutions.letThrough type)
    { active with queues := Function.update active.queues type queue }

/-- `removeAll(executionIdsToCancel)`. -/
def removeAll (s : Services) (executionIdsToCancel : List String) : Services :=
  if s.isEnabled = false then s
  else
    let queues := [ConcurrencyQueueType.production, .evaluation].filter fun type =>
      0 < c.limits type
    let active := queues.foldl (fun active type =>
      (active.queues type).getAll.foldl (removeWaiting type) active) s.active
    if executionIdsToCancel = [] then { s with active }
    else { s with active, canceled := s.canceled ++ executionIdsToCancel }

/-- `stopExecution(executionId)`. -/
def stopExecution (active : ActiveExecutions) (executionId : String) : ActiveExecutions :=
  (active.step c (.stopExecution executionId)).getD active

/-- The loop of `shutdown` stops the execution. -/
def stops (s : Services) (cancelAll : Bool) (executionId : String) : Bool :=
  executionId ∈ s.responsePromises || (c.regular && cancelAll)

/-- One round of the loop of `shutdown`. -/
def shutdownOne (s : Services) (cancelAll : Bool) (loop : ActiveExecutions × List String)
    (executionId : String) : ActiveExecutions × List String :=
  let (active, toCancel) := loop
  if stops c s cancelAll executionId then
    (stopExecution c active executionId, toCancel ++ [executionId])
  else match active.getExecution executionId with
    | some (_, execution) =>
      if execution.status = .waiting ∨ execution.status = .new then
        (active.removeActive executionId, toCancel)
      else (active, toCancel)
    | none => (active, toCancel)

/-- The loop of `shutdown`: the executions that are left, and `toCancel`. -/
def shutdownLoop (s : Services) (cancelAll : Bool) : ActiveExecutions × List String :=
  s.active.activeExecutions.keys.foldl (shutdownOne c s cancelAll) (s.active, [])

/-- `shutdown(cancelAll)`, up to the point from which it waits for the executions that are left. -/
def shutdown (s : Services) (cancelAll : Bool) : Services :=
  let s := if c.regular then { s with isEnabled := false } else s
  let (active, toCancel) := shutdownLoop c s cancelAll
  removeAll c
    { s with
      active
      responsePromises := s.responsePromises.filter active.activeExecutions.has }
    toCancel

/-- The state after an event. An entry that is made anew takes over the response promise of the one
before it. -/
def step (s : Services) : ServiceEvent → Option Services
  | .execution event =>
    (s.active.step (settings c s) event).map fun active =>
      { s with
        active
        responsePromises := s.responsePromises.filter active.activeExecutions.has }
  | .attachResponsePromise executionId =>
    if s.active.activeExecutions.has executionId then
      some { s with responsePromises := executionId :: s.responsePromises }
    else some s
  | .shutdown cancelAll => some (shutdown c s cancelAll)

/-- The states that the services reach, whatever happens. -/
abbrev Reaches (s s' : Services) : Prop := Reachable (step c) (fun _ _ => True) s s'

/-- The call of the number waits for capacity. -/
def Waits (s : Services) (serial : Nat) (mode : WorkflowExecuteMode) (executionId : String) :
    Prop :=
  s.active.calls.get? serial = some ⟨mode, .throttled executionId⟩

/-- A shutdown cancels the executions that it stops, and whatever happens during and after it, no
execution that waits for capacity is admitted. -/
structure CancelsStopped (s : Services) (cancelAll : Bool) : Prop where
  cancels : ∃ ids, (shutdown c s cancelAll).canceled = s.canceled ++ ids ∧
    ∀ executionId ∈ (shutdownLoop c s cancelAll).2, executionId ∈ ids
  admitsNone : ∀ serial mode executionId, s.Waits serial mode executionId →
    ∀ s', Reaches c (shutdown c s cancelAll) s' → s'.Waits serial mode executionId

variable {c} {s s' : Services} {cancelAll : Bool}

section Calls

variable {active active' : ActiveExecutions} {serial : Nat} {mode : WorkflowExecuteMode}
  {executionId : String}

/-- The numbers of the calls were issued. -/
def Issued (active : ActiveExecutions) : Prop :=
  ∀ serial call, active.calls.get? serial = some call → serial < active.issued

theorem Issued.letThrough (h : Issued active) (type : ConcurrencyQueueType) (ticket : Ticket) :
    Issued (ActiveExecutions.letThrough type active ticket) := by
  intro serial call hcall
  unfold ActiveExecutions.letThrough at hcall
  cases hticket : active.calls.get? ticket.serial with
  | none =>
    simp only [hticket] at hcall
    exact h serial call hcall
  | some waiting =>
    simp only [hticket, InsertionMap.get_set] at hcall
    split at hcall
    · rename_i hserial
      exact hserial ▸ h ticket.serial waiting hticket
    · exact h serial call hcall

theorem Issued.foldl_letThrough (type : ConcurrencyQueueType) {tickets : List Ticket} :
    ∀ {active}, Issued active →
      Issued (tickets.foldl (ActiveExecutions.letThrough type) active) := by
  induction tickets with
  | nil => exact id
  | cons ticket rest ih => exact fun h => ih (h.letThrough type ticket)

theorem Issued.set (h : Issued active) (hserial : serial < active'.issued)
    (hissued : active.issued ≤ active'.issued) {call : AddCall}
    (hcalls : active'.calls = active.calls.set serial call) : Issued active' := by
  intro other call hcall
  rw [hcalls, InsertionMap.get_set] at hcall
  split at hcall
  · rename_i hother
    exact hother ▸ hserial
  · exact Nat.lt_of_lt_of_le (h other call hcall) hissued

theorem Issued.delete (h : Issued active) (hissued : active.issued ≤ active'.issued)
    (hcalls : active'.calls = active.calls.delete serial) : Issued active' := by
  intro other call hcall
  rw [hcalls, InsertionMap.get_delete] at hcall
  split at hcall
  · cases hcall
  · exact Nat.lt_of_lt_of_le (h other call hcall) hissued

theorem Issued.same (h : Issued active) (hissued : active.issued ≤ active'.issued)
    (hcalls : active'.calls = active.calls) : Issued active' := by
  intro other call hcall
  exact Nat.lt_of_lt_of_le (h other call (hcalls ▸ hcall)) hissued

theorem Issued.throttle (h : Issued active) (hserial : serial < active.issued) :
    Issued (ActiveExecutions.throttle c active serial mode executionId) := by
  unfold ActiveExecutions.throttle
  split
  · exact h.set hserial le_rfl rfl
  · exact h.set hserial le_rfl rfl

theorem Issued.release (h : Issued active) :
    Issued (ActiveExecutions.release c active serial mode) := by
  unfold ActiveExecutions.release
  split
  · exact h
  · exact Issued.foldl_letThrough _ (h.same le_rfl rfl)

theorem Issued.runCallback (h : Issued active) (execution : IExecutingWorkflowData) :
    Issued (ActiveExecutions.runCallback c active serial execution) := by
  have hset : Issued (active.setExecution serial { execution with removed := true }) :=
    h.same le_rfl rfl
  rw [ActiveExecutions.runCallback]
  split
  · exact hset.release
  · exact hset.release.same le_rfl rfl

theorem Issued.step {event : ExecutionEvent} (h : Issued active)
    (hstep : active.step c event = some active') : Issued active' := by
  cases event with
  | add mode executionId =>
    cases executionId with
    | none =>
      cases hstep
      exact h.set (Nat.lt_succ_self _) (Nat.le_succ _) rfl
    | some executionId =>
      cases hstep
      have hissue : Issued { active with issued := active.issued + 1 } :=
        h.same (Nat.le_succ _) rfl
      exact hissue.throttle (Nat.lt_succ_self _)
  | created serial result =>
    dsimp only [ActiveExecutions.step] at hstep
    split at hstep
    · cases hstep
      exact h.delete le_rfl rfl
    · rename_i hcall
      split at hstep
      · cases hstep
        exact h.throttle (h serial _ hcall)
      · cases hstep
        exact h.delete le_rfl rfl
    · cases hstep
  | persisted serial ok =>
    dsimp only [ActiveExecutions.step] at hstep
    split at hstep
    · split at hstep <;> cases hstep <;> exact h.delete le_rfl rfl
    · cases hstep
  | finalizeExecution executionId =>
    dsimp only [ActiveExecutions.step] at hstep
    split at hstep <;> cases hstep <;> exact h.same le_rfl rfl
  | stopExecution executionId =>
    dsimp only [ActiveExecutions.step] at hstep
    split at hstep
    · split at hstep <;> cases hstep <;> exact h.same le_rfl rfl
    · cases hstep
      exact h
  | setStatus executionId status =>
    dsimp only [ActiveExecutions.step] at hstep
    split at hstep <;> cases hstep <;> exact h.same le_rfl rfl
  | callback serial =>
    dsimp only [ActiveExecutions.step] at hstep
    split at hstep
    · split at hstep
      · cases hstep
        exact h.runCallback _
      · cases hstep
    · cases hstep

theorem queueOf_disabled (mode : WorkflowExecuteMode) : c.disabled.queueOf mode = none := by
  simp [ConcurrencySettings.queueOf, ConcurrencySettings.isEnabled, ConcurrencySettings.limits,
    ConcurrencySettings.disabled]

theorem waits_step {event : ExecutionEvent} {waiting : WorkflowExecuteMode} {waitingId : String}
    {number : Nat} (h : Issued active) (hstep : active.step c.disabled event = some active')
    (hwaits : active.calls.get? number = some ⟨waiting, .throttled waitingId⟩) :
    active'.calls.get? number = some ⟨waiting, .throttled waitingId⟩ := by
  have hlt := h number _ hwaits
  cases event with
  | add mode executionId =>
    cases executionId with
    | none =>
      cases hstep
      exact (InsertionMap.get_set_other _ _ hlt.ne).trans hwaits
    | some executionId =>
      simp only [ActiveExecutions.step, ActiveExecutions.throttle, queueOf_disabled,
        Option.some.injEq] at hstep
      rw [← hstep]
      exact (InsertionMap.get_set_other _ _ hlt.ne).trans hwaits
  | created serial result =>
    dsimp only [ActiveExecutions.step] at hstep
    have hother {phase : WorkflowExecuteMode}
        (hcall : active.calls.get? serial = some ⟨phase, .creating⟩) : number ≠ serial := by
      rintro rfl
      cases hwaits.symm.trans hcall
    split at hstep
    · rename_i hcall
      cases hstep
      rw [InsertionMap.get_delete, if_neg (hother hcall), hwaits]
    · rename_i hcall
      simp only [ActiveExecutions.throttle, queueOf_disabled] at hstep
      split at hstep
      · cases hstep
        exact (InsertionMap.get_set_other _ _ (hother hcall)).trans hwaits
      · cases hstep
        simp only [ActiveExecutions.register, InsertionMap.get_delete, if_neg (hother hcall),
          hwaits]
    · cases hstep
  | persisted serial ok =>
    dsimp only [ActiveExecutions.step] at hstep
    split at hstep
    · rename_i hcall
      have hother : number ≠ serial := by
        rintro rfl
        cases hwaits.symm.trans hcall
      split at hstep
      · cases hstep
        simp only [ActiveExecutions.register, InsertionMap.get_delete, if_neg hother, hwaits]
      · cases hstep
        rw [InsertionMap.get_delete, if_neg hother, hwaits]
    · cases hstep
  | finalizeExecution executionId =>
    dsimp only [ActiveExecutions.step] at hstep
    split at hstep <;> cases hstep <;> exact hwaits
  | stopExecution executionId =>
    dsimp only [ActiveExecutions.step] at hstep
    split at hstep
    · split at hstep <;> cases hstep <;> exact hwaits
    · cases hstep
      exact hwaits
  | setStatus executionId status =>
    dsimp only [ActiveExecutions.step] at hstep
    split at hstep <;> cases hstep <;> exact hwaits
  | callback serial =>
    dsimp only [ActiveExecutions.step] at hstep
    split at hstep
    · split at hstep
      · simp only [ActiveExecutions.runCallback, ActiveExecutions.release,
          queueOf_disabled] at hstep
        split at hstep <;> cases hstep <;> exact hwaits
      · cases hstep
    · cases hstep

end Calls

/-- The numbers of calls were issued, and the control is enabled only if it was at first. -/
structure Sound (c : ConcurrencySettings) (s : Services) : Prop where
  issued : Issued s.active
  enabled : s.isEnabled = true → c.isEnabled = true

theorem calls_stopExecution (active : ActiveExecutions) (executionId : String) :
    (stopExecution c active executionId).calls = active.calls ∧
      (stopExecution c active executionId).issued = active.issued := by
  simp only [stopExecution, ActiveExecutions.step]
  split
  · split <;> exact ⟨rfl, rfl⟩
  · exact ⟨rfl, rfl⟩

theorem calls_shutdownOne (loop : ActiveExecutions × List String) (executionId : String) :
    (shutdownOne c s cancelAll loop executionId).1.calls = loop.1.calls ∧
      (shutdownOne c s cancelAll loop executionId).1.issued = loop.1.issued := by
  simp only [shutdownOne]
  split
  · exact calls_stopExecution loop.1 executionId
  · split
    · split <;> exact ⟨rfl, rfl⟩
    · exact ⟨rfl, rfl⟩

theorem calls_shutdownLoop : (shutdownLoop c s cancelAll).1.calls = s.active.calls ∧
    (shutdownLoop c s cancelAll).1.issued = s.active.issued := by
  have hloop (ids : List String) (loop : ActiveExecutions × List String) :
      (ids.foldl (shutdownOne c s cancelAll) loop).1.calls = loop.1.calls ∧
        (ids.foldl (shutdownOne c s cancelAll) loop).1.issued = loop.1.issued := by
    induction ids generalizing loop with
    | nil => exact ⟨rfl, rfl⟩
    | cons executionId rest ih =>
      obtain ⟨hcalls, hissued⟩ := ih (shutdownOne c s cancelAll loop executionId)
      obtain ⟨hcalls', hissued'⟩ := calls_shutdownOne (c := c) (s := s)
        loop executionId
      exact ⟨hcalls.trans hcalls', hissued.trans hissued'⟩
  exact hloop _ _

theorem stopped_shutdownLoop : (shutdownLoop c s cancelAll).2 =
    s.active.activeExecutions.keys.filter (stops c s cancelAll) := by
  have hround (loop : ActiveExecutions × List String) (executionId : String) :
      (shutdownOne c s cancelAll loop executionId).2 =
        loop.2 ++ [executionId].filter (stops c s cancelAll) := by
    simp only [shutdownOne]
    split
    · rename_i hstops
      simp [hstops]
    · rename_i hstops
      have hnone : [executionId].filter (stops c s cancelAll) = [] := by simp [hstops]
      rw [hnone, List.append_nil]
      split
      · split <;> rfl
      · rfl
  have hloop (ids : List String) (loop : ActiveExecutions × List String) :
      (ids.foldl (shutdownOne c s cancelAll) loop).2 =
        loop.2 ++ ids.filter (stops c s cancelAll) := by
    induction ids generalizing loop with
    | nil => simp
    | cons executionId rest ih =>
      rw [List.foldl_cons, ih, hround, List.append_assoc, ← List.filter_append]
      rfl
  exact (hloop _ _).trans (List.nil_append _)

theorem removeAll_disabled (hdisabled : s.isEnabled = false) (ids : List String) :
    removeAll c s ids = s := by
  rw [removeAll, if_pos hdisabled]

theorem shutdown_eq (hs : Sound c s) (cancelAll : Bool) :
    ∃ responsePromises, shutdown c s cancelAll =
    { s with
      active := (shutdownLoop c s cancelAll).1
      responsePromises
      isEnabled := false } := by
  by_cases hregular : c.regular = true
  · simp only [shutdown, hregular, if_true]
    exact ⟨_, removeAll_disabled rfl _⟩
  · have hdisabled : s.isEnabled = false := by
      refine Bool.eq_false_iff.mpr fun henabled => ?_
      simpa [ConcurrencySettings.isEnabled, hregular] using hs.enabled henabled
    refine ⟨s.responsePromises.filter (shutdownLoop c s cancelAll).1.activeExecutions.has, ?_⟩
    rw [shutdown, if_neg hregular, ← hdisabled]
    exact removeAll_disabled (by exact hdisabled) _

theorem Sound.step {event : ServiceEvent} (hs : Sound c s) (hstep : step c s event = some s') :
    Sound c s' := by
  cases event with
  | execution event =>
    obtain ⟨active, hactive, rfl⟩ := Option.map_eq_some_iff.mp hstep
    exact ⟨hs.issued.step hactive, hs.enabled⟩
  | attachResponsePromise executionId =>
    dsimp only [Services.step] at hstep
    split at hstep <;> cases hstep <;> exact ⟨hs.issued, hs.enabled⟩
  | shutdown cancelAll =>
    cases hstep
    obtain ⟨responsePromises, hshutdown⟩ := shutdown_eq hs cancelAll
    obtain ⟨hcalls, hissued⟩ := calls_shutdownLoop (c := c) (s := s)
    rw [hshutdown]
    exact ⟨hs.issued.same hissued.ge hcalls, fun henabled => by cases henabled⟩

theorem reachable_sound (h : Reaches c (initial c) s) : Sound c s := by
  refine h.keeps (Sound c) ⟨fun serial call hcall => ?_, id⟩ fun s e s' hs _ hstep => hs.step hstep
  cases hcall

/-- While the control is disabled, every event leaves it disabled and the calls that wait for
capacity waiting. -/
theorem waits_event {event : ServiceEvent} {serial : Nat} {mode : WorkflowExecuteMode}
    {executionId : String} (hs : Sound c s) (hdisabled : s.isEnabled = false)
    (hwaits : s.Waits serial mode executionId) (hstep : step c s event = some s') :
    s'.isEnabled = false ∧ s'.Waits serial mode executionId := by
  cases event with
  | execution event =>
    obtain ⟨active, hactive, rfl⟩ := Option.map_eq_some_iff.mp hstep
    simp only [settings, hdisabled] at hactive
    exact ⟨hdisabled, waits_step hs.issued hactive hwaits⟩
  | attachResponsePromise executionId =>
    dsimp only [Services.step] at hstep
    split at hstep <;> cases hstep <;> exact ⟨hdisabled, hwaits⟩
  | shutdown cancelAll =>
    cases hstep
    obtain ⟨responsePromises, hshutdown⟩ := shutdown_eq hs cancelAll
    rw [hshutdown]
    refine ⟨rfl, ?_⟩
    rw [Waits, calls_shutdownLoop.1]
    exact hwaits

theorem waits_forever {serial : Nat} {mode : WorkflowExecuteMode} {executionId : String}
    (hs : Sound c s) (hdisabled : s.isEnabled = false) (hwaits : s.Waits serial mode executionId)
    (h : Reaches c s s') : s'.Waits serial mode executionId := by
  have hkept := h.keeps
    (fun s => Sound c s ∧ s.isEnabled = false ∧ s.Waits serial mode executionId)
    ⟨hs, hdisabled, hwaits⟩ fun s e s' hs _ hstep =>
      ⟨hs.1.step hstep, waits_event hs.1 hs.2.1 hs.2.2 hstep⟩
  exact hkept.2.2

/-- A shutdown admits no execution that waits for capacity, and it cancels the executions that it
stops exactly when it stops none. -/
theorem shutdown_cancels_iff (hreach : Reaches c (initial c) s) :
    CancelsStopped c s cancelAll ↔
      ∀ executionId ∈ s.active.activeExecutions.keys, stops c s cancelAll executionId = false := by
  have hs := reachable_sound hreach
  obtain ⟨responsePromises, hshutdown⟩ := shutdown_eq hs cancelAll
  constructor
  · rintro ⟨⟨ids, hcanceled, hcancels⟩, -⟩ executionId hkey
    have hnone : ids = [] := by simpa [hshutdown] using hcanceled
    refine Bool.eq_false_iff.mpr fun hstops => ?_
    have hmem : executionId ∈ (shutdownLoop c s cancelAll).2 := by
      rw [stopped_shutdownLoop]
      exact List.mem_filter.mpr ⟨hkey, hstops⟩
    rw [hnone] at hcancels
    exact List.not_mem_nil (hcancels executionId hmem)
  · intro hnone
    refine ⟨⟨[], by simp [hshutdown], fun executionId hmem => ?_⟩, ?_⟩
    · rw [stopped_shutdownLoop] at hmem
      obtain ⟨hkey, hstops⟩ := List.mem_filter.mp hmem
      rw [hnone executionId hkey] at hstops
      cases hstops
    · intro serial mode executionId hwaits s' h
      have hstep : step c s (.shutdown cancelAll) = some (shutdown c s cancelAll) := rfl
      have hsound : Sound c (shutdown c s cancelAll) := hs.step hstep
      refine waits_forever hsound (by rw [hshutdown]) ?_ h
      rw [hshutdown, Waits, calls_shutdownLoop.1]
      exact hwaits

section Example

open ActiveExecutions (oneSlot)

/-- An execution gets the slot, and a second one waits for it. -/
def secondWaits : Option Services :=
  run (step oneSlot) (initial oneSlot)
    [.execution (.add .webhook none), .execution (.created 0 (some "1")),
      .execution (.add .trigger none), .execution (.created 1 (some "2"))]

/-- A shutdown before the first execution is active leaves the second one waiting. -/
theorem second_is_not_admitted :
    ∃ s, secondWaits = some s ∧ s.Waits 1 .trigger "2" ∧ CancelsStopped oneSlot s true := by
  obtain ⟨s, hs, hfields⟩ : ∃ s, secondWaits = some s ∧
      (s.active.activeExecutions.keys, s.active.calls.get? 1) =
        ([], some ⟨.trigger, .throttled "2"⟩) := by
    refine Option.map_eq_some_iff.mp (?_ : secondWaits.map (fun s =>
      (s.active.activeExecutions.keys, s.active.calls.get? 1)) = some _)
    decide +kernel
  obtain ⟨hkeys, hwaits⟩ := Prod.mk.inj hfields
  refine ⟨s, hs, hwaits, (shutdown_cancels_iff (reachable_of_run hs)).mpr fun _ hkey => ?_⟩
  rw [hkeys] at hkey
  cases hkey

/-- An execution is active. -/
def firstActive : Option Services :=
  run (step oneSlot) (initial oneSlot)
    [.execution (.add .webhook none), .execution (.created 0 (some "1")),
      .execution (.persisted 0 true)]

/-- The shutdown stops the execution and does not cancel it. -/
theorem stopped_not_canceled :
    ∃ s, firstActive = some s ∧ Reaches oneSlot (initial oneSlot) s ∧
      (shutdownLoop oneSlot s true).2 = ["1"] ∧ (shutdown oneSlot s true).canceled = [] ∧
      ¬ CancelsStopped oneSlot s true := by
  obtain ⟨s, hs, hfields⟩ : ∃ s, firstActive = some s ∧
      ((shutdownLoop oneSlot s true).2, (shutdown oneSlot s true).canceled) = (["1"], []) := by
    refine Option.map_eq_some_iff.mp (?_ : firstActive.map (fun s =>
      ((shutdownLoop oneSlot s true).2, (shutdown oneSlot s true).canceled)) = some _)
    decide +kernel
  obtain ⟨hstopped, hcanceled⟩ := Prod.mk.inj hfields
  refine ⟨s, hs, reachable_of_run hs, hstopped, hcanceled, ?_⟩
  rintro ⟨⟨ids, hids, hcancels⟩, -⟩
  have hnone : ids = [] := (List.append_eq_nil_iff.mp (hids.symm.trans hcanceled)).2
  rw [hstopped, hnone] at hcancels
  exact List.not_mem_nil (hcancels "1" List.mem_cons_self)

end Example

end Services

end N8n.Concurrency
