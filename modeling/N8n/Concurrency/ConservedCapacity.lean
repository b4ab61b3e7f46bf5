import Mathlib.Data.List.Count
import N8n.Concurrency.ActiveExecutions
import N8n.Transition.Runs

/-!
# The capacity of the queues is conserved

`Slots` says who has a slot: the calls of `add` that await their last query, and the executions
whose callback has not run. `Entries` says that these executions still have their entries, so that
they can be finished. Both hold along runs that meet the condition `KeepsSlots`, and
`capacity_conserved` follows.
-/

namespace N8n.Concurrency

open Collections Transition

namespace ActiveExecutions

section Slots

variable (c : ConcurrencySettings)

/-- The call or the execution of the number has a slot. -/
def HoldsSlot (calls : InsertionMap Nat AddCall)
    (executions : InsertionMap Nat IExecutingWorkflowData) (type : ConcurrencyQueueType)
    (serial : Nat) : Prop :=
  (∃ mode executionId, calls.get? serial = some ⟨mode, .persisting executionId⟩ ∧
      c.queueOf mode = some type) ∨
    ∃ execution, executions.get? serial = some execution ∧ execution.removed = false ∧
      c.queueOf execution.mode = some type

/-- The ticket is that of a call which waits to be let through. -/
def IsThrottled (calls : InsertionMap Nat AddCall) (type : ConcurrencyQueueType)
    (ticket : Ticket) : Prop :=
  ∃ mode, calls.get? ticket.serial = some ⟨mode, .throttled ticket.executionId⟩ ∧
    c.queueOf mode = some type

/-- The slots are accounted for. -/
structure Slots (s : ActiveExecutions) : Prop where
  fresh : ∀ serial, s.issued ≤ serial →
    s.calls.get? serial = none ∧ s.executions.get? serial = none
  apart : ∀ serial call, s.calls.get? serial = some call → s.executions.get? serial = none
  count : ∀ type, (s.queues type).capacity =
    c.limits type - s.held.countP (·.1 = type) - (s.queues type).queue.length
  heldOnce : s.held.Nodup
  held_iff : ∀ type serial, (type, serial) ∈ s.held ↔ HoldsSlot c s.calls s.executions type serial
  waiting : ∀ type, ∀ item ∈ (s.queues type).queue, IsThrottled c s.calls type item.resolve
  waitingOnce : ∀ type, ((s.queues type).queue.map (·.resolve.serial)).Nodup
  releasedOnce : s.releasedTwice = []

variable {c} {s : ActiveExecutions} {serial : Nat} {mode : WorkflowExecuteMode}
  {executionId : String} {execution : IExecutingWorkflowData} {calls : InsertionMap Nat AddCall}
  {executions : InsertionMap Nat IExecutingWorkflowData} {type : ConcurrencyQueueType}

theorem Slots.issue (h : Slots c s) : Slots c { s with issued := s.issued + 1 } where
  fresh serial hle := h.fresh serial (Nat.le_of_succ_le hle)
  apart := h.apart
  count := h.count
  heldOnce := h.heldOnce
  held_iff := h.held_iff
  waiting := h.waiting
  waitingOnce := h.waitingOnce
  releasedOnce := h.releasedOnce

/-- A step that touches one number keeps the account when it does so at this number. -/
theorem Slots.change (h : Slots c s) {s' : ActiveExecutions} (serial : Nat)
    (hissued : s'.issued = s.issued) (hlt : serial < s.issued)
    (hcalls : ∀ other, other ≠ serial → s'.calls.get? other = s.calls.get? other)
    (hexecutions : ∀ other, other ≠ serial → s'.executions.get? other = s.executions.get? other)
    (hapart : ∀ call, s'.calls.get? serial = some call → s'.executions.get? serial = none)
    (hcount : ∀ type, (s'.queues type).capacity =
      c.limits type - s'.held.countP (·.1 = type) - (s'.queues type).queue.length)
    (honce : s'.held.Nodup)
    (hheld : ∀ type other, other ≠ serial → ((type, other) ∈ s'.held ↔ (type, other) ∈ s.held))
    (hholds : ∀ type, (type, serial) ∈ s'.held ↔ HoldsSlot c s'.calls s'.executions type serial)
    (hwaiting : ∀ type, ∀ item ∈ (s'.queues type).queue,
      item ∈ (s.queues type).queue ∧ item.resolve.serial ≠ serial ∨
        item.resolve.serial = serial ∧ IsThrottled c s'.calls type item.resolve)
    (hwaitingOnce : ∀ type, ((s'.queues type).queue.map (·.resolve.serial)).Nodup)
    (hreleased : s'.releasedTwice = []) : Slots c s' where
  fresh other hle := by
    rw [hissued] at hle
    have hne : other ≠ serial := by omega
    rw [hcalls other hne, hexecutions other hne]
    exact h.fresh other hle
  apart other call hget := by
    by_cases hne : other = serial
    · subst hne
      exact hapart call hget
    · rw [hcalls other hne] at hget
      exact (hexecutions other hne).trans (h.apart other call hget)
  count := hcount
  heldOnce := honce
  held_iff type other := by
    by_cases hne : other = serial
    · subst hne
      exact hholds type
    · rw [hheld type other hne, h.held_iff, HoldsSlot, HoldsSlot, hcalls other hne,
        hexecutions other hne]
  waiting type item hitem := by
    rcases hwaiting type item hitem with ⟨hold, hne⟩ | ⟨-, hthrottled⟩
    · obtain ⟨mode, hget, hqueue⟩ := h.waiting type item hold
      exact ⟨mode, (hcalls _ hne).trans hget, hqueue⟩
    · exact hthrottled
  waitingOnce := hwaitingOnce
  releasedOnce := hreleased

/-- A step that leaves the queues and the slots alone keeps the account when the number has a slot
afterwards if it had one before, and does not wait for one. -/
theorem Slots.change_same (h : Slots c s) (serial : Nat)
    (activeExecutions : InsertionMap String Nat) (hlt : serial < s.issued)
    (hcalls : ∀ other, other ≠ serial → calls.get? other = s.calls.get? other)
    (hexecutions : ∀ other, other ≠ serial → executions.get? other = s.executions.get? other)
    (hapart : ∀ call, calls.get? serial = some call → executions.get? serial = none)
    (hholds : ∀ type, HoldsSlot c s.calls s.executions type serial ↔
      HoldsSlot c calls executions type serial)
    (hwaits : ∀ mode executionId, s.calls.get? serial ≠ some ⟨mode, .throttled executionId⟩) :
    Slots c { s with calls, executions, activeExecutions } := by
  refine h.change serial rfl hlt hcalls hexecutions hapart h.count h.heldOnce
    (fun _ _ _ => Iff.rfl) (fun type => (h.held_iff type serial).trans (hholds type))
    (fun type item hitem => .inl ⟨hitem, fun heq => ?_⟩) h.waitingOnce h.releasedOnce
  obtain ⟨mode, hget, -⟩ := h.waiting type item hitem
  exact hwaits _ _ (heq ▸ hget)

theorem Slots.lt_of_call (h : Slots c s) {call : AddCall} (hget : s.calls.get? serial = some call) :
    serial < s.issued := by
  by_contra hle
  rw [(h.fresh serial (not_lt.mp hle)).1] at hget
  cases hget

theorem Slots.lt_of_execution (h : Slots c s) (hget : s.executions.get? serial = some execution) :
    serial < s.issued := by
  by_contra hle
  rw [(h.fresh serial (not_lt.mp hle)).2] at hget
  cases hget

theorem holds_slot_of_call {phase : AddPhase} (hcall : calls.get? serial = some ⟨mode, phase⟩)
    (hexecution : executions.get? serial = none) :
    HoldsSlot c calls executions type serial ↔
      (∃ executionId, phase = .persisting executionId) ∧ c.queueOf mode = some type := by
  rw [HoldsSlot, hcall, hexecution]
  constructor
  · rintro (⟨mode', id, heq, hqueue⟩ | ⟨_, hget, -⟩)
    · cases heq
      exact ⟨⟨id, rfl⟩, hqueue⟩
    · cases hget
  · rintro ⟨⟨id, rfl⟩, hqueue⟩
    exact .inl ⟨mode, id, rfl, hqueue⟩

theorem holds_slot_of_execution (hcall : calls.get? serial = none)
    (hexecution : executions.get? serial = some execution) :
    HoldsSlot c calls executions type serial ↔
      execution.removed = false ∧ c.queueOf execution.mode = some type := by
  rw [HoldsSlot, hcall, hexecution]
  constructor
  · rintro (⟨_, _, hget, -⟩ | ⟨execution', heq, hholds⟩)
    · cases hget
    · cases heq
      exact hholds
  · exact fun hholds => .inr ⟨execution, rfl, hholds⟩

theorem not_holds_slot_of_none (hcall : calls.get? serial = none)
    (hexecution : executions.get? serial = none) : ¬ HoldsSlot c calls executions type serial := by
  rintro (⟨_, _, hget, -⟩ | ⟨_, hget, -⟩)
  · rw [hcall] at hget
    cases hget
  · rw [hexecution] at hget
    cases hget

theorem Slots.no_call (h : Slots c s) (hget : s.executions.get? serial = some execution) :
    s.calls.get? serial = none := by
  cases hcall : s.calls.get? serial with
  | none => rfl
  | some call =>
    rw [h.apart serial call hcall] at hget
    cases hget

theorem Slots.drop_call (h : Slots c s) {phase : AddPhase}
    (hcall : s.calls.get? serial = some ⟨mode, phase⟩)
    (hphase : phase = .creating ∨ (∃ executionId, phase = .persisting executionId) ∧
      c.queueOf mode = none) :
    Slots c { s with calls := s.calls.delete serial } := by
  have hexecution := h.apart serial _ hcall
  refine h.change_same serial s.activeExecutions (h.lt_of_call hcall)
    (fun other hne => (InsertionMap.get_delete _ _ _).trans (if_neg hne)) (fun _ _ => rfl)
    (fun _ _ => hexecution) (fun type => ?_) fun mode' id hget => ?_
  · have hfree : ¬ HoldsSlot c s.calls s.executions type serial := by
      rw [holds_slot_of_call hcall hexecution]
      rintro ⟨⟨id, rfl⟩, hqueue⟩
      rcases hphase with heq | ⟨-, hnone⟩
      · cases heq
      · rw [hnone] at hqueue
        cases hqueue
    exact iff_of_false hfree (not_holds_slot_of_none (by simp [InsertionMap.get_delete]) hexecution)
  · rw [hcall] at hget
    cases hget
    rcases hphase with heq | ⟨⟨_, heq⟩, -⟩
    · cases heq
    · cases heq

theorem Slots.register (h : Slots c s) {phase : AddPhase}
    (hcall : s.calls.get? serial = some ⟨mode, phase⟩)
    (hphase : phase = .persisting executionId ∨ phase = .creating ∧ c.queueOf mode = none) :
    Slots c (s.register serial mode executionId) := by
  have hexecution := h.apart serial _ hcall
  have hdeleted : (s.calls.delete serial).get? serial = none := by simp [InsertionMap.get_delete]
  refine h.change_same serial (s.activeExecutions.set executionId serial) (h.lt_of_call hcall)
    (fun other hne => (InsertionMap.get_delete _ _ _).trans (if_neg hne))
    (fun other hne => InsertionMap.get_set_other _ _ hne)
    (fun call hget => by rw [hdeleted] at hget; cases hget) (fun type => ?_) fun mode' id hget => ?_
  · rw [holds_slot_of_call hcall hexecution,
      holds_slot_of_execution hdeleted (InsertionMap.get_set_same _ _ _)]
    refine and_congr_left fun hqueue => iff_of_true ?_ rfl
    rcases hphase with rfl | ⟨-, hnone⟩
    · exact ⟨_, rfl⟩
    · rw [hnone] at hqueue
      cases hqueue
  · rw [hcall] at hget
    cases hget
    rcases hphase with heq | ⟨heq, -⟩
    · cases heq
    · cases heq

theorem Slots.set_execution (h : Slots c s) {execution' : IExecutingWorkflowData}
    (hget : s.executions.get? serial = some execution) (hmode : execution'.mode = execution.mode)
    (hremoved : execution'.removed = execution.removed) :
    Slots c (s.setExecution serial execution') := by
  have hcall := h.no_call hget
  refine h.change_same serial s.activeExecutions (h.lt_of_execution hget) (fun _ _ => rfl)
    (fun other hne => InsertionMap.get_set_other _ _ hne)
    (fun call hget => by rw [hcall] at hget; cases hget) (fun type => ?_)
    fun mode' id hget => by rw [hcall] at hget; cases hget
  rw [holds_slot_of_execution hcall hget,
    holds_slot_of_execution hcall (InsertionMap.get_set_same _ _ _), hmode, hremoved]

theorem Slots.start_call (h : Slots c s) :
    Slots c { s with calls := s.calls.set s.issued ⟨mode, .creating⟩, issued := s.issued + 1 } := by
  obtain ⟨hcall, hexecution⟩ := h.fresh s.issued le_rfl
  refine h.issue.change_same s.issued s.activeExecutions (Nat.lt_succ_self _)
    (fun other hne => InsertionMap.get_set_other _ _ hne) (fun _ _ => rfl) (fun _ _ => hexecution)
    (fun type => iff_of_false (not_holds_slot_of_none hcall hexecution) ?_)
    fun mode' id hget => by rw [hcall] at hget; cases hget
  rw [holds_slot_of_call (InsertionMap.get_set_same _ _ _) hexecution]
  rintro ⟨⟨id, heq⟩, -⟩
  cases heq

/-- A step that touches one number and the queue of one type keeps the account when it does so
there. -/
theorem Slots.change_queue (h : Slots c s) (serial : Nat) (type : ConcurrencyQueueType)
    {queue : ConcurrencyQueue Ticket} {held : List (ConcurrencyQueueType × Nat)}
    (hlt : serial < s.issued)
    (hcalls : ∀ other, other ≠ serial → calls.get? other = s.calls.get? other)
    (hexecutions : ∀ other, other ≠ serial → executions.get? other = s.executions.get? other)
    (hapart : ∀ call, calls.get? serial = some call → executions.get? serial = none)
    (hcapacity : queue.capacity = c.limits type - held.countP (·.1 = type) - queue.queue.length)
    (hcount : ∀ other, other ≠ type → held.countP (·.1 = other) = s.held.countP (·.1 = other))
    (honce : held.Nodup)
    (hheld : ∀ type other, other ≠ serial → ((type, other) ∈ held ↔ (type, other) ∈ s.held))
    (hholds : ∀ type, (type, serial) ∈ held ↔ HoldsSlot c calls executions type serial)
    (hothers : ∀ other, other ≠ type → ∀ item ∈ (s.queues other).queue,
      item.resolve.serial ≠ serial)
    (hwaiting : ∀ item ∈ queue.queue,
      item ∈ (s.queues type).queue ∧ item.resolve.serial ≠ serial ∨
        item.resolve.serial = serial ∧ IsThrottled c calls type item.resolve)
    (hwaitingOnce : (queue.queue.map (·.resolve.serial)).Nodup) :
    Slots c { s with queues := Function.update s.queues type queue, calls, executions, held } := by
  refine h.change serial rfl hlt hcalls hexecutions hapart (fun type' => ?_) honce hheld hholds
    (fun type' item hitem => ?_) (fun type' => ?_) h.releasedOnce
  · by_cases hne : type' = type
    · subst hne
      simpa only [Function.update_self] using hcapacity
    · simpa only [Function.update_of_ne hne, hcount type' hne] using h.count type'
  · by_cases hne : type' = type
    · subst hne
      exact hwaiting item (by simpa only [Function.update_self] using hitem)
    · have hold : item ∈ (s.queues type').queue := by
        simpa only [Function.update_of_ne hne] using hitem
      exact .inl ⟨hold, hothers type' hne item hold⟩
  · by_cases hne : type' = type
    · subst hne
      simpa only [Function.update_self] using hwaitingOnce
    · simpa only [Function.update_of_ne hne] using h.waitingOnce type'

theorem Slots.throttle (h : Slots c s) (hlt : serial < s.issued)
    (hcall : ∀ call, s.calls.get? serial = some call → call.phase = .creating)
    (hexecution : s.executions.get? serial = none) :
    Slots c (ActiveExecutions.throttle c s serial mode executionId) := by
  have hfree : ∀ type, ¬ HoldsSlot c s.calls s.executions type serial := by
    rintro type (⟨mode, id, hget, -⟩ | ⟨execution, hget, -⟩)
    · cases hcall _ hget
    · rw [hexecution] at hget
      cases hget
  have hwaits : ∀ mode executionId,
      s.calls.get? serial ≠ some ⟨mode, .throttled executionId⟩ := by
    intro mode id hget
    cases hcall _ hget
  unfold ActiveExecutions.throttle
  cases hqueue : c.queueOf mode with
  | none =>
    refine h.change_same serial s.activeExecutions hlt
      (fun other hne => InsertionMap.get_set_other _ _ hne) (fun _ _ => rfl)
      (fun _ _ => hexecution) (fun type => iff_of_false (hfree type) ?_) hwaits
    rw [holds_slot_of_call (InsertionMap.get_set_same _ _ _) hexecution, hqueue]
    rintro ⟨-, hnone⟩
    cases hnone
  | some type =>
    have hcalls : ∀ phase other, other ≠ serial →
        (s.calls.set serial ⟨mode, phase⟩).get? other = s.calls.get? other :=
      fun phase other hne => InsertionMap.get_set_other _ _ hne
    have hitems : ∀ type, ∀ item ∈ (s.queues type).queue, item.resolve.serial ≠ serial := by
      intro type item hitem heq
      obtain ⟨mode, hget, -⟩ := h.waiting type item hitem
      exact hwaits _ _ (heq ▸ hget)
    have hcapacity := h.count type
    have hnew : ∀ type, (type, serial) ∉ s.held := fun type hmem =>
      hfree _ ((h.held_iff _ _).mp hmem)
    dsimp only [ConcurrencyQueue.enqueue]
    split
    · -- the call waits
      simp only [↓reduceIte]
      refine h.change_queue serial type hlt (hcalls _) (fun _ _ => rfl) (fun _ _ => hexecution)
        ?_ (fun _ _ => rfl) h.heldOnce (fun _ _ _ => Iff.rfl)
        (fun type' => iff_of_false (hnew type') ?_) (fun other _ => hitems other)
        (fun item hitem => ?_) ?_
      · simp only [List.length_append, List.length_cons, List.length_nil]
        omega
      · rw [holds_slot_of_call (InsertionMap.get_set_same _ _ _) hexecution]
        rintro ⟨⟨id, heq⟩, -⟩
        cases heq
      · rw [List.mem_append, List.mem_singleton] at hitem
        rcases hitem with hold | rfl
        · exact .inl ⟨hold, hitems _ item hold⟩
        · exact .inr ⟨rfl, mode, InsertionMap.get_set_same _ _ _, hqueue⟩
      · rw [List.map_append]
        refine List.nodup_append.mpr ⟨h.waitingOnce _, List.nodup_singleton _, ?_⟩
        intro other hother other' hother' heq
        obtain ⟨item, hitem, rfl⟩ := List.mem_map.mp hother
        exact hitems _ item hitem (heq.trans (List.mem_singleton.mp hother'))
    · -- the call is let through at once
      simp only [Bool.false_eq_true, ↓reduceIte]
      refine h.change_queue serial type hlt (hcalls _) (fun _ _ => rfl) (fun _ _ => hexecution)
        ?_ (fun other hne => ?_) ?_ (fun type' other hne => ?_) (fun type' => ?_)
        (fun other _ => hitems other) (fun item hitem => .inl ⟨hitem, hitems _ item hitem⟩)
        (h.waitingOnce type)
      · simp only [List.countP_append, List.countP_singleton, decide_true, if_true]
        omega
      · simp [List.countP_append, hne.symm]
      · exact List.nodup_append.mpr ⟨h.heldOnce, List.nodup_singleton _, fun a ha b hb heq =>
          hnew type (List.mem_singleton.mp hb ▸ heq ▸ ha)⟩
      · simp [hne]
      · rw [holds_slot_of_call (InsertionMap.get_set_same _ _ _) hexecution, hqueue]
        simp [hnew, eq_comm]

/-- The call that waited longest is let through, which takes no capacity. -/
def letNext (s : ActiveExecutions) (type : ConcurrencyQueueType) : ActiveExecutions :=
  match (s.queues type).queue with
  | [] => s
  | item :: rest =>
    letThrough type
      { s with queues := Function.update s.queues type { s.queues type with queue := rest } }
      item.resolve

theorem release_eq (hqueue : c.queueOf mode = some type) (hheld : (type, serial) ∈ s.held) :
    release c s serial mode =
      { letNext s type with
        queues := Function.update (letNext s type).queues type
          { (letNext s type).queues type with
            capacity := ((letNext s type).queues type).capacity + 1 }
        held := (letNext s type).held.erase (type, serial) } := by
  unfold release letNext
  simp only [hqueue, ConcurrencyQueue.dequeue, ConcurrencyQueue.resolveNext, if_pos hheld]
  cases hitems : (s.queues type).queue with
  | nil => simp [resolved, hitems]
  | cons item rest =>
    simp [resolved, letThrough, List.erase_append_left _ hheld, Function.update_idem]

theorem let_next_executions (s : ActiveExecutions) (type : ConcurrencyQueueType) :
    (letNext s type).executions = s.executions := by
  unfold letNext
  split <;> rfl

theorem let_next_set_execution (s : ActiveExecutions) (type : ConcurrencyQueueType) :
    letNext (s.setExecution serial execution) type =
      { letNext s type with executions := (letNext s type).executions.set serial execution } := by
  unfold letNext setExecution
  cases (s.queues type).queue <;> rfl

theorem Slots.let_next (h : Slots c s) (type : ConcurrencyQueueType) :
    Slots c (letNext s type) := by
  unfold letNext
  cases hitems : (s.queues type).queue with
  | nil => exact h
  | cons item rest =>
    obtain ⟨mode, hget, hqueue⟩ := h.waiting type item (hitems ▸ List.mem_cons_self)
    have hexecution := h.apart _ _ hget
    have hnew : ∀ type, (type, item.resolve.serial) ∉ s.held := by
      intro type hmem
      rw [h.held_iff, holds_slot_of_call hget hexecution] at hmem
      obtain ⟨⟨id, heq⟩, -⟩ := hmem
      cases heq
    have honce := h.waitingOnce type
    rw [hitems, List.map_cons, List.nodup_cons] at honce
    have hcapacity := h.count type
    rw [hitems] at hcapacity
    simp only [letThrough, hget]
    refine h.change_queue item.resolve.serial type (h.lt_of_call hget)
      (fun other hne => InsertionMap.get_set_other _ _ hne) (fun _ _ => rfl)
      (fun _ _ => hexecution) ?_ (fun other hne => ?_) ?_ (fun type' other hne => ?_)
      (fun type' => ?_) (fun other hne other' hother heq => ?_) (fun other hother => ?_) honce.2
    · simp only [List.countP_append, List.countP_singleton, decide_true, if_true,
        List.length_cons] at hcapacity ⊢
      omega
    · simp [List.countP_append, hne.symm]
    · exact List.nodup_append.mpr ⟨h.heldOnce, List.nodup_singleton _, fun a ha b hb heq =>
        hnew type (List.mem_singleton.mp hb ▸ heq ▸ ha)⟩
    · simp [hne]
    · rw [holds_slot_of_call (InsertionMap.get_set_same _ _ _) hexecution, hqueue]
      simp [hnew, eq_comm]
    · -- a call waits for a slot of its own type only
      obtain ⟨mode', hget', hqueue'⟩ := h.waiting other other' hother
      rw [heq, hget] at hget'
      obtain ⟨rfl, -⟩ := AddCall.mk.inj (Option.some.inj hget')
      rw [hqueue] at hqueue'
      exact hne (Option.some.inj hqueue').symm
    · refine .inl ⟨hitems ▸ List.mem_cons_of_mem _ hother, fun heq => honce.1 ?_⟩
      exact List.mem_map.mpr ⟨other, hother, heq⟩

theorem Slots.remove_active (h : Slots c s) : Slots c (s.removeActive executionId) where
  fresh := h.fresh
  apart := h.apart
  count := h.count
  heldOnce := h.heldOnce
  held_iff := h.held_iff
  waiting := h.waiting
  waitingOnce := h.waitingOnce
  releasedOnce := h.releasedOnce

theorem get_execution_eq_some_iff :
    s.getExecution executionId = some (serial, execution) ↔
      s.activeExecutions.get? executionId = some serial ∧
        s.executions.get? serial = some execution := by
  simp [getExecution, Option.bind_eq_some_iff]

theorem Slots.callback (h : Slots c s) (hget : s.executions.get? serial = some execution)
    (hremoved : execution.removed = false) : Slots c (runCallback c s serial execution) := by
  have hcall := h.no_call hget
  have hset : ∀ executions : InsertionMap Nat IExecutingWorkflowData,
      (executions.set serial { execution with removed := true }).get? serial =
        some { execution with removed := true } :=
    fun executions => InsertionMap.get_set_same _ _ _
  have hreleased : Slots c (release c
      (s.setExecution serial { execution with removed := true }) serial execution.mode) := by
    cases hqueue : c.queueOf execution.mode with
    | none =>
      simp only [release, hqueue]
      refine h.change_same serial s.activeExecutions (h.lt_of_execution hget) (fun _ _ => rfl)
        (fun other hne => InsertionMap.get_set_other _ _ hne)
        (fun call hget => by rw [hcall] at hget; cases hget) (fun type => ?_)
        fun mode' id hget => by rw [hcall] at hget; cases hget
      rw [holds_slot_of_execution hcall hget, holds_slot_of_execution hcall (hset _), hqueue]
      simp
    | some type =>
      have hnext := h.let_next type
      have hnextGet : (letNext s type).executions.get? serial = some execution := by
        rw [let_next_executions]
        exact hget
      have hnextCall := hnext.no_call hnextGet
      have hholds : (type, serial) ∈ (letNext s type).held := by
        rw [hnext.held_iff, holds_slot_of_execution hnextCall hnextGet]
        exact ⟨hremoved, hqueue⟩
      have hheld : (type, serial) ∈ s.held := by
        rw [h.held_iff, holds_slot_of_execution hcall hget]
        exact ⟨hremoved, hqueue⟩
      rw [release_eq (s := s.setExecution serial { execution with removed := true }) hqueue hheld,
        let_next_set_execution]
      refine hnext.change_queue serial type (hnext.lt_of_execution hnextGet) (fun _ _ => rfl)
        (fun other hne => InsertionMap.get_set_other _ _ hne)
        (fun call hget => by rw [hnextCall] at hget; cases hget) ?_ (fun other hne => ?_)
        (hnext.heldOnce.erase _) (fun type' other hne => ?_) (fun type' => ?_)
        (fun other _ item hitem heq => ?_) (fun item hitem => .inl ⟨hitem, fun heq => ?_⟩)
        (hnext.waitingOnce type)
      · have hpos : 0 < (letNext s type).held.countP (·.1 = type) :=
          List.countP_pos_iff.mpr ⟨_, hholds, by simp⟩
        have hcapacity := hnext.count type
        rw [List.countP_erase, if_pos ⟨hholds, by simp⟩]
        dsimp only
        omega
      · rw [List.countP_erase, if_neg fun hmem => hne (of_decide_eq_true hmem.2).symm,
          Nat.sub_zero]
      · exact List.mem_erase_of_ne fun heq => hne (congrArg Prod.snd heq)
      · rw [holds_slot_of_execution hnextCall (hset _)]
        refine iff_of_false (fun hmem => ?_) fun hholds => by cases hholds.1
        have hmem' := List.mem_of_mem_erase hmem
        rw [hnext.held_iff, holds_slot_of_execution hnextCall hnextGet, hqueue] at hmem'
        cases hmem'.2
        exact hnext.heldOnce.not_mem_erase hmem
      · obtain ⟨mode', hget', -⟩ := hnext.waiting other item hitem
        rw [heq, hnextCall] at hget'
        cases hget'
      · obtain ⟨mode', hget', -⟩ := hnext.waiting type item hitem
        rw [heq, hnextCall] at hget'
        cases hget'
  unfold runCallback
  split
  · exact hreleased
  · exact hreleased.remove_active

theorem Slots.step_some {s' : ActiveExecutions} {e : ExecutionEvent} (h : Slots c s)
    (hkeeps : KeepsSlots c s e) (hstep : step c s e = some s') : Slots c s' := by
  cases e with
  | add mode executionId =>
    cases executionId with
    | none =>
      cases hstep
      exact h.start_call
    | some executionId =>
      cases hstep
      obtain ⟨hcall, hexecution⟩ := h.fresh s.issued le_rfl
      exact h.issue.throttle (Nat.lt_succ_self _)
        (fun call hget => by rw [hcall] at hget; cases hget) hexecution
  | created serial result =>
    dsimp only [step] at hstep
    split at hstep
    · rename_i hcall
      cases hstep
      exact h.drop_call hcall (.inl rfl)
    · rename_i mode executionId hcall
      split at hstep
      · cases hstep
        refine h.throttle (h.lt_of_call hcall) (fun call hget => ?_) (h.apart _ _ hcall)
        rw [hcall] at hget
        cases hget
        rfl
      · rename_i hregular
        cases hstep
        have hqueue : c.queueOf mode = none := by
          simp [ConcurrencySettings.queueOf, ConcurrencySettings.isEnabled, hregular]
        exact h.register hcall (.inr ⟨rfl, hqueue⟩)
    · cases hstep
  | persisted serial ok =>
    dsimp only [step] at hstep
    split at hstep
    · rename_i mode executionId hcall
      cases ok with
      | true =>
        cases hstep
        exact h.register hcall (.inl rfl)
      | false =>
        cases hstep
        exact h.drop_call hcall (.inr ⟨⟨executionId, rfl⟩, hkeeps _ hcall⟩)
    · cases hstep
  | finalizeExecution executionId =>
    dsimp only [step] at hstep
    split at hstep
    · rename_i serial execution hget
      cases hstep
      exact h.set_execution (get_execution_eq_some_iff.mp hget).2 rfl rfl
    · cases hstep
      exact h
  | stopExecution executionId =>
    dsimp only [step] at hstep
    split at hstep
    · rename_i serial execution hget
      split at hstep
      · cases hstep
        exact h.remove_active
      · cases hstep
        exact h.set_execution (get_execution_eq_some_iff.mp hget).2 rfl rfl
    · cases hstep
      exact h
  | setStatus executionId status =>
    dsimp only [step] at hstep
    split at hstep
    · rename_i serial execution hget
      cases hstep
      exact h.set_execution (get_execution_eq_some_iff.mp hget).2 rfl rfl
    · cases hstep
      exact h
  | callback serial =>
    dsimp only [step] at hstep
    split at hstep
    · rename_i execution hget
      split at hstep
      · rename_i hsettled
        cases hstep
        exact h.callback hget hsettled.2
      · cases hstep
    · cases hstep

end Slots

section Entries

variable (c : ConcurrencySettings)

/-- The executions that still have to release a slot have their entries. -/
structure Entries (s : ActiveExecutions) : Prop where
  kept : ∀ serial execution, s.executions.get? serial = some execution →
    MayDrop c execution ∨ s.activeExecutions.get? execution.executionId = some serial
  known : ∀ executionId serial, s.activeExecutions.get? executionId = some serial →
    ∃ execution, s.executions.get? serial = some execution ∧ execution.executionId = executionId

variable {c} {s : ActiveExecutions} {serial : Nat} {mode : WorkflowExecuteMode}
  {executionId : String} {execution : IExecutingWorkflowData}

theorem Entries.of_eq (h : Entries c s) {s' : ActiveExecutions}
    (hexecutions : s'.executions = s.executions)
    (hactive : s'.activeExecutions = s.activeExecutions) : Entries c s' where
  kept serial execution hget := by
    rw [hexecutions] at hget
    rw [hactive]
    exact h.kept serial execution hget
  known executionId serial hget := by
    rw [hactive] at hget
    rw [hexecutions]
    exact h.known executionId serial hget

theorem throttle_eq :
    (ActiveExecutions.throttle c s serial mode executionId).executions = s.executions ∧
      (ActiveExecutions.throttle c s serial mode executionId).activeExecutions =
        s.activeExecutions := by
  unfold ActiveExecutions.throttle
  split <;> exact ⟨rfl, rfl⟩

theorem release_entries_eq (s : ActiveExecutions) (serial : Nat) (mode : WorkflowExecuteMode) :
    (release c s serial mode).executions = s.executions ∧
      (release c s serial mode).activeExecutions = s.activeExecutions := by
  have hfold : ∀ (type : ConcurrencyQueueType) (tickets : List Ticket) (s : ActiveExecutions),
      (tickets.foldl (letThrough type) s).executions = s.executions ∧
        (tickets.foldl (letThrough type) s).activeExecutions = s.activeExecutions := by
    intro type tickets
    induction tickets with
    | nil => exact fun s => ⟨rfl, rfl⟩
    | cons ticket rest ih => exact fun s => ih (letThrough type s ticket)
  unfold release
  split
  · exact ⟨rfl, rfl⟩
  · exact hfold _ _ _

theorem Entries.register (h : Entries c s) (hnew : s.executions.get? serial = none)
    (hreplace : MayReplace c s executionId) : Entries c (s.register serial mode executionId) where
  kept other execution hget := by
    simp only [ActiveExecutions.register, InsertionMap.get_set] at hget ⊢
    split at hget
    · rename_i heq
      cases hget
      exact .inr (by rw [if_pos rfl, heq])
    · rcases h.kept other execution hget with hdrop | hactive
      · exact .inl hdrop
      · by_cases hid : execution.executionId = executionId
        · have hentry := get_execution_eq_some_iff.mpr ⟨hid ▸ hactive, hget⟩
          exact .inl (hreplace (other, execution) hentry)
        · exact .inr (by rwa [if_neg hid])
  known id other hget := by
    simp only [ActiveExecutions.register, InsertionMap.get_set] at hget ⊢
    split at hget
    · rename_i heq
      cases hget
      exact ⟨_, if_pos rfl, heq.symm⟩
    · obtain ⟨execution, hexecution, hid⟩ := h.known id other hget
      refine ⟨execution, ?_, hid⟩
      rwa [if_neg]
      rintro rfl
      rw [hnew] at hexecution
      cases hexecution

theorem Entries.set_execution (h : Entries c s) {execution' : IExecutingWorkflowData}
    (hget : s.executions.get? serial = some execution)
    (hid : execution'.executionId = execution.executionId)
    (hkept : MayDrop c execution' ∨
      s.activeExecutions.get? execution'.executionId = some serial) :
    Entries c (s.setExecution serial execution') where
  kept other execution'' hget' := by
    simp only [setExecution, InsertionMap.get_set] at hget' ⊢
    split at hget'
    · rename_i heq
      cases hget'
      exact heq ▸ hkept
    · exact h.kept other execution'' hget'
  known id other hactive := by
    obtain ⟨execution'', hexecution, hid'⟩ := h.known id other hactive
    simp only [setExecution, InsertionMap.get_set]
    by_cases heq : other = serial
    · subst heq
      rw [hget] at hexecution
      cases hexecution
      exact ⟨execution', if_pos rfl, hid.trans hid'⟩
    · exact ⟨execution'', by rwa [if_neg heq], hid'⟩

theorem Entries.set_active (h : Entries c s) {execution' : IExecutingWorkflowData}
    (hget : s.getExecution executionId = some (serial, execution))
    (hid : execution'.executionId = execution.executionId) :
    Entries c (s.setExecution serial execution') := by
  obtain ⟨hactive, hexecution⟩ := get_execution_eq_some_iff.mp hget
  refine h.set_execution hexecution hid (.inr ?_)
  obtain ⟨execution'', hexecution', hid'⟩ := h.known _ _ hactive
  rw [hexecution] at hexecution'
  cases hexecution'
  rwa [hid, hid']

theorem Entries.remove_active (h : Entries c s)
    (hdrop : ∀ serial execution, s.getExecution executionId = some (serial, execution) →
      MayDrop c execution) : Entries c (s.removeActive executionId) where
  kept serial execution hget := by
    rcases h.kept serial execution hget with hmay | hactive
    · exact .inl hmay
    · simp only [removeActive, InsertionMap.get_delete]
      by_cases hid : execution.executionId = executionId
      · exact .inl (hdrop serial execution (get_execution_eq_some_iff.mpr ⟨hid ▸ hactive, hget⟩))
      · exact .inr (by rwa [if_neg hid])
  known id serial hget := by
    simp only [removeActive, InsertionMap.get_delete] at hget
    split at hget
    · cases hget
    · exact h.known id serial hget

theorem Entries.callback (h : Entries c s) (hget : s.executions.get? serial = some execution)
    (hsettled : execution.settled = true) (hremoved : execution.removed = false) :
    Entries c (runCallback c s serial execution) := by
  have hset : Entries c (s.setExecution serial { execution with removed := true }) :=
    h.set_execution hget rfl (.inl (.inl rfl))
  obtain ⟨hexecutions, hactive⟩ := release_entries_eq (c := c)
    (s.setExecution serial { execution with removed := true }) serial execution.mode
  have hreleased := hset.of_eq hexecutions hactive
  unfold runCallback
  split
  · exact hreleased
  · rename_i hstatus
    refine hreleased.remove_active fun other execution' hget' => ?_
    rw [get_execution_eq_some_iff, hexecutions, hactive] at hget'
    -- the execution is settled and does not wait, so the entry under its id is its own
    have hown : s.activeExecutions.get? execution.executionId = some serial := by
      refine (h.kept serial execution hget).resolve_left ?_
      rintro (hdone | ⟨-, hwaits⟩ | ⟨-, hpending⟩)
      · rw [hremoved] at hdone
        cases hdone
      · exact hstatus hwaits
      · rw [hsettled] at hpending
        cases hpending
    obtain ⟨hactive', hexecution'⟩ := hget'
    have hsame : other = serial := Option.some.inj (hactive'.symm.trans hown)
    subst hsame
    simp only [setExecution, InsertionMap.get_set_same, Option.some.injEq] at hexecution'
    exact .inl (hexecution' ▸ rfl)

theorem Entries.step_some {s' : ActiveExecutions} {e : ExecutionEvent} (h : Entries c s)
    (hslots : Slots c s) (hkeeps : KeepsSlots c s e) (hstep : step c s e = some s') :
    Entries c s' := by
  cases e with
  | add mode executionId =>
    cases executionId with
    | none =>
      cases hstep
      exact h.of_eq rfl rfl
    | some executionId =>
      cases hstep
      exact h.of_eq throttle_eq.1 throttle_eq.2
  | created serial result =>
    dsimp only [step] at hstep
    split at hstep
    · cases hstep
      exact h.of_eq rfl rfl
    · rename_i mode executionId hcall
      split at hstep
      · cases hstep
        exact h.of_eq throttle_eq.1 throttle_eq.2
      · rename_i hregular
        cases hstep
        exact h.register (hslots.apart _ _ hcall) (hkeeps (by simpa using hregular))
    · cases hstep
  | persisted serial ok =>
    dsimp only [step] at hstep
    split at hstep
    · rename_i mode executionId hcall
      cases ok with
      | true =>
        cases hstep
        exact h.register (hslots.apart _ _ hcall) (hkeeps _ hcall executionId rfl)
      | false =>
        cases hstep
        exact h.of_eq rfl rfl
    · cases hstep
  | finalizeExecution executionId =>
    dsimp only [step] at hstep
    split at hstep
    · rename_i serial execution hget
      cases hstep
      exact h.set_active hget rfl
    · cases hstep
      exact h
  | stopExecution executionId =>
    dsimp only [step] at hstep
    split at hstep
    · rename_i serial execution hget
      split at hstep
      · rename_i hwaits
        cases hstep
        refine h.remove_active fun other execution' hget' => ?_
        rw [hget] at hget'
        cases hget'
        exact hkeeps _ hget hwaits
      · cases hstep
        exact h.set_active hget rfl
    · cases hstep
      exact h
  | setStatus executionId status =>
    dsimp only [step] at hstep
    split at hstep
    · rename_i serial execution hget
      cases hstep
      exact h.set_active hget rfl
    · cases hstep
      exact h
  | callback serial =>
    dsimp only [step] at hstep
    split at hstep
    · rename_i execution hget
      split at hstep
      · rename_i hsettled
        cases hstep
        exact h.callback hget hsettled.1 hsettled.2
      · cases hstep
    · cases hstep

end Entries

section Runs

variable {c : ConcurrencySettings} {s : ActiveExecutions}

theorem initial_slots : Slots c (initial c) where
  fresh _ _ := ⟨rfl, rfl⟩
  apart _ _ hget := by cases hget
  count type := by simp [initial, ConcurrencyQueue.create]
  heldOnce := List.nodup_nil
  held_iff type serial := by
    refine iff_of_false List.not_mem_nil (not_holds_slot_of_none rfl rfl)
  waiting _ _ hitem := by cases hitem
  waitingOnce _ := List.nodup_nil
  releasedOnce := rfl

theorem initial_entries : Entries c (initial c) where
  kept _ _ hget := by cases hget
  known _ _ hget := by cases hget

/-- When nothing is active or starting, nobody has a slot. -/
theorem held_of_idle (hslots : Slots c s) (hentries : Entries c s) (hidle : s.Idle) :
    s.held = [] := by
  refine List.eq_nil_iff_forall_not_mem.mpr fun ⟨type, serial⟩ hmem => ?_
  rcases (hslots.held_iff type serial).mp hmem with ⟨mode, id, hget, -⟩ |
    ⟨execution, hget, hremoved, hqueue⟩
  · rw [InsertionMap.get_eq_some_iff, hidle.notStarting] at hget
    cases hget
  · have hdone : execution.removed = true := by
      rcases hentries.kept serial execution hget with (hdone | ⟨hsettled, -⟩ | ⟨hnone, -⟩) | hactive
      · exact hdone
      · exact hidle.calledBack serial execution hget hsettled
      · rw [hnone] at hqueue
        cases hqueue
      · exact hidle.notActive _ _ _ (get_execution_eq_some_iff.mpr ⟨hactive, hget⟩)
    rw [hremoved] at hdone
    cases hdone

/-- In every run that meets the condition, no slot is released twice, and whenever nothing is active
or starting all slots are released and the capacities are at their limits. -/
theorem capacity_conserved (h : Reachable (step c) (KeepsSlots c) (initial c) s) :
    CapacityConserved c s := by
  obtain ⟨hslots, hentries⟩ := h.keeps (fun s => Slots c s ∧ Entries c s)
    ⟨initial_slots, initial_entries⟩ fun s e s' ⟨hslots, hentries⟩ hkeeps hstep =>
      ⟨hslots.step_some hkeeps hstep, hentries.step_some hslots hkeeps hstep⟩
  refine ⟨hslots.releasedOnce, fun hidle => ?_⟩
  have hheld := held_of_idle hslots hentries hidle
  refine ⟨hheld, fun type => ?_⟩
  have hqueue : (s.queues type).queue = [] := by
    refine List.eq_nil_iff_forall_not_mem.mpr fun item hitem => ?_
    obtain ⟨mode, hget, -⟩ := hslots.waiting type item hitem
    rw [InsertionMap.get_eq_some_iff, hidle.notStarting] at hget
    cases hget
  have hcount := hslots.count type
  rw [hheld, hqueue] at hcount
  simpa using hcount

/-- Regular mode with one slot for production executions. -/
def oneSlot : ConcurrencySettings where
  regular := true
  limit
    | .production => 1
    | .evaluation => -1
  limit_ne_zero type := by cases type <;> decide

/-- The second of two executions waits for the slot of the first; it is resumed later and ends. -/
def resumedRun : Option ActiveExecutions :=
  runAllowed (step oneSlot) (KeepsSlots oneSlot) (initial oneSlot)
    [.add .webhook none, .add .trigger none, .created 0 (some "1"), .created 1 (some "2"),
      .persisted 0 true, .finalizeExecution "1", .callback 0, .persisted 1 true,
      .setStatus "2" .waiting, .finalizeExecution "2", .callback 1, .add .webhook (some "2"),
      .persisted 2 true, .stopExecution "2", .callback 2]

/-- At the end of the run the slot is free again. -/
theorem capacity_conserved_resumed :
    ∃ s, resumedRun = some s ∧ s.issued = 3 ∧ CapacityConserved oneSlot s := by
  obtain ⟨s, hs, hissued⟩ : ∃ s, resumedRun = some s ∧ s.issued = 3 := by
    refine Option.map_eq_some_iff.mp (?_ : resumedRun.map issued = some 3)
    decide +kernel
  exact ⟨s, hs, hissued, capacity_conserved (reachable_of_runAllowed .start hs)⟩

/-- A new execution gets the slot, and then the update of its row fails. -/
def failedUpdate : Option ActiveExecutions :=
  run (step oneSlot) (initial oneSlot)
    [.add .webhook none, .created 0 (some "1"), .persisted 0 false]

/-- The slot of the failed call is never released. -/
theorem capacity_lost_by_failure :
    ¬ ∀ c s, Reachable (step c) (fun _ _ => True) (initial c) s → CapacityConserved c s := by
  intro h
  obtain ⟨s, hs, hfields⟩ : ∃ s, failedUpdate = some s ∧
      (s.calls.entries.length, s.executions.entries.length, s.held) =
        (0, 0, [(.production, 0)]) := by
    refine Option.map_eq_some_iff.mp (?_ : failedUpdate.map (fun s =>
      (s.calls.entries.length, s.executions.entries.length, s.held)) = some _)
    decide +kernel
  obtain ⟨hcalls, hexecutions, hheld⟩ : s.calls.entries = [] ∧ s.executions.entries = [] ∧
      s.held = [(.production, 0)] := by
    simpa using hfields
  have hnone : ∀ serial execution, s.executions.get? serial ≠ some execution := by
    intro serial execution hget
    rw [InsertionMap.get_eq_some_iff, hexecutions] at hget
    cases hget
  have hidle : s.Idle := ⟨hcalls,
    fun id serial execution hget => absurd (get_execution_eq_some_iff.mp hget).2 (hnone _ _),
    fun serial execution hget => absurd hget (hnone _ _)⟩
  have hempty := ((h oneSlot s (reachable_of_run hs)).backAtLimit hidle).1
  rw [hheld] at hempty
  cases hempty

end Runs

end ActiveExecutions

end N8n.Concurrency
