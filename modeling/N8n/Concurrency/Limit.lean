import Mathlib.Data.List.Infix

/-!
# The concurrency limit

A run of the queue together with the executions that use it: each `enqueue` either admits its
execution at once or hands it a promise, a resolved promise admits the execution that holds
it, and an admitted execution calls `dequeue` at most once. `run_invariant` relates the
capacity to the executions admitted and waiting, and `limit_kept_iff` says in which runs the
number of admitted executions stays within the limit.
-/

namespace N8n.Concurrency

/-! ## The concurrency queue

`ConcurrencyQueue` of `packages/cli/src/concurrency/concurrency-queue.ts`: a signed capacity
and the executions that wait for it. `enqueue` takes one unit of capacity and lets the
execution wait when none was left, `dequeue` gives one unit back and lets the next execution
through, and `remove` takes a waiting execution out of the queue. Every call also returns its
effects in order: the events it emits and the promises it resolves.
-/

/-- The events of `ConcurrencyEvents`, with their payloads. -/
inductive ConcurrencyEvent where
  | executionThrottled (executionId : String)
  | executionReleased (executionId : String)
  | concurrencyCheck (capacity : Int)
  deriving DecidableEq, Repr

/-- What a call does to the outside: it emits an event (`concurrency-check` is debounced), or
calls the `resolve` of a promise that an earlier `enqueue` returned. -/
inductive Effect (Resolve : Type) where
  | emit (event : ConcurrencyEvent)
  | debouncedEmit (event : ConcurrencyEvent)
  | resolve (resolve : Resolve)
  deriving DecidableEq, Repr

/-- An entry of the queue: a waiting execution with the `resolve` of its promise. -/
structure QueueItem (Resolve : Type) where
  executionId : String
  resolve : Resolve
  deriving DecidableEq, Repr

/-- The state of a `ConcurrencyQueue`. -/
structure ConcurrencyQueue (Resolve : Type) where
  capacity : Int
  queue : List (QueueItem Resolve)
  deriving DecidableEq, Repr

namespace ConcurrencyQueue

variable {Resolve : Type}

/-- `new ConcurrencyQueue(capacity)`. -/
def create (capacity : Int) : ConcurrencyQueue Resolve := ⟨capacity, []⟩

/-- `resolveNext()`: the execution that waited longest gets its promise resolved. -/
def resolveNext (q : ConcurrencyQueue Resolve) :
    ConcurrencyQueue Resolve × List (Effect Resolve) :=
  match q.queue with
  | [] => (q, [])
  | item :: rest =>
    ({ q with queue := rest },
      [.emit (.executionReleased item.executionId), .resolve item.resolve])

/-- `enqueue(executionId)`. The flag says whether the call returned a pending promise, whose
`resolve` is then the given one. -/
def enqueue (q : ConcurrencyQueue Resolve) (executionId : String) (resolve : Resolve) :
    ConcurrencyQueue Resolve × Bool × List (Effect Resolve) :=
  let capacity := q.capacity - 1
  let check := .debouncedEmit (.concurrencyCheck capacity)
  if capacity < 0 then
    ({ capacity, queue := q.queue ++ [{ executionId, resolve }] }, true,
      [check, .emit (.executionThrottled executionId)])
  else ({ q with capacity }, false, [check])

/-- `dequeue()`. -/
def dequeue (q : ConcurrencyQueue Resolve) : ConcurrencyQueue Resolve × List (Effect Resolve) :=
  resolveNext { q with capacity := q.capacity + 1 }

/-- `remove(executionId)`: drops the first entry of that execution, and then, like `dequeue`,
gives one unit of capacity back and resolves the next promise. -/
def remove (q : ConcurrencyQueue Resolve) (executionId : String) :
    ConcurrencyQueue Resolve × List (Effect Resolve) :=
  match q.queue.findIdx? (·.executionId == executionId) with
  | none => (q, [])
  | some index => resolveNext { capacity := q.capacity + 1, queue := q.queue.eraseIdx index }

/-- `getAll()`: the waiting executions, each once. -/
def getAll (q : ConcurrencyQueue Resolve) : List String :=
  (q.queue.map (·.executionId)).eraseDups

/-- `has(executionId)`. -/
def has (q : ConcurrencyQueue Resolve) (executionId : String) : Bool :=
  q.queue.any (·.executionId == executionId)

theorem remove_of_not_has {q : ConcurrencyQueue Resolve} {executionId : String}
    (h : q.has executionId = false) : q.remove executionId = (q, []) := by
  have hnone : q.queue.findIdx? (·.executionId == executionId) = none := by
    rw [List.findIdx?_eq_none_iff]
    intro item hitem
    simpa using List.any_eq_false.mp h item hitem
  simp [remove, hnone]

theorem remove_of_has {q : ConcurrencyQueue Resolve} {executionId : String}
    (h : q.has executionId = true) :
    ∃ index, index < q.queue.length ∧
      q.remove executionId = dequeue { q with queue := q.queue.eraseIdx index } := by
  have hsome : (q.queue.findIdx? (·.executionId == executionId)).isSome := by
    rw [List.findIdx?_isSome]
    exact h
  obtain ⟨index, hindex⟩ := Option.isSome_iff_exists.mp hsome
  obtain ⟨hlt, _, _⟩ := List.findIdx?_eq_some_iff_getElem.mp hindex
  exact ⟨index, hlt, by simp [remove, hindex, dequeue]⟩

end ConcurrencyQueue

/-! ## The concurrency limit -/

/-- The promise returned by one `enqueue`, told apart from the promises of other calls for the
same execution by the number of the call. -/
structure Ticket where
  executionId : String
  serial : Nat
  deriving DecidableEq, Repr

/-- A queue in use: `running` holds the executions that were admitted and have not called
`dequeue` yet, and `issued` counts the `enqueue` calls so far. -/
structure System where
  queue : ConcurrencyQueue Ticket
  running : List Ticket
  issued : Nat
  deriving DecidableEq, Repr

/-- A call to the queue. `dequeue` is called on behalf of an admitted execution. -/
inductive Call where
  | enqueue (executionId : String)
  | dequeue (ticket : Ticket)
  | remove (executionId : String)
  deriving DecidableEq, Repr

/-- The promises among the effects that got resolved. -/
def resolved (effects : List (Effect Ticket)) : List Ticket :=
  effects.filterMap fun
    | .resolve ticket => some ticket
    | .emit _ | .debouncedEmit _ => none

namespace System

/-- A new queue with the given capacity that nobody uses yet. -/
def create (limit : Nat) : System := ⟨.create limit, [], 0⟩

/-- One call. A `dequeue` for an execution that is not running breaks the callers' discipline
and has no successor. -/
def step (s : System) : Call → Option System
  | .enqueue executionId =>
    let ticket : Ticket := ⟨executionId, s.issued⟩
    let (queue, waits, _) := s.queue.enqueue executionId ticket
    some { queue, running := if waits then s.running else s.running ++ [ticket],
           issued := s.issued + 1 }
  | .dequeue ticket =>
    if ticket ∈ s.running then
      let (queue, effects) := s.queue.dequeue
      some { s with queue, running := s.running.erase ticket ++ resolved effects }
    else none
  | .remove executionId =>
    let (queue, effects) := s.queue.remove executionId
    some { s with queue, running := s.running ++ resolved effects }

end System

/-- `Run limit calls s`: the calls, oldest first, lead from a new queue to the state `s`. -/
inductive Run (limit : Nat) : List Call → System → Prop where
  | start : Run limit [] (.create limit)
  | call {calls : List Call} {s s' : System} (c : Call) :
      Run limit calls s → s.step c = some s' → Run limit (calls ++ [c]) s'

/-- What the capacity counts: the limit less the executions admitted and waiting, and nobody
waits while there is room. -/
structure Accounted (limit : Nat) (s : System) : Prop where
  capacity_eq : s.queue.capacity = limit - s.running.length - s.queue.queue.length
  full_of_waiting : s.queue.queue ≠ [] → limit ≤ s.running.length

theorem resolve_next_lengths (q : ConcurrencyQueue Ticket) :
    q.resolveNext.1.capacity = q.capacity ∧
      q.resolveNext.1.queue = q.queue.tail ∧
      (resolved q.resolveNext.2).length = min 1 q.queue.length := by
  unfold ConcurrencyQueue.resolveNext
  cases h : q.queue with
  | nil => simp [resolved, h]
  | cons item rest => simp [resolved]

variable {limit : Nat} {s s' : System}

theorem create_accounted : Accounted limit (.create limit) where
  capacity_eq := by simp [System.create, ConcurrencyQueue.create]
  full_of_waiting := by simp [System.create, ConcurrencyQueue.create]

variable {executionId : String}

theorem step_enqueue (h : s.step (.enqueue executionId) = some s') :
    (0 < s.queue.capacity ∧ s'.running.length = s.running.length + 1 ∧
        s'.queue.queue = s.queue.queue ∨
      s.queue.capacity ≤ 0 ∧ s'.running = s.running ∧
        s'.queue.queue.length = s.queue.queue.length + 1) ∧
    s'.queue.capacity = s.queue.capacity - 1 := by
  simp only [System.step, ConcurrencyQueue.enqueue] at h
  split at h
  · cases h
    exact ⟨.inr ⟨by omega, by simp⟩, rfl⟩
  · cases h
    exact ⟨.inl ⟨by omega, by simp⟩, rfl⟩

theorem step_dequeue {ticket : Ticket} (h : s.step (.dequeue ticket) = some s') :
    s'.running.length + 1 = s.running.length + min 1 s.queue.queue.length ∧
      s'.queue.queue = s.queue.queue.tail ∧ s'.queue.capacity = s.queue.capacity + 1 := by
  simp only [System.step] at h
  split at h
  case isFalse => cases h
  case isTrue hmem =>
    cases h
    obtain ⟨hcap, hqueue, hres⟩ := resolve_next_lengths
      { s.queue with capacity := s.queue.capacity + 1 }
    have hpos := List.length_pos_of_mem hmem
    have herase := List.length_erase_of_mem hmem
    refine ⟨?_, hqueue, hcap⟩
    simp only [ConcurrencyQueue.dequeue, List.length_append, herase, hres]
    omega

/-- A `remove` that finds a waiting execution takes one entry out of the queue and then
admits the next. -/
theorem step_remove_waiting (hhas : s.queue.has executionId = true)
    (h : s.step (.remove executionId) = some s') :
    s'.running.length = s.running.length + min 1 (s.queue.queue.length - 1) ∧
      s'.queue.queue.length = s.queue.queue.length - 1 - 1 ∧
      s'.queue.capacity = s.queue.capacity + 1 := by
  obtain ⟨index, hlt, heq⟩ := ConcurrencyQueue.remove_of_has hhas
  simp only [System.step, heq] at h
  cases h
  obtain ⟨hcap, hqueue, hres⟩ := resolve_next_lengths
    { capacity := s.queue.capacity + 1, queue := s.queue.queue.eraseIdx index }
  have hlen := List.length_eraseIdx_of_lt hlt
  refine ⟨?_, ?_, hcap⟩
  · simp [ConcurrencyQueue.dequeue, hres, hlen]
  · simp [ConcurrencyQueue.dequeue, hqueue, hlen]

theorem step_remove_absent (hhas : s.queue.has executionId = false) :
    s.step (.remove executionId) = some s := by
  simp [System.step, ConcurrencyQueue.remove_of_not_has hhas, resolved]

theorem step_accounted {c : Call} (hs : Accounted limit s) (h : s.step c = some s') :
    Accounted limit s' := by
  obtain ⟨hcap, hfull⟩ := hs
  cases c with
  | enqueue executionId =>
    obtain ⟨hcase, hcap'⟩ := step_enqueue h
    rcases hcase with ⟨hroom, hrun, hqueue⟩ | ⟨hnone, hrun, hqueue⟩
    · refine ⟨by rw [hcap', hqueue, hrun]; push_cast; omega, fun hne => ?_⟩
      have := hfull (by rwa [hqueue] at hne)
      omega
    · refine ⟨by rw [hcap', hqueue, hrun]; push_cast; omega, fun _ => ?_⟩
      rw [hrun]
      by_cases hwait : s.queue.queue = []
      · simp only [hwait, List.length_nil] at hcap
        omega
      · exact hfull hwait
  | dequeue ticket =>
    obtain ⟨hrun, hqueue, hcap'⟩ := step_dequeue h
    cases hwait : s.queue.queue with
    | nil =>
      simp only [hwait, List.length_nil, List.tail_nil] at hrun hqueue hcap
      exact ⟨by rw [hcap', hqueue]; simp only [List.length_nil]; omega, by simp [hqueue]⟩
    | cons item rest =>
      simp only [hwait, List.length_cons, List.tail_cons] at hrun hqueue hcap
      have := hfull (by simp [hwait])
      exact ⟨by rw [hcap', hqueue]; push_cast at hcap ⊢; omega, fun _ => by omega⟩
  | remove executionId =>
    cases hhas : s.queue.has executionId with
    | false =>
      rw [step_remove_absent hhas] at h
      cases h
      exact ⟨hcap, hfull⟩
    | true =>
      obtain ⟨hrun, hqueue, hcap'⟩ := step_remove_waiting hhas h
      have hne : s.queue.queue ≠ [] := by
        rintro hnil
        simp [ConcurrencyQueue.has, hnil] at hhas
      have hpos := List.length_pos_iff.mpr hne
      have := hfull hne
      exact ⟨by rw [hcap', hqueue, hrun]; omega, fun _ => by omega⟩

theorem run_accounted {calls : List Call} (h : Run limit calls s) : Accounted limit s := by
  induction h with
  | start => exact create_accounted
  | call c _ hstep ih => exact step_accounted ih hstep

/-- The limit holds in every state the calls lead through. -/
def LimitKept (limit : Nat) (calls : List Call) : Prop :=
  ∀ pre s, pre <+: calls → Run limit pre s → s.running.length ≤ limit

/-- No `remove` among the calls resolves the promise of an execution other than its own. -/
def RemoveResolvesNoOther (limit : Nat) (calls : List Call) : Prop :=
  ∀ pre executionId s, pre ++ [.remove executionId] <+: calls → Run limit pre s →
    s.queue.has executionId = true →
    ∀ ticket ∈ resolved (s.queue.remove executionId).2, ticket.executionId = executionId

/-- Each `remove` among the calls that finds its execution waiting finds no other entry. -/
def RemovesOnlySoleWaiting (limit : Nat) (calls : List Call) : Prop :=
  ∀ pre executionId s, pre ++ [.remove executionId] <+: calls → Run limit pre s →
    s.queue.has executionId = true → s.queue.queue.length = 1

theorem remove_sole_resolves_none (hhas : s.queue.has executionId = true)
    (hsole : s.queue.queue.length = 1) : resolved (s.queue.remove executionId).2 = [] := by
  obtain ⟨index, hlt, heq⟩ := ConcurrencyQueue.remove_of_has hhas
  have hnil : s.queue.queue.eraseIdx index = [] := by
    apply List.eq_nil_of_length_eq_zero
    rw [List.length_eraseIdx_of_lt hlt, hsole]
  simp [heq, ConcurrencyQueue.dequeue, ConcurrencyQueue.resolveNext, hnil, resolved]

theorem step_limit {c : Call} (hs : Accounted limit s) (hle : s.running.length ≤ limit)
    (hsole : ∀ executionId, c = .remove executionId → s.queue.has executionId = true →
      s.queue.queue.length = 1)
    (h : s.step c = some s') : s'.running.length ≤ limit := by
  cases c with
  | enqueue executionId =>
    obtain ⟨hcase, _⟩ := step_enqueue h
    have := hs.capacity_eq
    rcases hcase with ⟨hroom, hrun, _⟩ | ⟨_, hrun, _⟩
    · omega
    · rwa [hrun]
  | dequeue ticket =>
    obtain ⟨hrun, _, _⟩ := step_dequeue h
    omega
  | remove executionId =>
    cases hhas : s.queue.has executionId with
    | false =>
      rw [step_remove_absent hhas] at h
      cases h
      exact hle
    | true =>
      obtain ⟨hrun, _, _⟩ := step_remove_waiting hhas h
      have := hsole executionId rfl hhas
      omega

theorem run_limit {calls : List Call} (hrun : Run limit calls s)
    (hsole : RemovesOnlySoleWaiting limit calls) : s.running.length ≤ limit := by
  induction hrun with
  | start => simp [System.create]
  | @call calls s s' c hrun hstep ih =>
    have hprefix : calls <+: calls ++ [c] := List.prefix_append _ _
    refine step_limit (run_accounted hrun)
      (ih fun pre id t hpre => hsole pre id t (hpre.trans hprefix)) ?_ hstep
    rintro executionId rfl hhas
    exact hsole calls executionId s (List.prefix_refl _) hrun hhas

/-- The limit is kept, and no removal of a waiting execution resolves the promise of another,
exactly in the runs in which every removed execution was the only one waiting. -/
theorem limit_kept_iff (limit : Nat) (calls : List Call) :
    LimitKept limit calls ∧ RemoveResolvesNoOther limit calls ↔
      RemovesOnlySoleWaiting limit calls := by
  constructor
  · rintro ⟨hkept, _⟩ pre executionId s hpre hrun hhas
    -- removing one of several waiting executions admits one more than the limit
    obtain ⟨s', hstep⟩ : ∃ s', s.step (.remove executionId) = some s' := ⟨_, rfl⟩
    have hle := hkept _ s' hpre (.call _ hrun hstep)
    obtain ⟨hlen, _, _⟩ := step_remove_waiting hhas hstep
    have hne : s.queue.queue ≠ [] := by
      rintro hnil
      simp [ConcurrencyQueue.has, hnil] at hhas
    have hpos := List.length_pos_iff.mpr hne
    have hfull := (run_accounted hrun).full_of_waiting hne
    omega
  · intro hsole
    constructor
    · intro pre s hpre hrun
      exact run_limit hrun fun pre' id t hpre' => hsole pre' id t (hpre'.trans hpre)
    · intro pre executionId s hpre hrun hhas ticket hticket
      rw [remove_sole_resolves_none hhas (hsole pre executionId s hpre hrun hhas)] at hticket
      cases hticket

/-- Cancelling the second of three executions under a limit of one starts the third while the
first is still running. -/
theorem limit_exceeded_by_remove :
    ¬ LimitKept 1 [.enqueue "1", .enqueue "2", .enqueue "3", .remove "2"] ∧
      ¬ RemoveResolvesNoOther 1 [.enqueue "1", .enqueue "2", .enqueue "3", .remove "2"] := by
  have hrun : Run 1 [.enqueue "1", .enqueue "2", .enqueue "3"]
      ⟨⟨-2, [⟨"2", ⟨"2", 1⟩⟩, ⟨"3", ⟨"3", 2⟩⟩]⟩, [⟨"1", 0⟩], 3⟩ :=
    .call _ (.call _ (.call _ .start rfl) rfl) rfl
  constructor
  · intro hkept
    have := hkept _ _ (List.prefix_refl _) (.call (.remove "2") hrun rfl)
    exact absurd this (by decide)
  · intro hquiet
    have := hquiet _ "2" _ (List.prefix_refl _) hrun (by decide) ⟨"3", 2⟩ (by decide)
    exact absurd this (by decide)

/-! ## The order of admission -/

/-- The promises of the executions that were admitted, and then of those that wait. -/
def System.tickets (s : System) : List Ticket := s.running ++ s.queue.queue.map QueueItem.resolve

/-- The promises are in the order in which they were issued. -/
structure InOrder (s : System) : Prop where
  ordered : s.tickets.Pairwise fun t t' => t.serial < t'.serial
  issued : ∀ t ∈ s.tickets, t.serial < s.issued

theorem InOrder.sublist (h : InOrder s) (hsub : s'.tickets.Sublist s.tickets)
    (hissued : s'.issued = s.issued) : InOrder s' where
  ordered := h.ordered.sublist hsub
  issued t ht := hissued ▸ h.issued t (hsub.subset ht)

theorem InOrder.snoc (h : InOrder s) (executionId : String)
    (htickets : s'.tickets = s.tickets ++ [⟨executionId, s.issued⟩])
    (hissued : s'.issued = s.issued + 1) : InOrder s' where
  ordered := by
    rw [htickets]
    exact List.pairwise_append.mpr ⟨h.ordered, List.pairwise_singleton .., fun t ht t' ht' =>
      List.mem_singleton.mp ht' ▸ h.issued t ht⟩
  issued t ht := by
    rw [htickets] at ht
    rcases List.mem_append.mp ht with hold | hnew
    · have := h.issued t hold
      omega
    · rw [List.mem_singleton.mp hnew, hissued]
      exact Nat.lt_succ_self s.issued

theorem resolve_next_tickets (q : ConcurrencyQueue Ticket) :
    resolved q.resolveNext.2 ++ q.resolveNext.1.queue.map QueueItem.resolve =
      q.queue.map QueueItem.resolve := by
  unfold ConcurrencyQueue.resolveNext
  cases h : q.queue with
  | nil => simp [resolved, h]
  | cons item rest => simp [resolved]

theorem step_in_order {c : Call} (hs : Accounted limit s) (ho : InOrder s)
    (h : s.step c = some s') : InOrder s' := by
  cases c with
  | enqueue executionId =>
      simp only [System.step, ConcurrencyQueue.enqueue] at h
      split at h
      · cases h
        refine ho.snoc executionId ?_ rfl
        simp [System.tickets]
      · cases h
        -- nobody waits when there is room
        have hnone : s.queue.queue = [] := by
          by_contra hwait
          have hcap := hs.capacity_eq
          have hfull := hs.full_of_waiting hwait
          omega
        refine ho.snoc executionId ?_ rfl
        simp [System.tickets, hnone]
  | dequeue ticket =>
      simp only [System.step] at h
      split at h
      · cases h
        have hrest : resolved s.queue.dequeue.2 ++ s.queue.dequeue.1.queue.map QueueItem.resolve =
            s.queue.queue.map QueueItem.resolve :=
          resolve_next_tickets { s.queue with capacity := s.queue.capacity + 1 }
        refine ho.sublist ?_ rfl
        show (s.running.erase ticket ++ resolved s.queue.dequeue.2 ++
          s.queue.dequeue.1.queue.map QueueItem.resolve).Sublist _
        rw [List.append_assoc, hrest]
        exact List.erase_sublist.append_right _
      · cases h
  | remove executionId =>
      cases hhas : s.queue.has executionId with
      | false =>
          rw [step_remove_absent hhas] at h
          cases h
          exact ho
      | true =>
          cases h
          obtain ⟨index, -, heq⟩ := ConcurrencyQueue.remove_of_has hhas
          have hrest : resolved (s.queue.remove executionId).2 ++
              (s.queue.remove executionId).1.queue.map QueueItem.resolve =
                (s.queue.queue.eraseIdx index).map QueueItem.resolve := by
            rw [heq]
            exact resolve_next_tickets _
          refine ho.sublist ?_ rfl
          show (s.running ++ resolved (s.queue.remove executionId).2 ++
            (s.queue.remove executionId).1.queue.map QueueItem.resolve).Sublist _
          rw [List.append_assoc, hrest]
          exact ((List.eraseIdx_sublist ..).map _).append_left _

/-- In every run, also when waiting executions are removed, those that run called before those that
wait, who are admitted in the order of their calls, and nobody waits while there is room. -/
theorem admitted_in_order {calls : List Call} (h : Run limit calls s) :
    (s.tickets.Pairwise fun t t' => t.serial < t'.serial) ∧
      (s.queue.queue ≠ [] → limit ≤ s.running.length) := by
  have horder : InOrder s := by
    induction h with
    | start => exact ⟨List.Pairwise.nil, fun t ht => absurd ht List.not_mem_nil⟩
    | call c hrun hstep ih => exact step_in_order (run_accounted hrun) ih hstep
  exact ⟨horder.ordered, (run_accounted h).full_of_waiting⟩

/-- The third of three executions under a limit of one starts when the second is removed. -/
theorem admitted_in_order_removed :
    Run 1 [.enqueue "1", .enqueue "2", .enqueue "3", .remove "2"]
        ⟨⟨-1, []⟩, [⟨"1", 0⟩, ⟨"3", 2⟩], 3⟩ ∧
      ([⟨"1", 0⟩, ⟨"3", 2⟩] : List Ticket).Pairwise fun t t' => t.serial < t'.serial := by
  have hrun : Run 1 [.enqueue "1", .enqueue "2", .enqueue "3", .remove "2"]
      ⟨⟨-1, []⟩, [⟨"1", 0⟩, ⟨"3", 2⟩], 3⟩ :=
    .call _ (.call _ (.call _ (.call _ .start rfl) rfl) rfl) rfl
  exact ⟨hrun, (admitted_in_order hrun).1⟩

end N8n.Concurrency
