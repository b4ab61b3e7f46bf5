import N8n.Concurrency.Debounce
import N8n.Transition.Runs

/-!
# What the debounced handler drops

One debounced handler stands between all messages that ask for it and the event bus, so a message
that arrives while another one waits replaces it, whatever the two are. As long as such messages
are equal, every message that an instance takes is emitted, or an equal one in its place.
-/

namespace N8n.Scaling

open Concurrency Transition

/-! ## Commands between instances

`Publisher.publishCommand` and the message handler of `Subscriber`, in `packages/cli/src/scaling/
pubsub`. A message is emitted on the event bus of the instance at once, or through one debounced
handler for all messages that ask for it. The messages that the instance takes are numbered in the
order in which they arrive; the state records which of them were emitted, and which were replaced
in the debounced handler before it was invoked.
-/

/-- The commands of `PubSub.Command`. -/
inductive CommandName where
  | reloadLicense
  | restartEventBus
  | reloadExternalSecretsProviders
  | communityPackageInstall
  | communityPackageUpdate
  | communityPackageUninstall
  | getWorkerId
  | getWorkerStatus
  | addWebhooksTriggersAndPollers
  | removeTriggersAndPollers
  | displayWorkflowActivation
  | displayWorkflowDeactivation
  | displayWorkflowActivationError
  | relayExecutionLifecycleEvent
  | clearTestWebhooks
  deriving DecidableEq, Repr

/-- Commands that are sent to the sender as well. -/
def selfSendCommands : List CommandName :=
  [.addWebhooksTriggersAndPollers, .removeTriggersAndPollers]

/-- Commands that are not debounced when received. -/
def immediateCommands : List CommandName :=
  [.addWebhooksTriggersAndPollers, .removeTriggersAndPollers, .relayExecutionLifecycleEvent]

/-- The responses of `PubSub.WorkerResponse`. -/
inductive ResponseName where
  | responseToGetWorkerStatus
  deriving DecidableEq, Repr

/-- A command with a payload of `π`, unless it carries none. -/
structure PubSubCommand (π : Type) where
  command : CommandName
  payload : Option π := none
  senderId : Option String := none
  targets : Option (List String) := none
  selfSend : Option Bool := none
  debounce : Option Bool := none
  deriving DecidableEq, Repr

structure WorkerResponse (π : Type) where
  response : ResponseName
  payload : Option π := none
  senderId : String
  targets : Option (List String) := none
  debounce : Option Bool := none
  deriving DecidableEq, Repr

/-- A message on one of the two channels. -/
inductive PubSubMessage (π : Type) where
  | command (msg : PubSubCommand π)
  | workerResponse (msg : WorkerResponse π)
  deriving DecidableEq, Repr

/-- The names of the events of `PubSubEventBus`. -/
inductive EventName where
  | command (name : CommandName)
  | response (name : ResponseName)
  deriving DecidableEq, Repr

namespace PubSubMessage

variable {π : Type}

/-- What `handlerFn` emits for the message. -/
def event : PubSubMessage π → EventName × Option π
  | .command msg => (.command msg.command, msg.payload)
  | .workerResponse msg => (.response msg.response, msg.payload)

/-- Is the message debounced? -/
def debounced : PubSubMessage π → Bool
  | .command msg => msg.debounce.getD false
  | .workerResponse msg => msg.debounce.getD false

/-- Is the message for the instance? The sender and the targets of responses are not checked. -/
def isFor (hostId : String) : PubSubMessage π → Bool
  | .command msg =>
    msg.selfSend.getD false ||
      !(decide (msg.senderId = some hostId) || msg.targets.any fun targets =>
        !targets.contains hostId)
  | .workerResponse _ => true

end PubSubMessage

/-- The command as the publisher sends it. -/
def publishCommand {π : Type} (hostId : String) (msg : PubSubCommand π) : PubSubCommand π :=
  { msg with
    senderId := some hostId
    selfSend := some (selfSendCommands.contains msg.command)
    debounce := some (!immediateCommands.contains msg.command) }

/-- How long messages are debounced, in milliseconds. -/
def debounceTime : Nat := 300

/-- A debounced handler of numbered messages. -/
abbrev DebouncedHandler (π : Type) := Debouncer (Nat × PubSubMessage π) debounceTime

/-- The state of a subscriber: its debounced handler, the messages that the instance took, what was
emitted for which of them, and which were replaced by which before the handler was invoked. -/
structure SubscriberState {π : Type} (handler : DebouncedHandler π) where
  debounced : handler.State
  received : List (PubSubMessage π)
  emitted : List (Nat × EventName × Option π)
  replaced : List (Nat × Nat)

inductive SubscriberEvent (π : Type) where
  /-- A text arrives; `none` when it is malformed. -/
  | message (now : Nat) (parsed : Option (PubSubMessage π))
  /-- The timer of the debounced handler expires. -/
  | timer (now : Nat)
  deriving DecidableEq, Repr

namespace SubscriberState

variable {π : Type} {handler : DebouncedHandler π}

/-- The message that waits to be handled. -/
def pending (s : SubscriberState handler) : Option (Nat × PubSubMessage π) :=
  (handler.pending s.debounced).map Prod.fst

/-- `handlerFn`. -/
def handlerFn (s : SubscriberState handler) (msg : Nat × PubSubMessage π) :
    SubscriberState handler :=
  { s with emitted := s.emitted ++ [(msg.1, msg.2.event)] }

/-- `debouncedHandlerFn`. -/
def debouncedHandlerFn (s : SubscriberState handler) (now : Nat) (msg : Nat × PubSubMessage π) :
    SubscriberState handler :=
  { s with
    debounced := handler.call s.debounced now msg
    replaced := s.replaced ++ (s.pending.map fun old => (old.1, msg.1)).toList }

/-- A message arrives at the instance. -/
def onMessage (hostId : String) (s : SubscriberState handler) (now : Nat) :
    Option (PubSubMessage π) → SubscriberState handler
  | none => s
  | some msg =>
    if msg.isFor hostId then
      let number := s.received.length
      let s := { s with received := s.received ++ [msg] }
      if msg.debounced then s.debouncedHandlerFn now (number, msg) else s.handlerFn (number, msg)
    else s

/-- The timer of the debounced handler expires. -/
def onTimer (s : SubscriberState handler) (now : Nat) : SubscriberState handler :=
  let expired := handler.expire s.debounced now
  let s := { s with debounced := expired.1 }
  match expired.2 with
  | some msg => s.handlerFn msg
  | none => s

/-- The state after an event. -/
def step (hostId : String) (s : SubscriberState handler) :
    SubscriberEvent π → Option (SubscriberState handler)
  | .message now parsed => some (s.onMessage hostId now parsed)
  | .timer now => some (s.onTimer now)

/-- The state of a new subscriber. -/
def initial (handler : DebouncedHandler π) : SubscriberState handler :=
  ⟨handler.start, [], [], []⟩

end SubscriberState

/-! ## What the debounced handler drops -/

variable {π : Type} {handler : DebouncedHandler π}

namespace SubscriberState

variable {s : SubscriberState handler}

/-- A debounced message arrives while none waits, or one with the same event. -/
def mergesEqual (hostId : String) (s : SubscriberState handler) : SubscriberEvent π → Prop
  | .message _ (some msg) =>
    msg.isFor hostId ∧ msg.debounced →
      ∀ old ∈ s.pending, msg.event = old.2.event
  | .message _ none => True
  | .timer _ => True

instance [DecidableEq π] (hostId : String) (s : SubscriberState handler) :
    DecidablePred (s.mergesEqual hostId)
  | .message _ (some msg) =>
    match hpending : s.pending with
    | some old =>
      decidable_of_iff (msg.isFor hostId ∧ msg.debounced → msg.event = old.2.event) (by
        simp only [mergesEqual, hpending, Option.mem_def, Option.some.injEq, forall_eq'])
    | none => isTrue fun _ old hold => by cases hpending ▸ hold
  | .message _ none => isTrue trivial
  | .timer _ => isTrue trivial

/-- The messages that were taken are emitted, or wait, or were replaced by a later and equal one. -/
structure NotDropped (s : SubscriberState handler) : Prop where
  /-- What becomes of each message. -/
  accounted : ∀ i msg, s.received[i]? = some msg →
    (i, msg.event) ∈ s.emitted ∨ s.pending = some (i, msg) ∨ ∃ j, (i, j) ∈ s.replaced
  /-- De-bouncing only merges messages with the same command and payload. -/
  merged : ∀ i j, (i, j) ∈ s.replaced → i < j ∧
    ∃ old msg, s.received[i]? = some old ∧ s.received[j]? = some msg ∧ old.event = msg.event
  /-- The command and payload of each message are emitted in answer to it or a later message, or
  wait to be. -/
  delivered : ∀ i msg, s.received[i]? = some msg → ∃ j later, i ≤ j ∧
    s.received[j]? = some later ∧ later.event = msg.event ∧
    ((j, later.event) ∈ s.emitted ∨ s.pending = some (j, later))
  /-- What waits is emitted when the timer expires once the time is over. -/
  handled : ∀ i msg last now, handler.pending s.debounced = some ((i, msg), last) →
    last + debounceTime ≤ now → (i, msg.event) ∈ (s.onTimer now).emitted

/-- What the events keep: the message that waits was received, and each received message is in one
of three places. -/
structure Accounted (s : SubscriberState handler) : Prop where
  waits : ∀ i msg, s.pending = some (i, msg) → s.received[i]? = some msg
  accounted : ∀ i msg, s.received[i]? = some msg →
    (i, msg.event) ∈ s.emitted ∨ s.pending = some (i, msg) ∨ ∃ j, (i, j) ∈ s.replaced
  merged : ∀ i j, (i, j) ∈ s.replaced → i < j ∧
    ∃ old msg, s.received[i]? = some old ∧ s.received[j]? = some msg ∧ old.event = msg.event

section Steps

variable {hostId : String} {event : SubscriberEvent π}

theorem initial_accounted (handler : DebouncedHandler π) : Accounted (initial handler) where
  waits i msg h := by
    rw [pending, initial, handler.pending_start] at h
    cases h
  accounted _ _ h := by cases h
  merged _ _ h := by cases h

theorem getElem?_append_of_some {l : List (PubSubMessage π)} {i : Nat} {x : PubSubMessage π}
    (h : l[i]? = some x) (y : PubSubMessage π) : (l ++ [y])[i]? = some x := by
  obtain ⟨hlt, hget⟩ := List.getElem?_eq_some_iff.mp h
  rw [List.getElem?_append_left hlt, h]

theorem getElem?_append_singleton {l : List (PubSubMessage π)} {i : Nat} {x y : PubSubMessage π}
    (h : (l ++ [y])[i]? = some x) : l[i]? = some x ∨ i = l.length ∧ x = y := by
  obtain hlt | hle := Nat.lt_or_ge i l.length
  · rw [List.getElem?_append_left hlt] at h
    exact .inl h
  · rw [List.getElem?_append_right hle] at h
    obtain ⟨hindex, hx⟩ := List.getElem?_eq_some_iff.mp h
    simp only [List.length_cons, List.length_nil, Nat.zero_add, Nat.lt_one_iff] at hindex
    exact .inr ⟨by omega, by simpa using hx.symm⟩

theorem Accounted.immediate (h : Accounted s) (msg : PubSubMessage π) :
    Accounted
      (({ s with received := s.received ++ [msg] } : SubscriberState handler).handlerFn
        (s.received.length, msg)) where
  waits i old hold := getElem?_append_of_some (h.waits i old hold) msg
  accounted i old hold := by
    obtain hold | ⟨rfl, rfl⟩ := getElem?_append_singleton hold
    · obtain hemitted | hrest := h.accounted i old hold
      · exact .inl (List.mem_append_left _ hemitted)
      · exact .inr hrest
    · exact .inl (List.mem_append_right _ (List.mem_singleton_self _))
  merged i j hreplaced := by
    obtain ⟨hlt, old, new, hold, hnew, hevent⟩ := h.merged i j hreplaced
    exact ⟨hlt, old, new, getElem?_append_of_some hold msg, getElem?_append_of_some hnew msg,
      hevent⟩

theorem Accounted.debounced (h : Accounted s) (now : Nat) (msg : PubSubMessage π)
    (hequal : ∀ old ∈ s.pending, msg.event = old.2.event) :
    Accounted
      (({ s with received := s.received ++ [msg] } : SubscriberState handler).debouncedHandlerFn
        now (s.received.length, msg)) := by
  have hpending : ∀ i old,
      (({ s with received := s.received ++ [msg] } : SubscriberState handler).debouncedHandlerFn
        now (s.received.length, msg)).pending = some (i, old) ↔
      i = s.received.length ∧ old = msg := by
    intro i old
    rw [pending, debouncedHandlerFn, handler.pending_call, Option.map_some, Option.some.injEq,
      Prod.mk.injEq]
    exact ⟨fun ⟨hi, hold⟩ => ⟨hi.symm, hold.symm⟩, fun ⟨hi, hold⟩ => ⟨hi.symm, hold.symm⟩⟩
  have hreplaced : ∀ i j,
      (i, j) ∈ (({ s with received := s.received ++ [msg] } :
        SubscriberState handler).debouncedHandlerFn now (s.received.length, msg)).replaced ↔
      (i, j) ∈ s.replaced ∨ (∃ old, s.pending = some (i, old)) ∧ j = s.received.length := by
    intro i j
    show (i, j) ∈ s.replaced ++ (s.pending.map fun old => (old.1, s.received.length)).toList ↔ _
    simp only [List.mem_append, Option.mem_toList, Option.map_eq_some_iff, Prod.mk.injEq,
      Prod.exists]
    constructor
    · rintro (hmem | ⟨k, old, hold, rfl, rfl⟩)
      · exact .inl hmem
      · exact .inr ⟨⟨old, hold⟩, rfl⟩
    · rintro (hmem | ⟨⟨old, hold⟩, rfl⟩)
      · exact .inl hmem
      · exact .inr ⟨i, old, hold, rfl, rfl⟩
  refine ⟨fun i old hold => ?_, fun i old hold => ?_, fun i j hmem => ?_⟩
  · obtain ⟨rfl, rfl⟩ := (hpending i old).mp hold
    exact List.getElem?_concat_length ..
  · obtain hold | ⟨rfl, rfl⟩ := getElem?_append_singleton hold
    · -- the message that waited so far is replaced by the new one
      obtain hemitted | hwaits | ⟨j, hmem⟩ := h.accounted i old hold
      · exact .inl hemitted
      · exact .inr (.inr ⟨_, (hreplaced i _).mpr (.inr ⟨⟨old, hwaits⟩, rfl⟩)⟩)
      · exact .inr (.inr ⟨j, (hreplaced i j).mpr (.inl hmem)⟩)
    · exact .inr (.inl ((hpending _ _).mpr ⟨rfl, rfl⟩))
  · obtain hmem | ⟨⟨old, hold⟩, rfl⟩ := (hreplaced i j).mp hmem
    · obtain ⟨hlt, old, new, hold, hnew, hevent⟩ := h.merged i j hmem
      exact ⟨hlt, old, new, getElem?_append_of_some hold msg, getElem?_append_of_some hnew msg,
        hevent⟩
    · have hget := h.waits i old hold
      obtain ⟨hlt, -⟩ := List.getElem?_eq_some_iff.mp hget
      exact ⟨hlt, old, msg, getElem?_append_of_some hget msg, List.getElem?_concat_length ..,
        (hequal _ hold).symm⟩

theorem Accounted.onTimer (h : Accounted s) (now : Nat) : Accounted (s.onTimer now) := by
  obtain ⟨hnone, hsame⟩ | ⟨⟨i, msg⟩, last, hwaits, hsome, hidle⟩ :=
    handler.expire_cases s.debounced now
  · have hpending : (s.onTimer now).pending = s.pending := by
      simp only [SubscriberState.onTimer, hnone, pending, hsame]
    have hlists : (s.onTimer now).received = s.received ∧ (s.onTimer now).emitted = s.emitted ∧
        (s.onTimer now).replaced = s.replaced := by
      simp only [SubscriberState.onTimer, hnone, and_self]
    obtain ⟨hreceived, hemitted, hreplaced⟩ := hlists
    refine ⟨?_, ?_, ?_⟩
    · rw [hpending, hreceived]
      exact h.waits
    · rw [hpending, hreceived, hemitted, hreplaced]
      exact h.accounted
    · rw [hreceived, hreplaced]
      exact h.merged
  · have hpending : (s.onTimer now).pending = none := by
      simp only [SubscriberState.onTimer, hsome, pending, handlerFn, hidle, Option.map_none]
    have hlists : (s.onTimer now).received = s.received ∧
        (s.onTimer now).emitted = s.emitted ++ [(i, msg.event)] ∧
        (s.onTimer now).replaced = s.replaced := by
      simp only [SubscriberState.onTimer, hsome, handlerFn, and_self]
    obtain ⟨hreceived, hemitted, hreplaced⟩ := hlists
    refine ⟨?_, ?_, ?_⟩
    · intro j old hold
      rw [hpending] at hold
      cases hold
    · rw [hreceived, hemitted, hreplaced]
      intro j old hold
      obtain hmem | hpend | hrest := h.accounted j old hold
      · exact .inl (List.mem_append_left _ hmem)
      · rw [pending, hwaits] at hpend
        cases hpend
        exact .inl (List.mem_append_right _ (List.mem_singleton_self _))
      · exact .inr (.inr hrest)
    · rw [hreceived, hreplaced]
      exact h.merged

theorem Accounted.step (h : Accounted s) {s' : SubscriberState handler}
    (hequal : s.mergesEqual hostId event) (hstep : step hostId s event = some s') :
    Accounted s' := by
  cases event with
  | message now parsed =>
    cases hstep
    cases parsed with
    | none => exact h
    | some msg =>
      simp only [onMessage]
      split
      · rename_i hfor
        split
        · rename_i hdebounced
          exact h.debounced now msg (hequal ⟨hfor, hdebounced⟩)
        · exact h.immediate msg
      · exact h
  | timer now =>
    cases hstep
    exact h.onTimer now

end Steps

theorem Accounted.delivered (h : Accounted s) {i : Nat} {msg : PubSubMessage π}
    (hget : s.received[i]? = some msg) : ∃ j later, i ≤ j ∧ s.received[j]? = some later ∧
      later.event = msg.event ∧ ((j, later.event) ∈ s.emitted ∨ s.pending = some (j, later)) := by
  -- each replacement leads to a later message, and there are finitely many
  induction hleft : s.received.length - i using Nat.strongRecOn generalizing i msg with
  | _ left ih =>
    obtain hemitted | hwaits | ⟨j, hreplaced⟩ := h.accounted i msg hget
    · exact ⟨i, msg, Nat.le_refl i, hget, rfl, .inl hemitted⟩
    · exact ⟨i, msg, Nat.le_refl i, hget, rfl, .inr hwaits⟩
    · obtain ⟨hlt, old, new, hold, hnew, hevent⟩ := h.merged i j hreplaced
      cases hget.symm.trans hold
      obtain ⟨hi, -⟩ := List.getElem?_eq_some_iff.mp hget
      obtain ⟨k, later, hjk, hk, hsame, hplace⟩ := ih (s.received.length - j) (by omega) hnew rfl
      exact ⟨k, later, Nat.le_trans (Nat.le_of_lt hlt) hjk, hk, hsame.trans hevent.symm, hplace⟩

theorem onTimer_emits {i last now : Nat} {msg : PubSubMessage π}
    (hwaits : handler.pending s.debounced = some ((i, msg), last))
    (hdue : last + debounceTime ≤ now) : (i, msg.event) ∈ (s.onTimer now).emitted := by
  obtain ⟨hsome, -⟩ := handler.expire_due s.debounced now _ last hwaits (.inl hdue)
  simp only [onTimer, hsome, handlerFn, List.mem_append, List.mem_singleton, or_true]

/-- No message is dropped when those that meet in the debounced handler are equal. -/
theorem not_dropped {hostId : String}
    (h : Reachable (step hostId) (mergesEqual hostId) (initial handler) s) : NotDropped s := by
  have hinv : Accounted s :=
    h.keeps Accounted (initial_accounted handler) fun _ _ _ hs hequal hstep => hs.step hequal hstep
  exact ⟨hinv.accounted, hinv.merged, fun _ _ hget => hinv.delivered hget,
    fun _ _ _ _ => onTimer_emits⟩

/-- Reload the license, as another main asks for it. -/
def reloadLicense : PubSubMessage Unit :=
  .command (publishCommand "main-2" { command := .reloadLicense })

/-- Install a community package, as another main asks for it. -/
def communityPackageInstall : PubSubMessage Unit :=
  .command (publishCommand "main-2" { command := .communityPackageInstall, payload := some () })

/-- The license is asked to be reloaded twice, and a package to be installed later. -/
theorem separate_commands_not_dropped : ∃ s,
    Reachable (step "main-1") (mergesEqual "main-1")
        (initial (Debouncer.trailing (Nat × PubSubMessage Unit) debounceTime)) s ∧
      NotDropped s ∧ s.emitted = [(1, reloadLicense.event), (2, communityPackageInstall.event)] ∧
      s.replaced = [(0, 1)] := by
  obtain ⟨s, hs, hlists⟩ : ∃ s,
      runAllowed (step "main-1") (mergesEqual "main-1")
        (initial (Debouncer.trailing (Nat × PubSubMessage Unit) debounceTime))
        [.message 0 (some reloadLicense), .message 100 (some reloadLicense), .timer 400,
          .message 500 (some communityPackageInstall), .timer 800] = some s ∧
      (s.emitted, s.replaced) =
        ([(1, reloadLicense.event), (2, communityPackageInstall.event)], [(0, 1)]) := by
    refine Option.map_eq_some_iff.mp ?_
    decide +kernel
  simp only [Prod.mk.injEq] at hlists
  have hreach := reachable_of_runAllowed .start hs
  exact ⟨s, hreach, not_dropped hreach, hlists⟩

/-- A package that is installed within the debounce time keeps the license from being reloaded. -/
theorem installation_drops_reload :
    ¬ ∀ s : SubscriberState (Debouncer.trailing (Nat × PubSubMessage Unit) debounceTime),
      Reachable (step "main-1") (fun _ _ => True) (initial _) s → NotDropped s := by
  intro h
  obtain ⟨s, hs, hlists⟩ : ∃ s,
      run (step "main-1") (initial (Debouncer.trailing (Nat × PubSubMessage Unit) debounceTime))
        [.message 0 (some reloadLicense), .message 100 (some communityPackageInstall),
          .timer 400] = some s ∧
      (s.received[0]?.map (·.event.1), s.emitted.map (·.2.1), s.pending.isSome) =
        (some (.command .reloadLicense), [.command .communityPackageInstall], false) := by
    refine Option.map_eq_some_iff.mp ?_
    decide +kernel
  simp only [Prod.mk.injEq] at hlists
  obtain ⟨hreceived, hemitted, hpending⟩ := hlists
  obtain ⟨msg, hmsg, hreload⟩ := Option.map_eq_some_iff.mp hreceived
  obtain ⟨j, later, -, -, hevent, hmem | hwaits⟩ :=
    (h s (reachable_of_run hs)).delivered 0 msg hmsg
  · have hname := List.mem_map_of_mem (f := (·.2.1)) hmem
    rw [hemitted, List.mem_singleton, hevent, hreload] at hname
    cases hname
  · rw [hwaits] at hpending
    cases hpending

end SubscriberState

end N8n.Scaling
