import N8n.EventBus.LogAnswers
import N8n.Transition.Runs

/-!
# Messages stay unsent until a destination has them

The reader drops a message from the unsent ones at the first confirm of its id, whichever
destination it comes from. A message in the files that are read is dropped only after one of the
destinations that were subscribed to it has confirmed it, or when it had no destination at the time
it was sent.
-/

namespace N8n.EventBus

open Transition

/-! ## Destinations of the event bus

The bus writes a message to the log and emits it to its destinations, each of which may confirm it
later (`send`, `emitMessage`, `shouldSendMsg`, `confirmSent` and `trySendingUnsent` of
`packages/cli/src/eventbus/message-event-bus/message-event-bus.ts`, and the destinations in
`packages/cli/src/eventbus/message-event-bus-destination`). The messages that are not confirmed are
rebuilt from the log. The worker thread handles its commands in their order; that it may lag behind
is left out, as are the test messages that go to one destination. The ids of messages are unique.
-/

/-- A destination of the event bus. -/
structure Destination where
  id : List Char
  enabled : Bool
  subscribedEvents : List (List Char)
  deriving DecidableEq

def Destination.hasSubscribedToEvent (destination : Destination) (msg : EventMessage) : Bool :=
  destination.enabled &&
    destination.subscribedEvents.any fun eventName =>
      eventName = ['*'] || eventName.isPrefixOf msg.eventName.text

/-- A destination that has received a message. -/
structure Reception where
  destination : Destination
  msg : EventMessage
  deriving DecidableEq

/-- The event bus with its log, what its destinations have received without an outcome, and the
messages of `trySendingUnsent` that it has not emitted yet. `sent` are the messages there were,
`unmatched` those that had no destination when they were sent, and `confirmed` what the destinations
have confirmed. -/
structure BusState where
  worker : LogWorker
  isLogStreamingEnabled : Bool
  destinations : List Destination
  receptions : List Reception
  retries : List EventMessage
  sent : List EventMessage
  unmatched : List EventMessage
  confirmed : List Reception

inductive BusEvent where
  /-- A process starts, with the destinations of the database. -/
  | start (isLogStreamingEnabled : Bool) (destinations : List Destination)
  | send (msg : EventMessage)
  | addDestination (destination : Destination)
  | removeDestination (id : List Char)
  | setLogStreamingEnabled (isLogStreamingEnabled : Bool)
  /-- A destination confirms what it has received. -/
  | confirm (index : Nat)
  /-- A destination fails, and does not confirm. -/
  | fail (index : Nat)
  /-- `trySendingUnsent` has read the log. -/
  | readUnsent
  /-- `trySendingUnsent` emits its next message. -/
  | retry
  /-- The worker knows the size of the current file. -/
  | checkFileSize (size : Nat)

namespace BusState

variable (options : LogWriterOptions)

/-- `getMessagesUnsent`, with the default history of one rotated file. -/
def unsentMessages (s : BusState) : List EventMessage :=
  (getMessages options s.worker.files .unsent 1).loggedMessages

/-- `uniqBy(messages, 'id')`. -/
def uniqById (msgs : List EventMessage) : List EventMessage :=
  msgs.foldl
    (fun uniq msg => if uniq.any (·.id = msg.id) then uniq else uniq ++ [msg]) []

def shouldSendMsg (s : BusState) (msg : EventMessage) : Bool :=
  s.isLogStreamingEnabled && decide (0 < s.destinations.length) &&
    s.destinations.any (·.hasSubscribedToEvent msg)

def post (s : BusState) (command : LogCommand) : BusState :=
  { s with worker := s.worker.handle options command }

/-- The message is emitted to the destinations. One that is listening asks again whether it is
subscribed before it sends the message on. -/
def emitMessage (s : BusState) (msg : EventMessage) : BusState :=
  if s.shouldSendMsg msg then
    { s with
      receptions := s.receptions ++
        (s.destinations.filter fun destination =>
          destination.enabled && s.isLogStreamingEnabled &&
            destination.hasSubscribedToEvent msg).map (Reception.mk · msg) }
  else s

/-- One message of `send`. -/
def sendMessage (s : BusState) (msg : EventMessage) : BusState :=
  let put := s.post options (.appendMessageToLog msg)
  let marked :=
    if s.shouldSendMsg msg then put
    else
      { put.post options (.confirmMessageSent msg.id ['0']) with
        unmatched := put.unmatched ++ [msg] }
  marked.emitMessage msg

/-- The messages are sent in their order. -/
def send (s : BusState) (msgs : List EventMessage) : BusState :=
  msgs.foldl (sendMessage options) s

/-- A new process: what was in flight is lost, the log is read and rotated, and the messages that
are not confirmed are sent again. -/
def startProcess (s : BusState) (isLogStreamingEnabled : Bool) (destinations : List Destination) :
    BusState :=
  let spawned := { s with isLogStreamingEnabled, destinations, receptions := [], retries := [] }
  let initialized := (spawned.post options .spawnThread).post options .initializeLog
  (initialized.post options .startLogging).send options (initialized.unsentMessages options)

/-- The state after an event. A message that is sent has an id of its own and is not one of the test
event. -/
def step (s : BusState) : BusEvent → Option BusState
  | .start isLogStreamingEnabled destinations =>
    some (s.startProcess options isLogStreamingEnabled destinations)
  | .send msg =>
    if msg.eventName = .other "n8n.destination.test".toList ∨ ∃ old ∈ s.sent, old.id = msg.id then
      none
    else some ({ s with sent := s.sent ++ [msg] }.sendMessage options msg)
  | .addDestination destination =>
    some { s with
      destinations := s.destinations.filter (·.id ≠ destination.id) ++ [destination] }
  | .removeDestination id =>
    some { s with destinations := s.destinations.filter (·.id ≠ id) }
  | .setLogStreamingEnabled isLogStreamingEnabled => some { s with isLogStreamingEnabled }
  | .confirm index =>
    s.receptions[index]?.map fun reception =>
      { s.post options (.confirmMessageSent reception.msg.id reception.destination.id) with
        receptions := s.receptions.eraseIdx index
        confirmed := s.confirmed ++ [reception] }
  | .fail index =>
    s.receptions[index]?.map fun _ => { s with receptions := s.receptions.eraseIdx index }
  | .readUnsent => some { s with retries := s.retries ++ uniqById (s.unsentMessages options) }
  | .retry =>
    match s.retries with
    | [] => none
    | msg :: retries => some ({ s with retries }.emitMessage msg)
  | .checkFileSize size => some (s.post options (.checkFileSize size))

/-- There is neither a log nor a process. -/
def initial : BusState where
  worker := .initial
  isLogStreamingEnabled := false
  destinations := []
  receptions := []
  retries := []
  sent := []
  unmatched := []
  confirmed := []

end BusState

/-! ## Messages stay unsent until a destination has them -/

section Lines

variable {files : LogFiles} {line : LogLine}

/-- The line is in one of the files. -/
def Logged (files : LogFiles) (line : LogLine) : Prop :=
  ∃ counter lines, files counter = some lines ∧ line ∈ lines

theorem logged_of_mem_linesUpTo {counter : Nat} (h : line ∈ linesUpTo files counter) :
    Logged files line := by
  obtain ⟨other, -, hmem⟩ := List.mem_flatMap.mp h
  cases hfile : files other with
  | none => simp [hfile] at hmem
  | some lines => exact ⟨other, lines, hfile, by simpa [hfile] using hmem⟩

/-- A file that is removed or overwritten loses lines only. -/
theorem logged_of_update_none {counter : Nat}
    (h : Logged (Function.update files counter none) line) :
    Logged files line := by
  obtain ⟨other, lines, hfile, hmem⟩ := h
  rw [Function.update_apply] at hfile
  split at hfile
  · cases hfile
  · exact ⟨other, lines, hfile, hmem⟩

theorem logged_of_renameSync {old new : Nat}
    (h : Logged (LogWorker.renameSync files old new) line) : Logged files line := by
  obtain ⟨other, lines, hfile, hmem⟩ := logged_of_update_none h
  rw [Function.update_apply] at hfile
  split at hfile
  · exact ⟨old, lines, hfile, hmem⟩
  · exact ⟨other, lines, hfile, hmem⟩

theorem logged_of_renameLogs {bound : Nat} (h : Logged (LogWorker.renameLogs files bound) line) :
    Logged files line := by
  induction bound generalizing files with
  | zero => exact h
  | succ bound ih =>
    have hmoved := ih h
    split at hmoved
    · exact logged_of_renameSync hmoved
    · exact hmoved

theorem logged_of_rotate {keepFiles : Nat}
    (h : Logged (LogWorker.renameAndCreateLogs keepFiles files) line) : Logged files line := by
  unfold LogWorker.renameAndCreateLogs at h
  generalize hremoved :
    (if (files keepFiles).isSome then LogWorker.rmSync files keepFiles else files) = removed at h
  have hbefore : Logged (LogWorker.renameLogs removed keepFiles) line := by
    obtain ⟨other, lines, hfile, hmem⟩ := h
    rw [Function.update_apply] at hfile
    split at hfile
    · cases hcurrent : LogWorker.renameLogs removed keepFiles 0 with
      | none =>
        rw [hcurrent] at hfile
        cases hfile
        exact absurd hmem List.not_mem_nil
      | some current =>
        rw [hcurrent] at hfile
        cases hfile
        exact ⟨0, _, hcurrent, hmem⟩
    · exact ⟨other, lines, hfile, hmem⟩
  have hkept := logged_of_renameLogs hbefore
  rw [← hremoved] at hkept
  split at hkept
  · exact logged_of_update_none hkept
  · exact hkept

theorem logged_of_append {worker : LogWorker} {written : LogLine}
    (h : Logged (worker.appendMessageSync written).files line) :
    Logged worker.files line ∨ line = written := by
  unfold LogWorker.appendMessageSync at h
  split at h
  · exact .inl h
  · obtain ⟨other, lines, hfile, hmem⟩ := h
    dsimp only at hfile
    rw [Function.update_apply] at hfile
    split at hfile
    · cases hfile
      obtain hmem | hmem := List.mem_append.mp hmem
      · cases hcurrent : worker.files 0 with
        | none => simp [hcurrent] at hmem
        | some lines => exact .inl ⟨0, lines, hcurrent, by simpa [hcurrent] using hmem⟩
      · exact .inr (List.mem_singleton.mp hmem)
    · exact .inl ⟨other, lines, hfile, hmem⟩

theorem linesUpTo_append (worker : LogWorker) (hlogging : worker.loggingPaused = false)
    (line : LogLine) (counter : Nat) :
    linesUpTo (worker.appendMessageSync line).files counter =
      linesUpTo worker.files counter ++ [line] := by
  rw [LogWorker.appendMessageSync, if_neg (by rw [hlogging]; nofun)]
  unfold linesUpTo
  rw [List.range_succ_eq_map, List.reverse_cons, List.flatMap_append, List.flatMap_append,
    List.append_assoc]
  congr 1
  · refine List.flatMap_congr fun other hmem => ?_
    obtain ⟨below, -, rfl⟩ := List.mem_map.mp (List.mem_reverse.mp hmem)
    dsimp only
    rw [Function.update_of_ne (Nat.succ_ne_zero below)]
  · simp

end Lines

section Unsent

variable {lines : List LogLine} {results : ReadMessagesFromLogFileResult} {msg : EventMessage}

theorem mem_of_mem_unsent (h : msg ∈ (lines.foldl (readLine .unsent) results).loggedMessages) :
    msg ∈ results.loggedMessages ∨ .message msg ∈ lines := by
  induction lines generalizing results with
  | nil => exact .inl h
  | cons line lines ih =>
    obtain h | h := ih h
    · cases line with
      | confirm id source => exact .inl (List.mem_of_mem_filter h)
      | message json =>
        rw [readLine, getEventMessageObjectByType_eq] at h
        split at h
        · rename_i hnone
          exact .inl h
        · rename_i read hread
          obtain ⟨-, hread⟩ := Option.ite_none_right_eq_some.mp hread
          cases hread
          obtain h | h := List.mem_append.mp h
          · exact .inl h
          · cases List.mem_singleton.mp h
            exact .inr List.mem_cons_self
    · exact .inr (List.mem_cons_of_mem _ h)

theorem mem_unsent (hrestored : msg.isRestored = true)
    (h : msg ∈ results.loggedMessages ∨ .message msg ∈ lines)
    (hopen : ∀ source, .confirm msg.id source ∉ lines) :
    msg ∈ (lines.foldl (readLine .unsent) results).loggedMessages := by
  induction lines generalizing results with
  | nil => exact h.resolve_right List.not_mem_nil
  | cons line lines ih =>
    refine ih ?_ fun source hmem => hopen source (List.mem_cons_of_mem _ hmem)
    -- the message was read before the line, or it is read after it, or it is the line
    cases line with
    | confirm id source =>
      refine h.imp (fun h => List.mem_filter.mpr ⟨h, ?_⟩) fun h => ?_
      · refine decide_eq_true fun heq => hopen source ?_
        rw [heq]
        exact List.mem_cons_self
      · exact (List.mem_cons.mp h).resolve_left nofun
    | message json =>
      rw [readLine, getEventMessageObjectByType_eq]
      obtain h | h := h
      · refine .inl ?_
        split
        · exact h
        · exact List.mem_append_left _ h
      · obtain h | h := List.mem_cons.mp h
        · cases h
          rw [if_pos hrestored]
          exact .inl (List.mem_append_right _ List.mem_cons_self)
        · exact .inr h

theorem not_mem_unsent_confirmed (msg : EventMessage) (source : List Char) :
    msg ∉ ((lines ++ [LogLine.confirm msg.id source]).foldl (readLine .unsent)
      results).loggedMessages := by
  rw [List.foldl_append]
  intro hmem
  exact absurd rfl (of_decide_eq_true (List.mem_filter.mp hmem).2)

end Unsent

namespace BusState

variable {options : LogWriterOptions} {s s' : BusState} {msg : EventMessage}

theorem mem_unsentMessages (h : msg ∈ s.unsentMessages options) :
    Logged s.worker.files (.message msg) := by
  rw [unsentMessages, getMessages_lines] at h
  exact logged_of_mem_linesUpTo ((mem_of_mem_unsent h).resolve_left List.not_mem_nil)

theorem uniqById_subset (msgs : List EventMessage) : uniqById msgs ⊆ msgs := by
  have hfold : ∀ (l uniq : List EventMessage), l ⊆ msgs → uniq ⊆ msgs →
      l.foldl (fun uniq msg => if uniq.any (·.id = msg.id) then uniq else uniq ++ [msg]) uniq ⊆
        msgs := by
    intro l
    induction l with
    | nil => exact fun _ _ h => h
    | cons msg l ih =>
      intro uniq hl huniq
      obtain ⟨hmsg, hl⟩ := List.cons_subset.mp hl
      refine ih _ hl ?_
      dsimp only
      split
      · exact huniq
      · exact List.append_subset.mpr ⟨huniq, List.cons_subset.mpr ⟨hmsg, List.nil_subset _⟩⟩
  exact hfold msgs [] (List.Subset.refl _) (List.nil_subset _)

/-- A destination has confirmed the message, or it had none when it was sent. -/
def Excused (s : BusState) (msg : EventMessage) : Prop :=
  (∃ reception ∈ s.confirmed, reception.msg = msg) ∨ msg ∈ s.unmatched

/-- What the events keep: the log has messages that were sent, and confirms of excused ones. -/
structure Invariant (s : BusState) : Prop where
  message : ∀ msg, Logged s.worker.files (.message msg) → msg ∈ s.sent
  confirm : ∀ id source, Logged s.worker.files (.confirm id source) →
    ∃ msg ∈ s.sent, msg.id = id ∧ s.Excused msg
  unique : ∀ msg ∈ s.sent, ∀ msg' ∈ s.sent, msg.id = msg'.id → msg = msg'
  receptions : ∀ reception ∈ s.receptions, reception.msg ∈ s.sent ∧
    reception.destination.hasSubscribedToEvent reception.msg = true
  confirmed : ∀ reception ∈ s.confirmed,
    reception.destination.hasSubscribedToEvent reception.msg = true
  retries : ∀ msg ∈ s.retries, msg ∈ s.sent

theorem Invariant.post (h : Invariant s) {command : LogCommand}
    (hlines : ∀ line, Logged (s.worker.handle options command).files line →
      Logged s.worker.files line) : Invariant (s.post options command) where
  message msg hlogged := h.message msg (hlines _ hlogged)
  confirm id source hlogged := h.confirm id source (hlines _ hlogged)
  unique := h.unique
  receptions := h.receptions
  confirmed := h.confirmed
  retries := h.retries

theorem Invariant.appendMessage (h : Invariant s) (hsent : msg ∈ s.sent) :
    Invariant (s.post options (.appendMessageToLog msg)) where
  message other hlogged := by
    obtain hlogged | hnew := logged_of_append hlogged
    · exact h.message other hlogged
    · cases hnew
      exact hsent
  confirm id source hlogged :=
    h.confirm id source ((logged_of_append hlogged).resolve_right nofun)
  unique := h.unique
  receptions := h.receptions
  confirmed := h.confirmed
  retries := h.retries

theorem Invariant.confirmMessage (h : Invariant s) (hsent : msg ∈ s.sent)
    (hexcused : s.Excused msg) (source : List Char) :
    Invariant (s.post options (.confirmMessageSent msg.id source)) where
  message other hlogged := h.message other ((logged_of_append hlogged).resolve_right nofun)
  confirm id other hlogged := by
    obtain hlogged | hnew := logged_of_append hlogged
    · exact h.confirm id other hlogged
    · cases hnew
      exact ⟨msg, hsent, rfl, hexcused⟩
  unique := h.unique
  receptions := h.receptions
  confirmed := h.confirmed
  retries := h.retries

theorem Invariant.unmatch (h : Invariant s) (msg : EventMessage) :
    Invariant { s with unmatched := s.unmatched ++ [msg] } where
  message := h.message
  confirm id source hlogged := by
    obtain ⟨msg, hsent, hid, hexcused⟩ := h.confirm id source hlogged
    exact ⟨msg, hsent, hid, hexcused.imp_right (List.mem_append_left _)⟩
  unique := h.unique
  receptions := h.receptions
  confirmed := h.confirmed
  retries := h.retries

theorem Invariant.emitMessage (h : Invariant s) (hsent : msg ∈ s.sent) :
    Invariant (s.emitMessage msg) := by
  unfold BusState.emitMessage
  split
  · refine ⟨h.message, h.confirm, h.unique, fun reception hmem => ?_, h.confirmed, h.retries⟩
    obtain hmem | hmem := List.mem_append.mp hmem
    · exact h.receptions reception hmem
    · obtain ⟨destination, hdestination, rfl⟩ := List.mem_map.mp hmem
      have haccepts := (List.mem_filter.mp hdestination).2
      exact ⟨hsent, (Bool.and_eq_true_iff.mp haccepts).2⟩
  · exact h

theorem Invariant.sendMessage (h : Invariant s) (hsent : msg ∈ s.sent) :
    Invariant (s.sendMessage options msg) := by
  have hput : Invariant (s.post options (.appendMessageToLog msg)) := h.appendMessage hsent
  unfold BusState.sendMessage
  dsimp only
  split
  · exact hput.emitMessage hsent
  · have hmarked : Invariant
        ({ s.post options (.appendMessageToLog msg) with
          unmatched := s.unmatched ++ [msg] }.post options (.confirmMessageSent msg.id ['0'])) :=
      (hput.unmatch msg).confirmMessage hsent
        (.inr (List.mem_append_right _ List.mem_cons_self)) _
    exact hmarked.emitMessage hsent

theorem sendMessage_sent (options : LogWriterOptions) (s : BusState) (msg : EventMessage) :
    (s.sendMessage options msg).sent = s.sent := by
  unfold sendMessage emitMessage
  dsimp only
  split <;> split <;> rfl

theorem Invariant.send (msgs : List EventMessage) :
    ∀ {s : BusState}, Invariant s → (∀ msg ∈ msgs, msg ∈ s.sent) →
      Invariant (s.send options msgs) := by
  induction msgs with
  | nil => exact fun h _ => h
  | cons msg msgs ih =>
    intro s h hsent
    refine ih (h.sendMessage (hsent msg List.mem_cons_self)) fun other hmem => ?_
    rw [sendMessage_sent]
    exact hsent other (List.mem_cons_of_mem _ hmem)

theorem Invariant.startLogging (h : Invariant s) : Invariant (s.post options .startLogging) := by
  refine h.post fun line hlogged => ?_
  rw [LogWorker.handle] at hlogged
  split at hlogged
  · exact logged_of_rotate hlogged
  · exact hlogged

theorem Invariant.checkFileSize (h : Invariant s) (size : Nat) :
    Invariant (s.post options (.checkFileSize size)) := by
  refine h.post fun line hlogged => ?_
  rw [LogWorker.handle] at hlogged
  split at hlogged
  · exact hlogged
  · split at hlogged
    · exact logged_of_rotate hlogged
    · exact hlogged

theorem Invariant.startProcess (h : Invariant s) (isLogStreamingEnabled : Bool)
    (destinations : List Destination) :
    Invariant (s.startProcess options isLogStreamingEnabled destinations) := by
  have hempty : Invariant
      { s with isLogStreamingEnabled, destinations, receptions := [], retries := [] } :=
    ⟨h.message, h.confirm, h.unique, fun _ hmem => absurd hmem List.not_mem_nil, h.confirmed,
      fun _ hmem => absurd hmem List.not_mem_nil⟩
  have hspawned : Invariant
      ({ s with isLogStreamingEnabled, destinations, receptions := [], retries := [] }.post
        options .spawnThread) := hempty.post fun _ hlogged => hlogged
  have hinitialized : Invariant
      (({ s with isLogStreamingEnabled, destinations, receptions := [], retries := [] }.post
        options .spawnThread).post options .initializeLog) := hspawned.post fun _ hlogged => hlogged
  exact hinitialized.startLogging.send _ fun msg hmem =>
    hinitialized.message msg (mem_unsentMessages hmem)

theorem Invariant.sent (h : Invariant s) (hnew : ∀ old ∈ s.sent, old.id ≠ msg.id) :
    Invariant { s with sent := s.sent ++ [msg] } where
  message other hlogged := List.mem_append_left _ (h.message other hlogged)
  confirm id source hlogged := by
    obtain ⟨other, hsent, hid, hexcused⟩ := h.confirm id source hlogged
    exact ⟨other, List.mem_append_left _ hsent, hid, hexcused⟩
  unique first hfirst second hsecond hid := by
    obtain hfirst | hfirst := List.mem_append.mp hfirst <;>
      obtain hsecond | hsecond := List.mem_append.mp hsecond
    · exact h.unique first hfirst second hsecond hid
    · cases List.mem_singleton.mp hsecond
      exact absurd hid (hnew first hfirst)
    · cases List.mem_singleton.mp hfirst
      exact absurd hid.symm (hnew second hsecond)
    · exact (List.mem_singleton.mp hfirst).trans (List.mem_singleton.mp hsecond).symm
  receptions reception hmem :=
    ⟨List.mem_append_left _ (h.receptions reception hmem).1, (h.receptions reception hmem).2⟩
  confirmed := h.confirmed
  retries other hmem := List.mem_append_left _ (h.retries other hmem)

theorem Invariant.confirms (h : Invariant s) {index : Nat} {reception : Reception}
    (hget : s.receptions[index]? = some reception) :
    Invariant { s.post options (.confirmMessageSent reception.msg.id reception.destination.id) with
      receptions := s.receptions.eraseIdx index
      confirmed := s.confirmed ++ [reception] } := by
  obtain ⟨hsent, hsubscribed⟩ := h.receptions reception (List.mem_of_getElem? hget)
  -- the reception is recorded first: it excuses the line that the post logs
  have hconfirmed : Invariant
      { s with
        receptions := s.receptions.eraseIdx index
        confirmed := s.confirmed ++ [reception] } := by
    refine ⟨h.message, fun id source hlogged => ?_, h.unique, fun other hmem => ?_,
      fun other hmem => ?_, h.retries⟩
    · obtain ⟨msg, hmsg, hid, hexcused⟩ := h.confirm id source hlogged
      refine ⟨msg, hmsg, hid, hexcused.imp_left ?_⟩
      rintro ⟨other, hother, heq⟩
      exact ⟨other, List.mem_append_left _ hother, heq⟩
    · exact h.receptions other (List.mem_of_mem_eraseIdx hmem)
    · obtain hmem | hmem := List.mem_append.mp hmem
      · exact h.confirmed other hmem
      · cases List.mem_singleton.mp hmem
        exact hsubscribed
  have hposted : Invariant
      ({ s with
        receptions := s.receptions.eraseIdx index
        confirmed := s.confirmed ++ [reception] }.post options
          (.confirmMessageSent reception.msg.id reception.destination.id)) :=
    hconfirmed.confirmMessage hsent
      (.inl ⟨reception, List.mem_append_right _ List.mem_cons_self, rfl⟩) _
  exact hposted

theorem step_invariant {event : BusEvent} (h : Invariant s)
    (hstep : s.step options event = some s') : Invariant s' := by
  cases event with
  | start isLogStreamingEnabled destinations =>
    cases hstep
    exact h.startProcess _ _
  | send msg =>
    simp only [step] at hstep
    split at hstep
    · cases hstep
    · rename_i hnew
      cases hstep
      push Not at hnew
      exact (h.sent hnew.2).sendMessage (List.mem_append_right _ List.mem_cons_self)
  | addDestination destination =>
    cases hstep
    exact ⟨h.message, h.confirm, h.unique, h.receptions, h.confirmed, h.retries⟩
  | removeDestination id =>
    cases hstep
    exact ⟨h.message, h.confirm, h.unique, h.receptions, h.confirmed, h.retries⟩
  | setLogStreamingEnabled isLogStreamingEnabled =>
    cases hstep
    exact ⟨h.message, h.confirm, h.unique, h.receptions, h.confirmed, h.retries⟩
  | confirm index =>
    obtain ⟨reception, hget, rfl⟩ := Option.map_eq_some_iff.mp hstep
    exact h.confirms hget
  | fail index =>
    obtain ⟨reception, -, rfl⟩ := Option.map_eq_some_iff.mp hstep
    exact ⟨h.message, h.confirm, h.unique, fun other hmem =>
      h.receptions other (List.mem_of_mem_eraseIdx hmem), h.confirmed, h.retries⟩
  | readUnsent =>
    cases hstep
    refine ⟨h.message, h.confirm, h.unique, h.receptions, h.confirmed, fun msg hmem => ?_⟩
    obtain hmem | hmem := List.mem_append.mp hmem
    · exact h.retries msg hmem
    · exact h.message msg (mem_unsentMessages (uniqById_subset _ hmem))
  | retry =>
    simp only [step] at hstep
    split at hstep
    · cases hstep
    · rename_i msg retries hretries
      cases hstep
      have hnext : Invariant { s with retries } :=
        ⟨h.message, h.confirm, h.unique, h.receptions, h.confirmed, fun other hmem =>
          h.retries other (hretries ▸ List.mem_cons_of_mem _ hmem)⟩
      exact hnext.emitMessage (h.retries msg (hretries ▸ List.mem_cons_self))
  | checkFileSize size =>
    cases hstep
    exact h.checkFileSize size

theorem reachable_invariant (h : Reachable (step options) (fun _ _ => True) initial s) :
    Invariant s := by
  refine h.keeps Invariant ?_ fun _ _ _ hinv _ hstep => step_invariant hinv hstep
  refine ⟨?_, ?_, nofun, nofun, nofun, nofun⟩
  · rintro msg ⟨counter, lines, hfile, -⟩
    cases hfile
  · rintro id source ⟨counter, lines, hfile, -⟩
    cases hfile

theorem Invariant.excused (h : Invariant s)
    (hline : .message msg ∈ linesUpTo s.worker.files (logCount options 1))
    (hrestored : msg.isRestored = true) (hdropped : msg ∉ s.unsentMessages options) :
    s.Excused msg := by
  by_contra hnot
  refine hdropped ?_
  rw [unsentMessages, getMessages_lines]
  refine mem_unsent hrestored (.inr hline) fun source hconfirm => hnot ?_
  obtain ⟨other, hsent, hid, hexcused⟩ := h.confirm _ _ (logged_of_mem_linesUpTo hconfirm)
  have hmsg : msg ∈ s.sent := h.message msg (logged_of_mem_linesUpTo hline)
  rwa [h.unique other hsent msg hmsg hid] at hexcused

theorem emitMessage_worker (s : BusState) (msg : EventMessage) :
    (s.emitMessage msg).worker = s.worker := by
  unfold emitMessage
  split <;> rfl

theorem Invariant.unmatched_confirmed (h : Invariant s) (hmatch : s.shouldSendMsg msg = false)
    (hstep : s.step options (.send msg) = some s') : msg ∉ s'.unsentMessages options := by
  simp only [step] at hstep
  split at hstep
  · cases hstep
  · rename_i hnew
    push Not at hnew
    cases hstep
    have hworker : ({ s with sent := s.sent ++ [msg] }.sendMessage options msg).worker =
        (s.worker.appendMessageSync (.message msg)).appendMessageSync (.confirm msg.id ['0']) := by
      have hmatch' : ({ s with sent := s.sent ++ [msg] } : BusState).shouldSendMsg msg = false :=
        hmatch
      unfold BusState.sendMessage
      dsimp only
      rw [emitMessage_worker, hmatch', if_neg Bool.false_ne_true]
      rfl
    rw [unsentMessages, getMessages_lines, hworker]
    cases hpaused : s.worker.loggingPaused with
    | false =>
      have hstill : (s.worker.appendMessageSync (.message msg)).loggingPaused = false := by
        rw [LogWorker.appendMessageSync, if_neg (by rw [hpaused]; nofun)]
        exact hpaused
      rw [linesUpTo_append _ hstill]
      exact not_mem_unsent_confirmed msg ['0']
    | true =>
      -- nothing is written, and no line has the new message
      intro hmem
      have hsame : ∀ line, s.worker.appendMessageSync line = s.worker := fun line => by
        rw [LogWorker.appendMessageSync, if_pos hpaused]
      rw [hsame, hsame] at hmem
      have hline := (mem_of_mem_unsent hmem).resolve_left List.not_mem_nil
      exact hnew.2 msg (h.message msg (logged_of_mem_linesUpTo hline)) rfl

/-- In every run a message that is read back is dropped from the unsent ones only after a
destination that was subscribed to it has confirmed it, or when nobody was to receive it as it was
sent; and a message that nobody is to receive is confirmed as it is sent. -/
theorem dropped_after_confirm (h : Reachable (step options) (fun _ _ => True) initial s) :
    (∀ msg, .message msg ∈ linesUpTo s.worker.files (logCount options 1) →
      msg.isRestored = true → msg ∉ s.unsentMessages options →
      (∃ reception ∈ s.confirmed, reception.msg = msg ∧
        reception.destination.hasSubscribedToEvent msg = true) ∨ msg ∈ s.unmatched) ∧
    ∀ msg s', s.shouldSendMsg msg = false → s.step options (.send msg) = some s' →
      msg ∉ s'.unsentMessages options := by
  have hinv := reachable_invariant h
  refine ⟨fun msg hline hrestored hdropped => ?_, fun msg s' hmatch hstep => ?_⟩
  · refine (hinv.excused hline hrestored hdropped).imp_left ?_
    rintro ⟨reception, hmem, rfl⟩
    exact ⟨reception, hmem, rfl, hinv.confirmed reception hmem⟩
  · exact hinv.unmatched_confirmed hmatch hstep

/-- In every run the messages that are read back as unsent were sent, and have different ids. -/
theorem unsent_were_sent (h : Reachable (step options) (fun _ _ => True) initial s)
    (hunsent : msg ∈ s.unsentMessages options) :
    msg ∈ s.sent ∧ ∀ other ∈ s.unsentMessages options, other.id = msg.id → other = msg := by
  have hinv := reachable_invariant h
  have hsent : ∀ msg ∈ s.unsentMessages options, msg ∈ s.sent := by
    intro msg hmem
    rw [unsentMessages, getMessages_lines] at hmem
    have hline := (mem_of_mem_unsent hmem).resolve_left List.not_mem_nil
    exact hinv.message msg (logged_of_mem_linesUpTo hline)
  exact ⟨hsent msg hunsent, fun other hother hid =>
    hinv.unique other (hsent other hother) msg (hsent msg hunsent) hid⟩

/-- A destination that is subscribed to every event. -/
def everything (id : List Char) : Destination := ⟨id, true, [['*']]⟩

/-- A message of the workers. -/
def workerStarted : EventMessage :=
  ⟨.generic, ['1'], 1, .other "n8n.worker.started".toList, none, rfl⟩

/-- A message that no destination has confirmed. -/
theorem unsent_were_sent_started :
    ∃ s, run (step ⟨3, 10240⟩) initial [.start true [everything ['a']], .send workerStarted] =
      some s ∧ workerStarted ∈ s.sent := by
  have hrun : (run (step ⟨3, 10240⟩) initial
      [.start true [everything ['a']], .send workerStarted]).any fun s =>
        workerStarted ∈ s.unsentMessages ⟨3, 10240⟩ := by decide +kernel
  obtain ⟨s, hs, hunsent⟩ := (Option.any_eq_true _ _).mp hrun
  exact ⟨s, hs, (unsent_were_sent (reachable_of_run hs) (of_decide_eq_true hunsent)).1⟩

/-- Of two destinations the first confirms the message and the second fails. -/
def oneOfTwo : List BusEvent :=
  [.start true [everything ['a'], everything ['b']], .send workerStarted, .confirm 0, .fail 0]

theorem oneOfTwo_run :
    ∃ s, Reachable (step ⟨3, 10240⟩) (fun _ _ => True) initial s ∧
      .message workerStarted ∈ linesUpTo s.worker.files (logCount ⟨3, 10240⟩ 1) ∧
      s.unsentMessages ⟨3, 10240⟩ = [] ∧
      s.destinations = [everything ['a'], everything ['b']] ∧
      s.confirmed = [⟨everything ['a'], workerStarted⟩] := by
  have hrun : (run (step ⟨3, 10240⟩) initial oneOfTwo).map (fun s =>
      (linesUpTo s.worker.files (logCount ⟨3, 10240⟩ 1), s.unsentMessages ⟨3, 10240⟩,
        s.destinations, s.confirmed)) =
      some ([.message workerStarted, .confirm ['1'] ['a']], [],
        [everything ['a'], everything ['b']], [⟨everything ['a'], workerStarted⟩]) := by
    decide +kernel
  obtain ⟨s, hs, hproj⟩ := Option.map_eq_some_iff.mp hrun
  simp only [Prod.mk.injEq] at hproj
  obtain ⟨hlines, hunsent, hdestinations, hconfirmed⟩ := hproj
  exact ⟨s, reachable_of_run hs, by rw [hlines]; exact List.mem_cons_self, hunsent, hdestinations,
    hconfirmed⟩

/-- The message is dropped, and the destination that is subscribed to it has confirmed it. -/
theorem dropped_after_one_confirm :
    ∃ s : BusState, s.unsentMessages ⟨3, 10240⟩ = [] ∧
      ((∃ reception ∈ s.confirmed, reception.msg = workerStarted ∧
        reception.destination.hasSubscribedToEvent workerStarted = true) ∨
          workerStarted ∈ s.unmatched) := by
  obtain ⟨s, hreach, hline, hunsent, -⟩ := oneOfTwo_run
  exact ⟨s, hunsent, (dropped_after_confirm hreach).1 workerStarted hline rfl
    (hunsent ▸ List.not_mem_nil)⟩

/-- The confirm of one destination drops the message for the other one, which has failed. -/
theorem one_confirm_drops :
    ¬ ∀ options s, Reachable (step options) (fun _ _ => True) initial s →
      ∀ msg, .message msg ∈ linesUpTo s.worker.files (logCount options 1) →
        msg.isRestored = true → msg ∉ s.unsentMessages options →
        ∀ destination ∈ s.destinations, destination.hasSubscribedToEvent msg = true →
          ⟨destination, msg⟩ ∈ s.confirmed := by
  intro hall
  obtain ⟨s, hreach, hline, hunsent, hdestinations, hconfirmed⟩ := oneOfTwo_run
  have hmem := hall _ s hreach workerStarted hline rfl (hunsent ▸ List.not_mem_nil)
    (everything ['b']) (by rw [hdestinations]; exact List.mem_cons_of_mem _ List.mem_cons_self) rfl
  rw [hconfirmed] at hmem
  exact absurd hmem (by decide +kernel)

end BusState

end N8n.EventBus
