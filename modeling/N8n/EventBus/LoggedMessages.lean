import N8n.Transition.Runs

/-!
# Every message is logged

As long as the bus is initialized once, with a recovery pass, and closed when its log writer has
nothing left to do, every message that is sent is in the log, or the worker thread will append it.
A restart ends this: the writer is a singleton that gets a worker thread when it is constructed
only, and a thread that starts without a recovery pass is never told to log.
-/

namespace N8n.EventBus

open Transition

/-! ## The message event bus

The bus hands its messages to a log writer, a singleton whose worker thread appends them to the log.
See `initialize`, `close`, `restart` and `send` of
`packages/cli/src/eventbus/message-event-bus/message-event-bus.ts`, and `getInstance`,
`startLogging`, `close` and `putMessage` of
`packages/cli/src/eventbus/message-event-bus-writer/message-event-bus-log-writer.ts` with the
commands of its worker. The recovery of executions and the rotation of log files are left out: the
log holds everything that was appended.
-/

structure Message where
  id : List Char
  eventName : List Char
  deriving DecidableEq

/-- A command that is posted to the worker thread. -/
inductive Command where
  | initializeLog
  | startLogging
  | appendMessageToLog (msg : Message)
  | confirmMessageSent (id : List Char)
  deriving DecidableEq

/-- A line of the log. -/
inductive LogEntry where
  | message (msg : Message)
  | confirm (id : List Char)
  deriving DecidableEq

/-- The worker thread: the commands it has not handled, whether it knows the path of the log, and
whether it is being terminated. -/
structure Thread where
  queue : List Command := []
  hasLogFileBasePath : Bool := false
  loggingPaused : Bool := true
  terminated : Bool := false
  deriving DecidableEq

/-- A call of `close` that waits for the worker thread, or for the destinations. -/
inductive Closing where
  | terminating
  | destinations
  deriving DecidableEq

/-- The bus and the singleton of the log writer, which has a worker or none. A call of `close` may
be under way, alone or in `restart`. The last field records the messages that were sent while the
bus was initialized. -/
structure State where
  writer : Option (Option Thread)
  logWriter : Bool
  isInitialized : Bool
  closing : Option (Closing × Bool)
  log : List LogEntry
  sent : List Message
  deriving DecidableEq

/-- A process that has just started, with the log of the ones before. -/
def started (log : List LogEntry) : State :=
  { writer := none, logWriter := false, isInitialized := false, closing := none, log, sent := [] }

namespace State

/-- `worker.postMessage(command)`, if there is a worker. A thread that is being terminated does not
get it any more. -/
def postMessage (s : State) (command : Command) : State :=
  match s.writer with
  | some (some thread) =>
    if thread.terminated then s
    else { s with writer := some (some { thread with queue := thread.queue ++ [command] }) }
  | _ => s

/-- `MessageEventBusLogWriter.getInstance()`, which starts a thread for a new instance only. -/
def getInstance (s : State) : State :=
  match s.writer with
  | none => { s with writer := some (some { queue := [.initializeLog] }), logWriter := true }
  | some _ => { s with logWriter := true }

/-- Hand a message to the log writer, and confirm it if no destination gets it. -/
def sendMessage (shouldSendMsg : Message → Bool) (s : State) (msg : Message) : State :=
  if s.logWriter then
    let put := s.postMessage (.appendMessageToLog msg)
    if shouldSendMsg msg then put else put.postMessage (.confirmMessageSent msg.id)
  else s

/-- `send(msgs)`, without the record. -/
def send (shouldSendMsg : Message → Bool) (s : State) (msgs : List Message) : State :=
  msgs.foldl (sendMessage shouldSendMsg) s

/-- The messages of the log that are not confirmed. -/
def unsentMessages (log : List LogEntry) : List Message :=
  log.filterMap fun entry =>
    match entry with
    | .message msg => if .confirm msg.id ∈ log then none else some msg
    | .confirm _ => none

/-- `initialize({ skipRecoveryPass })`. -/
def initializeBus (shouldSendMsg : Message → Bool) (s : State) (skipRecoveryPass : Bool) : State :=
  if s.isInitialized then s
  else
    let created := s.getInstance
    let recovered :=
      if skipRecoveryPass then created
      else (created.postMessage .startLogging).send shouldSendMsg (unsentMessages created.log)
    { recovered with isInitialized := true }

/-- `close()` up to its first wait. -/
def close (s : State) (andInitialize : Bool) : State :=
  match s.logWriter, s.writer with
  | true, some (some thread) =>
    { s with
      writer := some (some { thread with queue := [], terminated := true })
      closing := some (.terminating, andInitialize) }
  | _, _ => { s with closing := some (.destinations, andInitialize) }

/-- The worker handles the next command. -/
def handle (s : State) (thread : Thread) : Command → State
  | .initializeLog =>
    { s with writer := some (some { thread with hasLogFileBasePath := true }) }
  | .startLogging =>
    if thread.hasLogFileBasePath then
      { s with writer := some (some { thread with loggingPaused := false }) }
    else { s with writer := some (some thread) }
  | .appendMessageToLog msg =>
    { s with
      writer := some (some thread)
      log := if thread.loggingPaused then s.log else s.log ++ [.message msg] }
  | .confirmMessageSent id =>
    { s with
      writer := some (some thread)
      log := if thread.loggingPaused then s.log else s.log ++ [.confirm id] }

end State

/-- What happens to the bus. -/
inductive Event where
  | initializeBus (skipRecoveryPass : Bool)
  | send (msg : Message)
  | confirmSent (id : List Char)
  | close
  | restart
  | advance
  | handle

/-- The bus after an event. Calls of `initialize`, `close` and `restart` follow each other; the
messages of the calls of `send` are put one by one, and handled, at any time. -/
def step (shouldSendMsg : Message → Bool) (s : State) : Event → Option State
  | .initializeBus skipRecoveryPass =>
    if s.closing = none then some (s.initializeBus shouldSendMsg skipRecoveryPass) else none
  | .send msg =>
    let put := s.sendMessage shouldSendMsg msg
    some (if s.isInitialized then { put with sent := s.sent ++ [msg] } else put)
  | .confirmSent id => some (if s.logWriter then s.postMessage (.confirmMessageSent id) else s)
  | .close => if s.closing = none then some (s.close false) else none
  | .restart => if s.closing = none then some (s.close true) else none
  | .advance =>
    match s.closing with
    | some (.terminating, andInitialize) =>
      some { s with writer := some none, closing := some (.destinations, andInitialize) }
    | some (.destinations, andInitialize) =>
      let closed := { s with closing := none, isInitialized := false }
      some (if andInitialize then closed.initializeBus shouldSendMsg true else closed)
    | none => none
  | .handle =>
    match s.writer with
    | some (some thread) =>
      match thread.queue with
      | command :: rest => some (s.handle { thread with queue := rest } command)
      | [] => none
    | _ => none

/-! ## Every message is logged -/

variable {shouldSendMsg : Message → Bool} {s s' : State} {thread : Thread} {msg : Message}

/-- The commands that the worker thread has not handled. -/
def State.pending (s : State) : List Command :=
  match s.writer with
  | some (some thread) => thread.queue
  | _ => []

/-- The worker thread, left to itself, appends the message to the log. -/
def State.Logs (shouldSendMsg : Message → Bool) (s : State) (msg : Message) : Prop :=
  ∃ handled s', run (step shouldSendMsg) s (List.replicate handled .handle) = some s' ∧
    .message msg ∈ s'.log

/-- The lifecycle steps after which no message is lost. -/
def allowed (s : State) : Event → Prop
  | .initializeBus skipRecoveryPass =>
    s.isInitialized = true ∨ skipRecoveryPass = false ∧ s.writer = none
  | .send _ => s.isInitialized = true → s.closing = none
  | .close => s.pending = []
  | .restart => False
  | .confirmSent _ | .advance | .handle => True

instance : ∀ (s : State) (e : Event), Decidable (allowed s e)
  | s, .initializeBus skipRecoveryPass =>
    inferInstanceAs
      (Decidable (s.isInitialized = true ∨ skipRecoveryPass = false ∧ s.writer = none))
  | s, .send _ => inferInstanceAs (Decidable (s.isInitialized = true → s.closing = none))
  | s, .close => inferInstanceAs (Decidable (s.pending = []))
  | _, .restart => inferInstanceAs (Decidable False)
  | _, .confirmSent _ | _, .advance | _, .handle => inferInstanceAs (Decidable True)

/-- The thread appends to the log, or has been told to before any message. -/
def Thread.Ready (thread : Thread) : Prop :=
  thread.terminated = false ∧
    (thread.loggingPaused = false ∨
      (thread.hasLogFileBasePath = true ∧ ∃ rest, thread.queue = .startLogging :: rest) ∨
      ∃ rest, thread.queue = .initializeLog :: .startLogging :: rest)

/-- The bus has a log writer that is ready. -/
def State.Ready (s : State) : Prop :=
  s.logWriter = true ∧ ∃ thread, s.writer = some (some thread) ∧ thread.Ready

/-- The message is in the log, or a log writer that is ready has it. -/
def State.Keeps (s : State) (msg : Message) : Prop :=
  .message msg ∈ s.log ∨
    ∃ thread, s.writer = some (some thread) ∧ thread.Ready ∧
      .appendMessageToLog msg ∈ thread.queue

section Posting

theorem postMessage_of_running (hwriter : s.writer = some (some thread))
    (hrunning : thread.terminated = false) (command : Command) :
    s.postMessage command =
      { s with writer := some (some { thread with queue := thread.queue ++ [command] }) } := by
  simp [State.postMessage, hwriter, hrunning]

theorem postMessage_frame (s : State) (command : Command) :
    ∃ writer, s.postMessage command = { s with writer } := by
  unfold State.postMessage
  split
  · split
    · exact ⟨s.writer, rfl⟩
    · exact ⟨_, rfl⟩
  · exact ⟨s.writer, rfl⟩

theorem sendMessage_frame (shouldSendMsg : Message → Bool) (s : State) (msg : Message) :
    ∃ writer, s.sendMessage shouldSendMsg msg = { s with writer } := by
  obtain ⟨put, hput⟩ := postMessage_frame s (.appendMessageToLog msg)
  obtain ⟨confirmed, hconfirmed⟩ :=
    postMessage_frame (s.postMessage (.appendMessageToLog msg)) (.confirmMessageSent msg.id)
  unfold State.sendMessage
  dsimp only
  split
  · split
    · exact ⟨put, hput⟩
    · exact ⟨confirmed, by rw [hconfirmed, hput]⟩
  · exact ⟨s.writer, rfl⟩

theorem send_frame (shouldSendMsg : Message → Bool) (msgs : List Message) :
    ∀ s : State, ∃ writer, s.send shouldSendMsg msgs = { s with writer } := by
  induction msgs with
  | nil => exact fun s => ⟨s.writer, rfl⟩
  | cons msg msgs ih =>
    intro s
    obtain ⟨put, hput⟩ := sendMessage_frame shouldSendMsg s msg
    obtain ⟨sent, hsent⟩ := ih (s.sendMessage shouldSendMsg msg)
    refine ⟨sent, ?_⟩
    rw [State.send, List.foldl_cons]
    exact hsent.trans (by rw [hput])

theorem Thread.Ready.post (h : thread.Ready) (command : Command) :
    Thread.Ready { thread with queue := thread.queue ++ [command] } := by
  refine ⟨h.1, ?_⟩
  obtain hlogging | ⟨hpath, rest, hqueue⟩ | ⟨rest, hqueue⟩ := h.2
  · exact .inl hlogging
  · exact .inr (.inl ⟨hpath, rest ++ [command], by simp [hqueue]⟩)
  · exact .inr (.inr ⟨rest ++ [command], by simp [hqueue]⟩)

theorem State.Ready.postMessage (h : s.Ready) (command : Command) :
    (s.postMessage command).Ready := by
  obtain ⟨hlogWriter, thread, hwriter, hready⟩ := h
  rw [postMessage_of_running hwriter hready.1]
  exact ⟨hlogWriter, _, rfl, hready.post command⟩

theorem State.Keeps.postMessage (h : s.Keeps msg) (command : Command) :
    (s.postMessage command).Keeps msg := by
  obtain hlog | ⟨thread, hwriter, hready, hmem⟩ := h
  · obtain ⟨writer, hpost⟩ := postMessage_frame s command
    rw [hpost]
    exact .inl hlog
  · rw [postMessage_of_running hwriter hready.1]
    exact .inr ⟨_, rfl, hready.post command, List.mem_append_left _ hmem⟩

theorem State.Ready.sendMessage (h : s.Ready) (sent : Message) :
    (s.sendMessage shouldSendMsg sent).Ready := by
  unfold State.sendMessage
  dsimp only
  split
  · split
    · exact h.postMessage _
    · exact (h.postMessage _).postMessage _
  · exact h

theorem State.Keeps.sendMessage (h : s.Keeps msg) (sent : Message) :
    (s.sendMessage shouldSendMsg sent).Keeps msg := by
  unfold State.sendMessage
  dsimp only
  split
  · split
    · exact h.postMessage _
    · exact (h.postMessage _).postMessage _
  · exact h

theorem State.Ready.keeps_sent (h : s.Ready) (msg : Message) :
    (s.sendMessage shouldSendMsg msg).Keeps msg := by
  obtain ⟨hlogWriter, thread, hwriter, hready⟩ := h
  have hput : (s.postMessage (.appendMessageToLog msg)).Keeps msg := by
    rw [postMessage_of_running hwriter hready.1]
    exact .inr ⟨_, rfl, hready.post _, by simp⟩
  unfold State.sendMessage
  rw [if_pos hlogWriter]
  dsimp only
  split
  · exact hput
  · exact hput.postMessage _

theorem State.Ready.send (msgs : List Message) :
    ∀ {s : State}, s.Ready → (s.send shouldSendMsg msgs).Ready := by
  induction msgs with
  | nil => exact fun h => h
  | cons msg msgs ih => exact fun h => ih (h.sendMessage msg)

end Posting

section Lifecycle

theorem initializeBus_ready (hwriter : s.writer = none) (hnew : s.isInitialized = false) :
    (s.initializeBus shouldSendMsg false).Ready := by
  have hcreated : s.getInstance =
      { s with writer := some (some { queue := [.initializeLog] }), logWriter := true } := by
    rw [State.getInstance, hwriter]
  have hstarted : (s.getInstance.postMessage .startLogging).Ready := by
    rw [hcreated]
    -- the thread learns the path of the log first, and is told to log second
    exact ⟨rfl, _, rfl, rfl, .inr (.inr ⟨[], rfl⟩)⟩
  simp only [State.initializeBus, hnew, Bool.false_eq_true, if_false]
  exact hstarted.send (State.unsentMessages s.getInstance.log)

theorem initializeBus_frame (shouldSendMsg : Message → Bool) (s : State) (skipRecoveryPass : Bool) :
    (s.initializeBus shouldSendMsg skipRecoveryPass).log = s.log ∧
      (s.initializeBus shouldSendMsg skipRecoveryPass).sent = s.sent ∧
      (s.initializeBus shouldSendMsg skipRecoveryPass).closing = s.closing := by
  have hcreated : s.getInstance.log = s.log ∧ s.getInstance.sent = s.sent ∧
      s.getInstance.closing = s.closing := by
    unfold State.getInstance
    split <;> exact ⟨rfl, rfl, rfl⟩
  obtain ⟨started, hstarted⟩ := postMessage_frame s.getInstance .startLogging
  obtain ⟨sent, hsent⟩ := send_frame shouldSendMsg (State.unsentMessages s.getInstance.log)
    (s.getInstance.postMessage .startLogging)
  unfold State.initializeBus
  split
  · exact ⟨rfl, rfl, rfl⟩
  · cases skipRecoveryPass with
    | true => exact hcreated
    | false =>
      dsimp only
      rw [if_neg Bool.false_ne_true, hsent, hstarted]
      exact hcreated

variable {rest : List Command}

theorem Thread.Ready.handle (h : thread.Ready) {command : Command}
    (hqueue : thread.queue = command :: rest) :
    ∃ after, (s.handle { thread with queue := rest } command).writer = some (some after) ∧
      after.Ready ∧ after.queue = rest := by
  obtain ⟨hrunning, hlogging | ⟨hpath, _, hhead⟩ | ⟨_, hhead⟩⟩ := h
  · cases command with
    | startLogging =>
      by_cases hpath : thread.hasLogFileBasePath = true
      · exact ⟨{ thread with queue := rest, loggingPaused := false },
          by simp [State.handle, hpath], ⟨hrunning, .inl rfl⟩, rfl⟩
      · exact ⟨{ thread with queue := rest }, by simp [State.handle, hpath],
          ⟨hrunning, .inl hlogging⟩, rfl⟩
    | initializeLog | appendMessageToLog | confirmMessageSent =>
      exact ⟨_, rfl, ⟨hrunning, .inl hlogging⟩, rfl⟩
  · obtain ⟨rfl, rfl⟩ := List.cons.inj (hqueue.symm.trans hhead)
    exact ⟨{ thread with queue := rest, loggingPaused := false },
      by simp [State.handle, hpath], ⟨hrunning, .inl rfl⟩, rfl⟩
  · obtain ⟨rfl, rfl⟩ := List.cons.inj (hqueue.symm.trans hhead)
    exact ⟨_, rfl, ⟨hrunning, .inr (.inl ⟨rfl, _, rfl⟩)⟩, rfl⟩

theorem log_subset_handle (s : State) (thread : Thread) (command : Command) :
    s.log ⊆ (s.handle thread command).log := by
  cases command with
  | initializeLog => exact List.Subset.refl _
  | startLogging =>
    by_cases hpath : thread.hasLogFileBasePath = true <;> simp [State.handle, hpath]
  | appendMessageToLog | confirmMessageSent =>
    unfold State.handle
    dsimp only
    split
    · exact List.Subset.refl _
    · exact List.subset_append_left _ _

theorem Thread.Ready.log_or_rest (h : thread.Ready) {command : Command}
    (hqueue : thread.queue = command :: rest) (hmem : .appendMessageToLog msg ∈ thread.queue) :
    .message msg ∈ (s.handle { thread with queue := rest } command).log ∨
      .appendMessageToLog msg ∈ rest := by
  rw [hqueue] at hmem
  obtain rfl | hmem := List.mem_cons.mp hmem
  · left
    -- a thread whose first command is a message logs
    obtain ⟨_, hlogging | ⟨_, _, hhead⟩ | ⟨_, hhead⟩⟩ := h
    · simp [State.handle, hlogging]
    · cases hqueue.symm.trans hhead
    · cases hqueue.symm.trans hhead
  · exact .inr hmem

theorem State.Keeps.handle (h : s.Keeps msg) (hwriter : s.writer = some (some thread))
    {command : Command} (hqueue : thread.queue = command :: rest) :
    (s.handle { thread with queue := rest } command).Keeps msg := by
  obtain hlog | ⟨_, hwriter', hready, hmem⟩ := h
  · exact .inl (log_subset_handle _ _ _ hlog)
  · cases hwriter.symm.trans hwriter'
    obtain ⟨after, hafter, hready', hrest⟩ := hready.handle (s := s) hqueue
    obtain hlog | hmem := hready.log_or_rest (s := s) hqueue hmem
    · exact .inl hlog
    · exact .inr ⟨after, hafter, hready', hrest ▸ hmem⟩

end Lifecycle

/-- The invariant of the bus. While a call of `close` is under way, everything that was sent is in
the log already. -/
structure Inv (s : State) : Prop where
  keeps : ∀ msg ∈ s.sent, s.Keeps msg
  closing : s.closing ≠ none → ∀ msg ∈ s.sent, .message msg ∈ s.log
  notRestarting : ∀ closing andInitialize, s.closing = some (closing, andInitialize) →
    andInitialize = false
  ready : s.isInitialized = true → s.closing = none → s.Ready

theorem started_inv (log : List LogEntry) : Inv (started log) where
  keeps _ h := absurd h List.not_mem_nil
  closing h := absurd rfl h
  notRestarting _ _ h := by cases h
  ready h := by cases h

theorem State.Keeps.logged (h : s.Keeps msg) (hpending : s.pending = []) :
    .message msg ∈ s.log := by
  obtain hlog | ⟨thread, hwriter, _, hmem⟩ := h
  · exact hlog
  · rw [State.pending, hwriter] at hpending
    rw [show thread.queue = [] from hpending] at hmem
    exact absurd hmem List.not_mem_nil

theorem Inv.initializeBus (h : Inv s) (hclosing : s.closing = none) {skipRecoveryPass : Bool}
    (hallowed : s.isInitialized = true ∨ skipRecoveryPass = false ∧ s.writer = none) :
    Inv (s.initializeBus shouldSendMsg skipRecoveryPass) := by
  by_cases hinit : s.isInitialized = true
  · rw [State.initializeBus, if_pos hinit]
    exact h
  · obtain ⟨rfl, hwriter⟩ := hallowed.resolve_left hinit
    obtain ⟨hlog, hsent, hclosed⟩ := initializeBus_frame shouldSendMsg s false
    refine ⟨fun msg hmsg => ?_, fun hnone => absurd (hclosed.trans hclosing) hnone,
      fun _ _ hsome => ?_, fun _ _ => initializeBus_ready hwriter (Bool.eq_false_iff.mpr hinit)⟩
    · -- without a writer, what was sent is in the log
      have hlogged := (h.keeps msg (hsent ▸ hmsg)).logged (by rw [State.pending, hwriter])
      exact .inl (hlog ▸ hlogged)
    · rw [hclosed, hclosing] at hsome
      cases hsome

theorem Inv.send (h : Inv s) (hallowed : s.isInitialized = true → s.closing = none)
    (hstep : step shouldSendMsg s (.send msg) = some s') : Inv s' := by
  obtain ⟨writer, hput⟩ := sendMessage_frame shouldSendMsg s msg
  have hkeeps : ∀ m ∈ s.sent, (s.sendMessage shouldSendMsg msg).Keeps m := fun m hm =>
    (h.keeps m hm).sendMessage msg
  have hready : s.isInitialized = true → s.closing = none →
      (s.sendMessage shouldSendMsg msg).Ready := fun hinit hclosing =>
    (h.ready hinit hclosing).sendMessage msg
  simp only [step, Option.some.injEq] at hstep
  subst hstep
  by_cases hinit : s.isInitialized = true
  · have hsent : (s.sendMessage shouldSendMsg msg).Keeps msg :=
      (h.ready hinit (hallowed hinit)).keeps_sent msg
    rw [hput] at hkeeps hready hsent
    rw [if_pos hinit, hput]
    refine ⟨fun m hm => ?_, fun hclosing => absurd (hallowed hinit) hclosing, h.notRestarting,
      hready⟩
    obtain hm | hm := List.mem_append.mp hm
    · exact hkeeps m hm
    · cases List.mem_singleton.mp hm
      exact hsent
  · rw [hput] at hkeeps hready
    rw [if_neg hinit, hput]
    exact ⟨hkeeps, h.closing, h.notRestarting, hready⟩

theorem Inv.close (h : Inv s) (hpending : s.pending = []) : Inv (s.close false) := by
  have hlogged : ∀ msg ∈ s.sent, .message msg ∈ s.log := fun msg hmsg =>
    (h.keeps msg hmsg).logged hpending
  unfold State.close
  split
  · exact ⟨fun msg hmsg => .inl (hlogged msg hmsg), fun _ => hlogged,
      fun _ _ hsome => by cases hsome; rfl, fun _ hnone => by cases hnone⟩
  · exact ⟨fun msg hmsg => .inl (hlogged msg hmsg), fun _ => hlogged,
      fun _ _ hsome => by cases hsome; rfl, fun _ hnone => by cases hnone⟩

/-- The invariant is kept when a call of `close` goes on. -/
theorem Inv.advance (h : Inv s) (hstep : step shouldSendMsg s .advance = some s') : Inv s' := by
  cases hclosing : s.closing with
  | none => simp [step, hclosing] at hstep
  | some closing =>
    obtain ⟨closing, andInitialize⟩ := closing
    have hlogged := h.closing (by simp [hclosing])
    obtain rfl := h.notRestarting _ _ hclosing
    cases closing with
    | terminating =>
      simp only [step, hclosing, Option.some.injEq] at hstep
      subst hstep
      exact ⟨fun msg hmsg => .inl (hlogged msg hmsg), fun _ => hlogged,
        fun _ _ hsome => by cases hsome; rfl, fun _ hnone => by cases hnone⟩
    | destinations =>
      simp only [step, hclosing, Bool.false_eq_true, if_false, Option.some.injEq] at hstep
      subst hstep
      exact ⟨fun msg hmsg => .inl (hlogged msg hmsg), fun hnone => absurd rfl hnone,
        (fun _ _ hsome => by cases hsome), fun hinit => by cases hinit⟩

theorem handle_frame (s : State) (thread : Thread) (command : Command) :
    (s.handle thread command).sent = s.sent ∧ (s.handle thread command).closing = s.closing ∧
      (s.handle thread command).isInitialized = s.isInitialized ∧
      (s.handle thread command).logWriter = s.logWriter := by
  cases command with
  | startLogging =>
    by_cases hpath : thread.hasLogFileBasePath = true <;> simp [State.handle, hpath]
  | initializeLog | appendMessageToLog | confirmMessageSent => exact ⟨rfl, rfl, rfl, rfl⟩

theorem step_handle (hstep : step shouldSendMsg s .handle = some s') :
    ∃ thread command rest, s.writer = some (some thread) ∧ thread.queue = command :: rest ∧
      s' = s.handle { thread with queue := rest } command := by
  simp only [step] at hstep
  split at hstep
  · rename_i thread hwriter
    split at hstep
    · rename_i command rest hqueue
      exact ⟨thread, command, rest, hwriter, hqueue, (Option.some.inj hstep).symm⟩
    · cases hstep
  · cases hstep

theorem Inv.handle (h : Inv s) (hstep : step shouldSendMsg s .handle = some s') : Inv s' := by
  obtain ⟨thread, command, rest, hwriter, hqueue, rfl⟩ := step_handle hstep
  obtain ⟨hsent, hclosing, hinit, hlogWriter⟩ :=
    handle_frame s { thread with queue := rest } command
  refine ⟨?_, ?_, ?_, ?_⟩
  · rw [hsent]
    exact fun msg hmsg => (h.keeps msg hmsg).handle hwriter hqueue
  · rw [hsent, hclosing]
    exact fun hne msg hmsg => log_subset_handle _ _ _ (h.closing hne msg hmsg)
  · rw [hclosing]
    exact h.notRestarting
  · rw [hinit, hclosing]
    intro hi hc
    obtain ⟨hlog, _, hwriter', hready⟩ := h.ready hi hc
    cases hwriter.symm.trans hwriter'
    obtain ⟨after, hafter, hready', _⟩ := hready.handle (s := s) hqueue
    exact ⟨hlogWriter.trans hlog, after, hafter, hready'⟩

theorem Inv.step (h : Inv s) {e : Event} (hallowed : allowed s e)
    (hstep : EventBus.step shouldSendMsg s e = some s') : Inv s' := by
  cases e with
  | initializeBus skipRecoveryPass =>
    simp only [EventBus.step, Option.ite_none_right_eq_some, Option.some.injEq] at hstep
    obtain ⟨hclosing, rfl⟩ := hstep
    exact h.initializeBus hclosing hallowed
  | send msg => exact h.send hallowed hstep
  | confirmSent id =>
    simp only [EventBus.step, Option.some.injEq] at hstep
    subst hstep
    split
    · obtain ⟨writer, hpost⟩ := postMessage_frame s (.confirmMessageSent id)
      have hkeeps : ∀ m ∈ s.sent, (s.postMessage (.confirmMessageSent id)).Keeps m :=
        fun m hm => (h.keeps m hm).postMessage _
      have hready : s.isInitialized = true → s.closing = none →
          (s.postMessage (.confirmMessageSent id)).Ready := fun hi hc =>
        (h.ready hi hc).postMessage _
      rw [hpost] at hkeeps hready ⊢
      exact ⟨hkeeps, h.closing, h.notRestarting, hready⟩
    · exact h
  | close =>
    simp only [EventBus.step, Option.ite_none_right_eq_some, Option.some.injEq] at hstep
    obtain ⟨_, rfl⟩ := hstep
    exact h.close hallowed
  | restart => exact hallowed.elim
  | advance => exact h.advance hstep
  | handle => exact h.handle hstep

theorem State.Keeps.logs (h : s.Keeps msg) : s.Logs shouldSendMsg msg := by
  obtain hlog | ⟨thread, hwriter, hready, hmem⟩ := h
  · exact ⟨0, s, rfl, hlog⟩
  · -- the commands before the message are handled first
    generalize hqueue : thread.queue = queue at hmem
    induction queue generalizing s thread with
    | nil => exact absurd hmem List.not_mem_nil
    | cons command rest ih =>
      let next := s.handle { thread with queue := rest } command
      have hstep : step shouldSendMsg s .handle = some next := by
        simp only [step, hwriter, hqueue]
        rfl
      obtain ⟨after, hafter, hready', hrest⟩ := hready.handle (s := s) hqueue
      obtain hlog | hmem := hready.log_or_rest (s := s) hqueue (hqueue ▸ hmem)
      · exact ⟨1, next, by simp [run, runAllowed, hstep], hlog⟩
      · obtain ⟨handled, s', hrun, hlog⟩ := ih after hafter hready' hrest hmem
        refine ⟨handled + 1, s', ?_, hlog⟩
        rw [List.replicate_succ, run, runAllowed, if_pos trivial, hstep]
        exact hrun

/-- In every run whose steps are allowed, each message that was sent while the bus was initialized
is in the log, or the running log writer appends it. -/
theorem sent_messages_logged (shouldSendMsg : Message → Bool) (log : List LogEntry) {s : State}
    (h : Reachable (step shouldSendMsg) allowed (started log) s) :
    ∀ msg ∈ s.sent, s.Logs shouldSendMsg msg := by
  have hinv : Inv s :=
    h.keeps Inv (started_inv log) fun _ _ _ hinv hallowed hstep => hinv.step hallowed hstep
  exact fun msg hmsg => (hinv.keeps msg hmsg).logs

/-- A message without a name. -/
def exampleMessage : Message := { id := ['1'], eventName := [] }

/-- A message that is sent after the first initialization gets into the log. -/
theorem first_message_logged :
    ∃ s, run (step fun _ => false) (started [])
        [.initializeBus false, .handle, .send exampleMessage, .initializeBus true] = some s ∧
      s.Logs (fun _ => false) exampleMessage :=
  let s : State :=
    { writer := some (some { queue := [.startLogging, .appendMessageToLog exampleMessage,
        .confirmMessageSent ['1']], hasLogFileBasePath := true }),
      logWriter := true, isInitialized := true, closing := none, log := [],
      sent := [exampleMessage] }
  have hrun : runAllowed (step fun _ => false) allowed (started [])
      [.initializeBus false, .handle, .send exampleMessage, .initializeBus true] = some s := by
    decide +kernel
  ⟨s, by decide +kernel, sent_messages_logged (fun _ => false) []
    (reachable_of_runAllowed .start hrun) exampleMessage (List.mem_singleton_self _)⟩

/-- After a restart the bus is initialized, but a message that is sent has no log writer. -/
theorem restart_loses_messages :
    ¬ ∀ s, Reachable (step fun _ => false) (fun _ _ => True) (started []) s →
      ∀ msg ∈ s.sent, s.Logs (fun _ => false) msg := by
  intro h
  have hrun : run (step fun _ => false) (started [])
      [.initializeBus false, .handle, .handle, .restart, .advance, .advance,
        .send exampleMessage] =
      some { writer := some none, logWriter := true, isInitialized := true, closing := none,
             log := [], sent := [exampleMessage] } := by decide +kernel
  obtain ⟨handled, s', hhandled, hlog⟩ :=
    h _ (reachable_of_run hrun) exampleMessage (List.mem_singleton_self _)
  cases handled with
  | zero =>
    cases hhandled
    exact absurd hlog List.not_mem_nil
  | succ handled => cases hhandled

section Closed

theorem postMessage_closed (hclosed : s.writer = some none) (command : Command) :
    s.postMessage command = s := by
  rw [State.postMessage, hclosed]

theorem sendMessage_closed (hclosed : s.writer = some none) (msg : Message) :
    s.sendMessage shouldSendMsg msg = s := by
  simp [State.sendMessage, postMessage_closed hclosed]

theorem send_closed (hclosed : s.writer = some none) (msgs : List Message) :
    s.send shouldSendMsg msgs = s := by
  induction msgs with
  | nil => rfl
  | cons msg msgs ih =>
    rw [State.send, List.foldl_cons, sendMessage_closed hclosed]
    exact ih

theorem initializeBus_closed (hclosed : s.writer = some none) (skipRecoveryPass : Bool) :
    (s.initializeBus shouldSendMsg skipRecoveryPass).writer = some none := by
  have hcreated : s.getInstance.writer = some none := by
    rw [State.getInstance, hclosed]
  unfold State.initializeBus
  split
  · exact hclosed
  · cases skipRecoveryPass with
    | true => exact hcreated
    | false =>
      dsimp only
      rw [if_neg Bool.false_ne_true, postMessage_closed hcreated, send_closed hcreated]
      exact hcreated

theorem step_closed (hclosed : s.writer = some none) {e : Event}
    (hstep : step shouldSendMsg s e = some s') : s'.writer = some none ∧ s'.log = s.log := by
  cases e with
  | initializeBus skipRecoveryPass =>
    simp only [step, Option.ite_none_right_eq_some, Option.some.injEq] at hstep
    obtain ⟨_, rfl⟩ := hstep
    exact ⟨initializeBus_closed hclosed _, (initializeBus_frame _ _ _).1⟩
  | send msg =>
    simp only [step, sendMessage_closed hclosed, Option.some.injEq] at hstep
    subst hstep
    split <;> exact ⟨hclosed, rfl⟩
  | confirmSent id =>
    simp only [step, postMessage_closed hclosed, ite_self, Option.some.injEq] at hstep
    subst hstep
    exact ⟨hclosed, rfl⟩
  | close | restart =>
    simp only [step, Option.ite_none_right_eq_some, Option.some.injEq] at hstep
    obtain ⟨_, rfl⟩ := hstep
    simp only [State.close, hclosed]
    split <;> simp_all
  | advance =>
    simp only [step] at hstep
    split at hstep
    · cases hstep
      exact ⟨rfl, rfl⟩
    · rename_i andInitialize _
      cases hstep
      cases andInitialize with
      | false => exact ⟨hclosed, rfl⟩
      | true =>
        let closed := { s with closing := none, isInitialized := false }
        have hwriter : closed.writer = some none := hclosed
        exact ⟨initializeBus_closed hwriter true, (initializeBus_frame _ closed true).1⟩
    · cases hstep
  | handle =>
    obtain ⟨thread, command, rest, hwriter, _⟩ := step_handle hstep
    cases hclosed.symm.trans hwriter

/-- A log writer that was closed never logs again. -/
theorem closed_never_logs (hclosed : s.writer = some none)
    (h : Reachable (step shouldSendMsg) (fun _ _ => True) s s') :
    s'.writer = some none ∧ s'.log = s.log := by
  refine h.keeps (fun s' => s'.writer = some none ∧ s'.log = s.log) ⟨hclosed, rfl⟩ ?_
  rintro s₁ e s₂ ⟨hclosed₁, hlog⟩ - hstep
  obtain ⟨hclosed₂, hlog₂⟩ := step_closed hclosed₁ hstep
  exact ⟨hclosed₂, hlog₂.trans hlog⟩

/-- A message that is sent after a restart and another initialization is not logged. -/
theorem closed_never_logs_restart :
    (run (step fun _ => false) { started [] with writer := some none }
      [.initializeBus false, .send exampleMessage]).all fun s => s.log = [] := by
  cases hrun : run (step fun _ => false) { started [] with writer := some none }
      [.initializeBus false, .send exampleMessage] with
  | none => rfl
  | some s => exact decide_eq_true (closed_never_logs rfl (reachable_of_run hrun)).2

end Closed

end N8n.EventBus
