import N8n.EventBus.EventLog

/-!
# What the event log answers

The log is a sequence of segments, which a rotation begins and the files with the counters up to the
number kept hold. The messages of an execution are read back up to the file that a rotation would
remove, which `getMessagesByExecutionId` leaves out, and of four types only. An execution is
reported as unfinished when the last of its started and node messages has no terminal message after
it, also when it had finished before a late node message.
-/

namespace N8n.EventBus

open Collections

section Segments

/-- The segments of the log, the current one first. -/
abbrev Segments := List (List LogLine)

/-- The log and whether the worker thread can write to it. -/
structure LogHistory where
  segments : Segments
  hasLogFileBasePath : Bool
  loggingPaused : Bool

namespace LogHistory

/-- A line is written to the current segment. -/
def append (history : LogHistory) (line : LogLine) : LogHistory :=
  if history.loggingPaused then history
  else
    { history with
      segments :=
        match history.segments with
        | [] => [[line]]
        | current :: earlier => (current ++ [line]) :: earlier }

/-- What a command of the worker thread is for. -/
def apply (options : LogWriterOptions) (history : LogHistory) : LogCommand → LogHistory
  | .spawnThread => { history with hasLogFileBasePath := false, loggingPaused := true }
  | .initializeLog => { history with hasLogFileBasePath := true }
  | .startLogging =>
    if history.hasLogFileBasePath then
      { history with segments := [] :: history.segments, loggingPaused := false }
    else history
  | .appendMessageToLog msg => history.append (.message msg)
  | .confirmMessageSent id source => history.append (.confirm id source)
  | .checkFileSize size =>
    if history.loggingPaused ∨ history.segments = [] then history
    else if options.maxFileSizeInKB * 1024 < size then
      { history with segments := [] :: history.segments }
    else history
  | .cleanLogs => { history with segments := [] }

def initial : LogHistory where
  segments := []
  hasLogFileBasePath := false
  loggingPaused := true

/-- The log after commands. -/
def applyAll (options : LogWriterOptions) (history : LogHistory) (commands : List LogCommand) :
    LogHistory :=
  commands.foldl (apply options) history

/-- The lines of the newest segments, in the order in which they were written. -/
def retained (history : LogHistory) (kept : Nat) : List LogLine :=
  (history.segments.take kept).reverse.flatten

end LogHistory

/-- The files that are kept hold the newest segments. -/
structure Holds (options : LogWriterOptions) (worker : LogWorker) (history : LogHistory) :
    Prop where
  files : ∀ counter ≤ LogWorker.keepFiles options,
    worker.files counter = history.segments[counter]?
  path : worker.hasLogFileBasePath = history.hasLogFileBasePath
  paused : worker.loggingPaused = history.loggingPaused

end Segments

section Rotation

namespace LogWorker

theorem keepFiles_pos (options : LogWriterOptions) : 0 < keepFiles options := by
  unfold keepFiles
  split <;> omega

theorem keepLogCount_le (options : LogWriterOptions) :
    options.keepLogCount ≤ keepFiles options := by
  unfold keepFiles
  split <;> omega

theorem renameLogs_apply {bound : Nat} {files : LogFiles} (hbound : files bound = none)
    (counter : Nat) :
    renameLogs files bound counter =
      if counter = 0 then none else if counter ≤ bound then files (counter - 1)
      else files counter := by
  induction bound generalizing files with
  | zero =>
    obtain rfl | hpos := Nat.eq_zero_or_pos counter
    · exact hbound
    · rw [renameLogs, if_neg (by omega), if_neg (by omega)]
  | succ bound ih =>
    -- after the step there is no file at the bound below
    have hmoved : (if (files bound).isSome then renameSync files bound (bound + 1) else files) =
        Function.update (Function.update files (bound + 1) (files bound)) bound none := by
      cases hfile : files bound with
      | some lines => rw [if_pos Option.isSome_some, renameSync, hfile]
      | none =>
        rw [if_neg nofun]
        funext other
        by_cases hother : other = bound
        · rw [hother, Function.update_self, hfile]
        · rw [Function.update_of_ne hother]
          by_cases hnext : other = bound + 1
          · rw [hnext, Function.update_self, hbound]
          · rw [Function.update_of_ne hnext]
    rw [renameLogs, hmoved, ih (Function.update_self ..)]
    by_cases hzero : counter = 0
    · rw [if_pos hzero, if_pos hzero]
    · rw [if_neg hzero, if_neg hzero]
      by_cases hle : counter ≤ bound
      · rw [if_pos hle, if_pos (show counter ≤ bound + 1 by omega),
          Function.update_of_ne (show counter - 1 ≠ bound by omega),
          Function.update_of_ne (show counter - 1 ≠ bound + 1 by omega)]
      · rw [if_neg hle]
        obtain rfl | hlt : counter = bound + 1 ∨ bound + 1 < counter := by omega
        · rw [if_pos le_rfl, Function.update_of_ne (show bound + 1 ≠ bound by omega),
            Function.update_self]
          rfl
        · rw [if_neg (show ¬ counter ≤ bound + 1 by omega),
            Function.update_of_ne (show counter ≠ bound by omega),
            Function.update_of_ne (show counter ≠ bound + 1 by omega)]

/-- A rotation begins an empty file and moves the others one up, without the last one. -/
theorem renameAndCreateLogs_apply {keepFiles : Nat} (hpos : 0 < keepFiles) (files : LogFiles)
    {counter : Nat} (hle : counter ≤ keepFiles) :
    renameAndCreateLogs keepFiles files counter =
      if counter = 0 then some [] else files (counter - 1) := by
  have hremoved : (if (files keepFiles).isSome then rmSync files keepFiles else files) =
      Function.update files keepFiles none := by
    cases hfile : files keepFiles with
    | some lines => rw [if_pos Option.isSome_some, rmSync]
    | none =>
      rw [if_neg nofun, ← hfile, Function.update_eq_self]
  rw [renameAndCreateLogs, hremoved]
  have hnone : Function.update files keepFiles none keepFiles = none := Function.update_self ..
  have hloop := renameLogs_apply hnone
  by_cases hzero : counter = 0
  · rw [if_pos hzero, hzero, Function.update_self, hloop 0, if_pos rfl]
    rfl
  · rw [if_neg hzero, Function.update_of_ne hzero, hloop, if_neg hzero, if_pos hle,
      Function.update_of_ne (show counter - 1 ≠ keepFiles by omega)]

theorem cleanAllLogs_apply (files : LogFiles) {bound counter : Nat} (hlt : counter < bound) :
    cleanAllLogs files bound counter = none := by
  induction bound with
  | zero => omega
  | succ bound ih =>
    rw [cleanAllLogs, rmSync]
    by_cases hcounter : counter = bound
    · rw [hcounter, Function.update_self]
    · rw [Function.update_of_ne hcounter]
      exact ih (by omega)

end LogWorker

variable {options : LogWriterOptions} {worker : LogWorker} {history : LogHistory}

theorem Holds.rotate (h : Holds options worker history) (counter : Nat)
    (hle : counter ≤ LogWorker.keepFiles options) :
    LogWorker.renameAndCreateLogs (LogWorker.keepFiles options) worker.files counter =
      ([] :: history.segments)[counter]? := by
  rw [LogWorker.renameAndCreateLogs_apply (LogWorker.keepFiles_pos options) _ hle]
  cases counter with
  | zero => rfl
  | succ counter =>
    rw [if_neg (by omega), Nat.add_sub_cancel, h.files counter (by omega),
      List.getElem?_cons_succ]

theorem Holds.append (h : Holds options worker history) (line : LogLine) :
    Holds options (worker.appendMessageSync line) (history.append line) := by
  unfold LogWorker.appendMessageSync LogHistory.append
  rw [h.paused]
  split
  · exact h
  · refine ⟨fun counter hle => ?_, h.path, rfl⟩
    have hcurrent := h.files 0 (Nat.zero_le _)
    have hother := h.files counter hle
    cases hsegments : history.segments with
    | nil =>
      rw [hsegments] at hcurrent hother
      cases counter with
      | zero => simp [hcurrent]
      | succ counter => simpa using hother
    | cons current earlier =>
      rw [hsegments] at hcurrent hother
      cases counter with
      | zero => simp [hcurrent]
      | succ counter => simpa using hother

theorem Holds.handle (h : Holds options worker history) (command : LogCommand) :
    Holds options (worker.handle options command) (history.apply options command) := by
  cases command with
  | spawnThread => exact ⟨h.files, rfl, rfl⟩
  | initializeLog => exact ⟨h.files, rfl, h.paused⟩
  | startLogging =>
    rw [LogWorker.handle, LogHistory.apply, h.path]
    split
    · exact ⟨h.rotate, rfl, rfl⟩
    · exact h
  | appendMessageToLog msg => exact h.append _
  | confirmMessageSent id source => exact h.append _
  | checkFileSize size =>
    have hnone : (worker.files 0).isNone ↔ history.segments = [] := by
      rw [h.files 0 (Nat.zero_le _), Option.isNone_iff_eq_none, List.getElem?_eq_none_iff,
        Nat.le_zero, List.length_eq_zero_iff]
    rw [LogWorker.handle, LogHistory.apply, h.paused]
    simp only [hnone]
    split
    · exact h
    · split
      · exact ⟨h.rotate, h.path, rfl⟩
      · exact h
  | cleanLogs =>
    exact ⟨fun counter hle => LogWorker.cleanAllLogs_apply _ (by omega), h.path, h.paused⟩

theorem handleAll_holds (options : LogWriterOptions) (commands : List LogCommand) :
    Holds options (LogWorker.handleAll options .initial commands)
      (LogHistory.applyAll options .initial commands) := by
  have hall : ∀ commands worker history, Holds options worker history →
      Holds options (LogWorker.handleAll options worker commands)
        (LogHistory.applyAll options history commands) := by
    intro commands
    induction commands with
    | nil => exact fun _ _ h => h
    | cons command commands ih => exact fun _ _ h => ih _ _ (h.handle command)
  exact hall commands _ _ ⟨fun _ _ => rfl, rfl, rfl⟩

end Rotation

section Reading

variable {options : LogWriterOptions} {worker : LogWorker} {history : LogHistory}

theorem Holds.lines (h : Holds options worker history) {bound : Nat}
    (hle : bound ≤ LogWorker.keepFiles options + 1) :
    ((List.range bound).reverse.flatMap fun counter => (worker.files counter).getD []) =
      history.retained bound := by
  induction bound with
  | zero => rfl
  | succ bound ih =>
    rw [List.range_succ, List.reverse_append, List.flatMap_append, ih (by omega),
      LogHistory.retained, LogHistory.retained, List.take_add_one, List.reverse_append,
      List.flatten_append]
    congr 1
    rw [List.reverse_singleton, List.flatMap_singleton, h.files bound (by omega)]
    cases history.segments[bound]? with
    | none => rfl
    | some lines => simp

/-- The lines of the files up to a counter, from that file on. -/
def linesUpTo (files : LogFiles) (counter : Nat) : List LogLine :=
  (List.range (counter + 1)).reverse.flatMap fun counter => (files counter).getD []

theorem getMessages_lines (options : LogWriterOptions) (files : LogFiles)
    (mode : EventMessageReturnMode) (logHistory : Nat) :
    getMessages options files mode logHistory =
      (linesUpTo files (logCount options logHistory)).foldl (readLine mode)
        { loggedMessages := [], sentMessages := [], unfinishedExecutions := .empty } := by
  unfold getMessages linesUpTo
  rw [List.foldl_flatMap]
  congr 1
  funext results counter
  cases files counter <;> rfl

theorem getMessages_eq (h : Holds options worker history) (mode : EventMessageReturnMode)
    (logHistory : Nat) :
    getMessages options worker.files mode logHistory =
      (history.retained (logCount options logHistory + 1)).foldl (readLine mode)
        { loggedMessages := [], sentMessages := [], unfinishedExecutions := .empty } := by
  have hkeep := LogWorker.keepLogCount_le options
  have hcount : logCount options logHistory ≤ options.keepLogCount := by
    unfold logCount
    split
    · exact le_rfl
    · exact Nat.min_le_left _ _
  rw [← h.lines (by omega), getMessages_lines]
  rfl

end Reading

section Unfinished

/-- The messages of an execution among the lines of the log. -/
def messagesOf (executionId : ExecutionId) (lines : List LogLine) : List EventMessage :=
  lines.filterMap fun line =>
    match line with
    | .message msg => if msg.executionId = some executionId then some msg else none
    | .confirm .. => none

theorem messagesOf_append (executionId : ExecutionId) (lines lines' : List LogLine) :
    messagesOf executionId (lines ++ lines') =
      messagesOf executionId lines ++ messagesOf executionId lines' :=
  List.filterMap_append

namespace EventMessage

def isStarted (msg : EventMessage) : Bool := msg.eventName = .workflowStarted

def isNode (msg : EventMessage) : Bool :=
  msg.eventName = .nodeStarted ∨ msg.eventName = .nodeFinished

/-- Is the event one of those that end an execution for the reader? -/
def isTerminal (msg : EventMessage) : Bool :=
  msg.eventName = .workflowSuccess ∨ msg.eventName = .workflowFailed ∨
    msg.eventName = .executionThrottled ∨ msg.eventName = .executionStartedDuringBootup

/-- Does the reader restore messages of the type? -/
def isRestored (msg : EventMessage) : Bool := (getEventMessageObjectByType msg).isSome

end EventMessage

section Searching

variable {α : Type} (p q : α → Bool)

/-- What follows the first element with a property. -/
def afterFirst : List α → Option (List α)
  | [] => none
  | a :: l => if p a then some l else afterFirst l

/-- What follows the last element with a property. -/
def afterLast : List α → Option (List α)
  | [] => none
  | a :: l => (afterLast l).or (if p a then some l else none)

variable {p q}

variable {l : List α}

theorem afterFirst_eq_none : afterFirst p l = none ↔ ∀ a ∈ l, p a = false := by
  induction l with
  | nil => simp [afterFirst]
  | cons a l ih =>
    rw [afterFirst]
    cases hp : p a <;> simp [hp, ih]

theorem afterLast_eq_none : afterLast p l = none ↔ ∀ a ∈ l, p a = false := by
  induction l with
  | nil => simp [afterLast]
  | cons a l ih =>
    rw [afterLast, Option.or_eq_none_iff, ih]
    cases hp : p a <;> simp [hp]

theorem afterLast_subset {rest : List α} (h : afterLast q l = some rest) : rest ⊆ l := by
  induction l generalizing rest with
  | nil => cases h
  | cons a l ih =>
    rw [afterLast, Option.or_eq_some_iff, Option.ite_none_right_eq_some] at h
    obtain h | ⟨-, -, h⟩ := h
    · exact List.subset_cons_of_subset a (ih h)
    · cases h
      exact List.subset_cons_self a l

theorem afterLast_of_cons {a : α} {rest : List α} (hl : afterLast q l = some rest) :
    afterLast q (a :: l) = some rest := by
  rw [afterLast, hl]
  rfl

theorem afterLast_cons_of {a : α} (ha : q a = true) :
    ∃ rest, afterLast q (a :: l) = some rest ∧ rest ⊆ l := by
  cases hl : afterLast q l with
  | none => exact ⟨l, by rw [afterLast, hl, if_pos ha]; rfl, List.Subset.refl l⟩
  | some rest => exact ⟨rest, afterLast_of_cons hl, afterLast_subset hl⟩

theorem afterLast_mono (hpq : ∀ a, p a = true → q a = true) {later : List α}
    (h : afterLast p l = some later) : ∃ rest, afterLast q l = some rest ∧ rest ⊆ later := by
  induction l with
  | nil => cases h
  | cons a l ih =>
    rw [afterLast] at h
    cases hlast : afterLast p l with
    | some later' =>
      rw [hlast] at h
      cases h
      obtain ⟨rest, hrest, hsub⟩ := ih hlast
      exact ⟨rest, afterLast_of_cons hrest, hsub⟩
    | none =>
      rw [hlast, Option.none_or, Option.ite_none_right_eq_some] at h
      obtain ⟨ha, hlater⟩ := h
      cases hlater
      exact afterLast_cons_of (hpq a ha)

theorem afterLast_of_afterFirst (hpq : ∀ a, p a = true → q a = true) {later : List α}
    (h : afterFirst p l = some later) : ∃ rest, afterLast q l = some rest ∧ rest ⊆ later := by
  induction l with
  | nil => cases h
  | cons a l ih =>
    rw [afterFirst] at h
    split at h
    · rename_i ha
      cases h
      exact afterLast_cons_of (hpq a ha)
    · obtain ⟨rest, hrest, hsub⟩ := ih h
      exact ⟨rest, afterLast_of_cons hrest, hsub⟩

end Searching

/-- The messages after the last started one, or after the first one of a node. -/
def sinceBegin (messages : List EventMessage) : Option (List EventMessage) :=
  (afterLast EventMessage.isStarted messages).or (afterFirst EventMessage.isNode messages)

/-- The execution began, and no terminal event follows. -/
def Unfinished (messages : List EventMessage) : Prop :=
  ∃ later ∈ sinceBegin messages, ∀ msg ∈ later, msg.isTerminal = false

/-- The messages after the last started one or one of a node. -/
def sinceTracked (messages : List EventMessage) : Option (List EventMessage) :=
  afterLast (fun msg => msg.isStarted || msg.isNode) messages

/-- Where a terminal event follows the beginning, one that is read back follows the last message
of a node and the last started one. -/
def EndsForGood (messages : List EventMessage) : Prop :=
  ∀ later ∈ sinceBegin messages, (∃ msg ∈ later, msg.isTerminal = true) →
    ∀ rest ∈ sinceTracked messages, ∃ msg ∈ rest, (msg.isRestored && msg.isTerminal) = true

/-- The reader's view: the last started message or one of a node is not followed by a terminal
event that is read back. -/
def Reported (messages : List EventMessage) : Prop :=
  ∃ rest ∈ sinceTracked messages, ∀ msg ∈ rest, (msg.isRestored && msg.isTerminal) = false

theorem sinceTracked_of_sinceBegin {messages later : List EventMessage}
    (h : sinceBegin messages = some later) :
    ∃ rest, sinceTracked messages = some rest ∧ rest ⊆ later := by
  rw [sinceBegin, Option.or_eq_some_iff] at h
  obtain h | ⟨-, h⟩ := h
  · exact afterLast_mono (fun msg hmsg => by simp [hmsg]) h
  · exact afterLast_of_afterFirst (fun msg hmsg => by simp [hmsg]) h

theorem sinceTracked_none {messages : List EventMessage} (h : sinceBegin messages = none) :
    sinceTracked messages = none := by
  rw [sinceBegin, Option.or_eq_none_iff, afterLast_eq_none, afterFirst_eq_none] at h
  rw [sinceTracked, afterLast_eq_none]
  intro msg hmem
  rw [h.1 msg hmem, h.2 msg hmem]
  rfl

theorem reported_iff_unfinished (messages : List EventMessage) :
    (Reported messages ↔ Unfinished messages) ↔ EndsForGood messages := by
  constructor
  · rintro hiff later hlater ⟨last, hlast, hterminal⟩ rest hrest
    by_contra hnone
    push Not at hnone
    obtain ⟨later', hlater', hopen⟩ := hiff.mp ⟨rest, hrest, fun msg hmem =>
      Bool.eq_false_iff.mpr (hnone msg hmem)⟩
    cases Option.mem_unique hlater hlater'
    exact absurd hterminal (by rw [hopen last hlast]; nofun)
  · intro hends
    constructor
    · rintro ⟨rest, hrest, hopen⟩
      cases hlater : sinceBegin messages with
      | none => cases (sinceTracked_none hlater).symm.trans hrest
      | some later =>
        refine ⟨later, hlater, fun msg hmem => ?_⟩
        by_contra hterminal
        obtain ⟨last, hlast, hend⟩ :=
          hends later hlater ⟨msg, hmem, Bool.eq_true_of_not_eq_false hterminal⟩ rest hrest
        exact absurd hend (by rw [hopen last hlast]; nofun)
    · rintro ⟨later, hlater, hopen⟩
      obtain ⟨rest, hrest, hsub⟩ := sinceTracked_of_sinceBegin hlater
      exact ⟨rest, hrest, fun msg hmem => by rw [hopen msg (hsub hmem), Bool.and_false]⟩

/-- Is the execution unfinished after a message of it that is read? -/
def tracks (unfinished : Bool) (msg : EventMessage) : Bool :=
  if msg.isRestored then
    if msg.isStarted || msg.isNode then true else if msg.isTerminal then false else unfinished
  else unfinished

theorem getEventMessageObjectByType_eq (msg : EventMessage) :
    getEventMessageObjectByType msg = if msg.isRestored then some msg else none := by
  unfold EventMessage.isRestored getEventMessageObjectByType
  cases msg.type <;> rfl

theorem restored_of_tracked {msg : EventMessage} (h : (msg.isStarted || msg.isNode) = true) :
    msg.isRestored = true := by
  have hallowed := msg.allowed
  unfold EventMessage.isRestored getEventMessageObjectByType
  unfold EventMessage.isStarted EventMessage.isNode at h
  cases htype : msg.type <;> cases hname : msg.eventName <;> simp_all [EventMessageTypeName.allows]

theorem trackExecution_has (unfinished : InsertionMap ExecutionId (List EventMessage))
    (executionId other : ExecutionId) {msg : EventMessage} (hrestored : msg.isRestored = true) :
    (trackExecution unfinished executionId msg).has other =
      if other = executionId then tracks (unfinished.has other) msg else unfinished.has other := by
  unfold trackExecution tracks EventMessage.isStarted EventMessage.isNode EventMessage.isTerminal
  rw [if_pos hrestored]
  by_cases hother : other = executionId
  · subst hother
    cases hname : msg.eventName <;>
      simp [InsertionMap.has, InsertionMap.get_delete]
  · have hknown : (if unfinished.has executionId then unfinished
        else unfinished.set executionId []).has other = unfinished.has other := by
      split
      · rfl
      · rw [InsertionMap.has, InsertionMap.get_set_other _ _ hother]
        rfl
    rw [if_neg hother, ← hknown]
    cases hname : msg.eventName <;>
      simp [InsertionMap.has, InsertionMap.get_set, InsertionMap.get_delete, hother] at hknown ⊢ <;>
      exact hknown.symm

theorem readLine_has (mode : EventMessageReturnMode) (results : ReadMessagesFromLogFileResult)
    (executionId : ExecutionId) (line : LogLine) :
    (readLine mode results line).unfinishedExecutions.has executionId =
      (messagesOf executionId [line]).foldl tracks
        (results.unfinishedExecutions.has executionId) := by
  cases line with
  | confirm id source =>
    rw [readLine]
    split <;> rfl
  | message msg =>
    rw [readLine, getEventMessageObjectByType_eq]
    cases hrestored : msg.isRestored with
    | false =>
      rw [if_neg nofun]
      by_cases hid : msg.executionId = some executionId
      · simp [messagesOf, hid, tracks, hrestored]
      · simp [messagesOf, hid]
    | true =>
      rw [if_pos rfl]
      dsimp only
      cases hid : msg.executionId with
      | none => simp [messagesOf, hid]
      | some other =>
        dsimp only
        rw [trackExecution_has _ _ _ hrestored]
        by_cases heq : executionId = other
        · simp [messagesOf, hid, heq]
        · simp [messagesOf, hid, heq, Ne.symm heq]

theorem readLines_has (mode : EventMessageReturnMode) (executionId : ExecutionId)
    (lines : List LogLine) (results : ReadMessagesFromLogFileResult) :
    (lines.foldl (readLine mode) results).unfinishedExecutions.has executionId =
      (messagesOf executionId lines).foldl tracks
        (results.unfinishedExecutions.has executionId) := by
  induction lines generalizing results with
  | nil => rfl
  | cons line lines ih =>
    have hcons : messagesOf executionId (line :: lines) =
        messagesOf executionId [line] ++ messagesOf executionId lines :=
      messagesOf_append executionId [line] lines
    rw [List.foldl_cons, ih, readLine_has, hcons, List.foldl_append]

/-- An execution is unfinished after its messages when the last tracked one stays open, and where
none is tracked when it was and stays open. -/
theorem foldl_tracks (messages : List EventMessage) (unfinished : Bool) :
    messages.foldl tracks unfinished = true ↔
      match sinceTracked messages with
      | some rest => ∀ msg ∈ rest, (msg.isRestored && msg.isTerminal) = false
      | none =>
        unfinished = true ∧ ∀ msg ∈ messages, (msg.isRestored && msg.isTerminal) = false := by
  induction messages generalizing unfinished with
  | nil => simp [sinceTracked, afterLast]
  | cons msg messages ih =>
    rw [List.foldl_cons, ih]
    have hcons : sinceTracked (msg :: messages) =
        (sinceTracked messages).or
          (if (msg.isStarted || msg.isNode) = true then some messages else none) := rfl
    rw [hcons]
    cases sinceTracked messages with
    | some rest => rfl
    | none =>
      rw [Option.none_or, tracks]
      by_cases htracked : (msg.isStarted || msg.isNode) = true
      · rw [if_pos htracked, if_pos (restored_of_tracked htracked), if_pos htracked]
        simp
      · rw [if_neg htracked, if_neg htracked]
        cases hrestored : msg.isRestored <;> cases hterminal : msg.isTerminal <;>
          simp [hrestored, hterminal]

theorem reported_iff (messages : List EventMessage) :
    messages.foldl tracks false = true ↔ Reported messages := by
  rw [foldl_tracks, Reported]
  cases sinceTracked messages <;> simp

end Unfinished

section ByExecution

variable {options : LogWriterOptions} {worker : LogWorker} {history : LogHistory}

theorem readFromFileByExecutionId_eq (executionId : ExecutionId) (file : Option (List LogLine)) :
    readFromFileByExecutionId executionId file =
      (messagesOf executionId (file.getD [])).filter EventMessage.isRestored := by
  cases file with
  | none => rfl
  | some lines =>
    rw [readFromFileByExecutionId, messagesOf, Option.getD_some, List.filter_filterMap]
    refine List.filterMap_congr fun line _ => ?_
    cases line with
    | confirm id source => rfl
    | message msg =>
      by_cases hid : msg.executionId = some executionId
      · simp [hid, getEventMessageObjectByType_eq, Option.filter_some]
      · simp [hid]

theorem getMessagesByExecutionId_perm (h : Holds options worker history)
    (executionId : ExecutionId) :
    (getMessagesByExecutionId options worker.files executionId 0).Perm
      ((messagesOf executionId (history.retained options.keepLogCount)).filter
        EventMessage.isRestored) := by
  have hkeep := LogWorker.keepLogCount_le options
  refine (List.perm_insertionSort _ _).trans ?_
  rw [logCount, if_pos rfl, ← h.lines (by omega)]
  refine ((List.reverse_perm _).symm.flatMap_right _).trans (.of_eq ?_)
  simp only [readFromFileByExecutionId_eq, messagesOf, List.filterMap_flatMap, List.filter_flatMap]

/-- All of the messages are returned exactly when there is none in the last file and all are of a
type that is read back. -/
theorem all_returned_iff (h : Holds options worker history) (executionId : ExecutionId) :
    (getMessagesByExecutionId options worker.files executionId 0).Perm
        (messagesOf executionId (history.retained (options.keepLogCount + 1))) ↔
      messagesOf executionId (history.segments[options.keepLogCount]?.getD []) = [] ∧
        ∀ msg ∈ messagesOf executionId (history.retained (options.keepLogCount + 1)),
          msg.isRestored = true := by
  have hperm := getMessagesByExecutionId_perm h executionId
  have hlines : history.retained (options.keepLogCount + 1) =
      history.segments[options.keepLogCount]?.getD [] ++ history.retained options.keepLogCount := by
    rw [LogHistory.retained, LogHistory.retained, List.take_add_one, List.reverse_append,
      List.flatten_append]
    cases history.segments[options.keepLogCount]? <;> simp
  rw [hlines, messagesOf_append]
  generalize messagesOf executionId (history.segments[options.keepLogCount]?.getD []) = oldest
  generalize messagesOf executionId (history.retained options.keepLogCount) = read at hperm ⊢
  constructor
  · intro hall
    have hlength := (hperm.symm.trans hall).length_eq
    have hle := List.length_filter_le EventMessage.isRestored read
    rw [List.length_append] at hlength
    have holdest : oldest = [] := List.length_eq_zero_iff.mp (by omega)
    subst holdest
    refine ⟨rfl, fun msg hmem => ?_⟩
    exact List.length_filter_eq_length_iff.mp (by simpa using hlength) msg hmem
  · rintro ⟨rfl, hrestored⟩
    rw [List.nil_append] at hrestored ⊢
    rwa [List.filter_eq_self.mpr hrestored] at hperm

end ByExecution

/-- The log tells of an execution whether it is unfinished and all of its messages in the order of
time, exactly when the execution ends for good, the last file has none of its messages, and all of
them are of a type that is read back. -/
theorem log_answers (options : LogWriterOptions) (commands : List LogCommand)
    (executionId : ExecutionId) (mode : EventMessageReturnMode) (logHistory : Nat)
    (hfull : logHistory = 0 ∨ options.keepLogCount ≤ logHistory) :
    let files := (LogWorker.handleAll options .initial commands).files
    let history := LogHistory.applyAll options .initial commands
    let messages := messagesOf executionId (history.retained (options.keepLogCount + 1))
    let returned := getMessagesByExecutionId options files executionId 0
    ((getMessages options files mode logHistory).unfinishedExecutions.has executionId = true ↔
        Unfinished messages) ∧
      returned.Perm messages ∧ returned.Pairwise (·.ts ≤ ·.ts) ↔
    EndsForGood messages ∧
      messagesOf executionId (history.segments[options.keepLogCount]?.getD []) = [] ∧
      ∀ msg ∈ messages, msg.isRestored = true := by
  intro files history messages returned
  have hholds := handleAll_holds options commands
  have hcount : logCount options logHistory = options.keepLogCount := by
    unfold logCount
    split
    · rfl
    · exact Nat.min_eq_left (hfull.resolve_left ‹_›)
  have hunfinished :
      (getMessages options files mode logHistory).unfinishedExecutions.has executionId = true ↔
        Reported messages := by
    rw [getMessages_eq hholds, hcount, readLines_has]
    exact reported_iff messages
  have hsorted : returned.Pairwise (·.ts ≤ ·.ts) := List.pairwise_insertionSort _ _
  rw [hunfinished, reported_iff_unfinished, all_returned_iff hholds]
  exact and_congr_right fun _ => and_iff_left hsorted

instance (messages : List EventMessage) : Decidable (EndsForGood messages) :=
  inferInstanceAs (Decidable (∀ _ ∈ _, _ → ∀ _ ∈ _, _))

/-- A started message of an execution. -/
def startedMessage : EventMessage :=
  ⟨.workflow, ['1'], 1, .workflowStarted, some ⟨['7'], List.cons_ne_nil _ _⟩, rfl⟩

/-- The end of the same execution. -/
def successMessage : EventMessage :=
  ⟨.workflow, ['2'], 2, .workflowSuccess, some ⟨['7'], List.cons_ne_nil _ _⟩, rfl⟩

/-- The log is rotated between the two messages. -/
def rotated : List LogCommand :=
  [.initializeLog, .startLogging, .appendMessageToLog startedMessage, .checkFileSize 1025,
    .appendMessageToLog successMessage]

/-- Two rotated files are kept: the execution has finished and both messages are returned. -/
theorem log_answers_rotated :
    let files := (LogWorker.handleAll ⟨2, 1⟩ .initial rotated).files
    let messages := [startedMessage, successMessage]
    let returned := getMessagesByExecutionId ⟨2, 1⟩ files ⟨['7'], List.cons_ne_nil _ _⟩ 0
    ((getMessages ⟨2, 1⟩ files .all 0).unfinishedExecutions.has
        ⟨['7'], List.cons_ne_nil _ _⟩ = true ↔
        Unfinished messages) ∧
      returned.Perm messages ∧ returned.Pairwise (·.ts ≤ ·.ts) :=
  (log_answers ⟨2, 1⟩ rotated ⟨['7'], List.cons_ne_nil _ _⟩ .all 0 (.inl rfl)).mpr
    (by decide +kernel)

/-- One rotated file is kept, and the message in it is not returned. -/
theorem oldest_file_left_out :
    ¬ ∀ options commands executionId mode logHistory,
      logHistory = 0 ∨ options.keepLogCount ≤ logHistory →
        let files := (LogWorker.handleAll options .initial commands).files
        let history := LogHistory.applyAll options .initial commands
        let messages := messagesOf executionId (history.retained (options.keepLogCount + 1))
        let returned := getMessagesByExecutionId options files executionId 0
        ((getMessages options files mode logHistory).unfinishedExecutions.has executionId = true ↔
            Unfinished messages) ∧
          returned.Perm messages ∧ returned.Pairwise (·.ts ≤ ·.ts) := by
  intro hall
  obtain ⟨-, hperm, -⟩ := hall ⟨1, 1⟩ rotated ⟨['7'], List.cons_ne_nil _ _⟩ .all 0 (.inl rfl)
  exact absurd hperm.length_eq (by decide +kernel)

end N8n.EventBus
