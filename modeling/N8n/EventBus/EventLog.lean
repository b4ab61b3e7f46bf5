import Mathlib.Data.List.Sort
import N8n.Collections.InsertionMap

/-!
# The event log

The worker thread of the log writer appends the messages and confirms of the event bus to a file and
rotates the files
(`packages/cli/src/eventbus/message-event-bus-writer/message-event-bus-log-writer-worker.ts`). The
log writer reads them back (`message-event-bus-log-writer.ts` beside it). A line of a file is a
message or a confirm, and what a message carries besides its execution is left out. The names of all
events have the three parts that the reader asks for.
-/

namespace N8n.EventBus

open Collections

/-- The id of an execution, which is not the empty text. -/
structure ExecutionId where
  text : List Char
  nonempty : text ≠ []
  deriving DecidableEq

/-- The names of the events. -/
inductive EventName where
  | workflowStarted
  | workflowSuccess
  | workflowFailed
  | executionThrottled
  | executionStartedDuringBootup
  | nodeStarted
  | nodeFinished
  /-- Any other name. -/
  | other (name : List Char)
  deriving DecidableEq

def EventName.text : EventName → List Char
  | .workflowStarted => "n8n.workflow.started".toList
  | .workflowSuccess => "n8n.workflow.success".toList
  | .workflowFailed => "n8n.workflow.failed".toList
  | .executionThrottled => "n8n.execution.throttled".toList
  | .executionStartedDuringBootup => "n8n.execution.started-during-bootup".toList
  | .nodeStarted => "n8n.node.started".toList
  | .nodeFinished => "n8n.node.finished".toList
  | .other name => name

/-- `EventMessageTypeNames`, except for the one of a confirm. -/
inductive EventMessageTypeName where
  | generic
  | audit
  | workflow
  | node
  | execution
  | aiNode
  | runner
  | queue
  deriving DecidableEq

/-- Can a message of the type have the name? A generic message can have any. -/
def EventMessageTypeName.allows : EventMessageTypeName → EventName → Bool
  | .generic, _ => true
  | .workflow, .workflowStarted => true
  | .workflow, .workflowSuccess => true
  | .workflow, .workflowFailed => true
  | .node, .nodeStarted => true
  | .node, .nodeFinished => true
  | .execution, .executionThrottled => true
  | .execution, .executionStartedDuringBootup => true
  | .audit, .other _ => true
  | .aiNode, .other _ => true
  | .runner, .other _ => true
  | .queue, .other _ => true
  | _, _ => false

/-- A message, with the time of its timestamp in milliseconds. -/
structure EventMessage where
  type : EventMessageTypeName
  id : List Char
  ts : Nat
  eventName : EventName
  executionId : Option ExecutionId
  allowed : type.allows eventName = true
  deriving DecidableEq

/-- A line of the log. A confirm has the id of a destination, or of the bus, as its source. -/
inductive LogLine where
  | message (msg : EventMessage)
  | confirm (id source : List Char)
  deriving DecidableEq

/-- The files of the log by their counters. The current one has the counter zero. -/
abbrev LogFiles := Nat → Option (List LogLine)

/-- The options of the log writer. -/
structure LogWriterOptions where
  keepLogCount : Nat
  maxFileSizeInKB : Nat

section Worker

/-- The state of the worker thread with the files. -/
structure LogWorker where
  files : LogFiles
  hasLogFileBasePath : Bool
  loggingPaused : Bool

inductive LogCommand where
  /-- A new worker thread. -/
  | spawnThread
  | initializeLog
  | startLogging
  | appendMessageToLog (msg : EventMessage)
  | confirmMessageSent (id source : List Char)
  /-- The size of the current file in bytes is known. -/
  | checkFileSize (size : Nat)
  | cleanLogs

namespace LogWorker

/-- `keepFiles` after `setKeepFiles`. -/
def keepFiles (options : LogWriterOptions) : Nat :=
  if options.keepLogCount < 1 then 1 else options.keepLogCount

def rmSync (files : LogFiles) (counter : Nat) : LogFiles := Function.update files counter none

def renameSync (files : LogFiles) (old new : Nat) : LogFiles :=
  Function.update (Function.update files new (files old)) old none

/-- The loop of `renameAndCreateLogs` over the counters below a bound, from the highest one. -/
def renameLogs (files : LogFiles) : Nat → LogFiles
  | 0 => files
  | counter + 1 =>
    renameLogs (if (files counter).isSome then renameSync files counter (counter + 1) else files)
      counter

/-- Cycle through the log files up to the number kept. -/
def renameAndCreateLogs (keepFiles : Nat) (files : LogFiles) : LogFiles :=
  let removed := if (files keepFiles).isSome then rmSync files keepFiles else files
  let renamed := renameLogs removed keepFiles
  Function.update renamed 0 (some ((renamed 0).getD []))

/-- Remove the files with the counters below a bound. -/
def cleanAllLogs (files : LogFiles) : Nat → LogFiles
  | 0 => files
  | bound + 1 => rmSync (cleanAllLogs files bound) bound

def appendMessageSync (worker : LogWorker) (line : LogLine) : LogWorker :=
  if worker.loggingPaused then worker
  else
    { worker with
      files := Function.update worker.files 0 (some ((worker.files 0).getD [] ++ [line])) }

/-- The worker thread handles a command. -/
def handle (options : LogWriterOptions) (worker : LogWorker) : LogCommand → LogWorker
  | .spawnThread => { worker with hasLogFileBasePath := false, loggingPaused := true }
  | .initializeLog => { worker with hasLogFileBasePath := true }
  | .startLogging =>
    if worker.hasLogFileBasePath then
      { worker with
        files := renameAndCreateLogs (keepFiles options) worker.files
        loggingPaused := false }
    else worker
  | .appendMessageToLog msg => worker.appendMessageSync (.message msg)
  | .confirmMessageSent id source => worker.appendMessageSync (.confirm id source)
  | .checkFileSize size =>
    if worker.loggingPaused ∨ (worker.files 0).isNone then worker
    else if options.maxFileSizeInKB * 1024 < size then
      { worker with files := renameAndCreateLogs (keepFiles options) worker.files }
    else worker
  | .cleanLogs => { worker with files := cleanAllLogs worker.files (keepFiles options + 1) }

/-- A worker thread without any files. -/
def initial : LogWorker where
  files := fun _ => none
  hasLogFileBasePath := false
  loggingPaused := true

/-- The worker thread after commands. -/
def handleAll (options : LogWriterOptions) (worker : LogWorker) (commands : List LogCommand) :
    LogWorker :=
  commands.foldl (handle options) worker

end LogWorker

end Worker

section Reader

inductive EventMessageReturnMode where
  | sent
  | unsent
  | all
  | unfinished
  deriving DecidableEq

structure ReadMessagesFromLogFileResult where
  loggedMessages : List EventMessage
  sentMessages : List EventMessage
  unfinishedExecutions : InsertionMap ExecutionId (List EventMessage)

def getEventMessageObjectByType (message : EventMessage) : Option EventMessage :=
  match message.type with
  | .generic => some message
  | .workflow => some message
  | .audit => some message
  | .node => some message
  | _ => none

/-- The unfinished executions after a message of an execution. -/
def trackExecution (unfinished : InsertionMap ExecutionId (List EventMessage))
    (executionId : ExecutionId) (msg : EventMessage) :
    InsertionMap ExecutionId (List EventMessage) :=
  let known :=
    if unfinished.has executionId then unfinished else unfinished.set executionId []
  match msg.eventName with
  | .workflowStarted => known.set executionId [msg]
  | .workflowSuccess => unfinished.delete executionId
  | .workflowFailed => unfinished.delete executionId
  | .executionThrottled => unfinished.delete executionId
  | .executionStartedDuringBootup => unfinished.delete executionId
  | .nodeStarted => known.set executionId ((known.get? executionId).getD [] ++ [msg])
  | .nodeFinished => known.set executionId ((known.get? executionId).getD [] ++ [msg])
  | .other _ => unfinished

/-- A line of a log file is read. -/
def readLine (mode : EventMessageReturnMode) (results : ReadMessagesFromLogFileResult) :
    LogLine → ReadMessagesFromLogFileResult
  | .message json =>
    match getEventMessageObjectByType json with
    | none => results
    | some msg =>
      { results with
        loggedMessages := results.loggedMessages ++ [msg]
        unfinishedExecutions :=
          match msg.executionId with
          | none => results.unfinishedExecutions
          | some executionId =>
            trackExecution results.unfinishedExecutions executionId msg }
  | .confirm id _ =>
    if mode = .all then results
    else
      { results with
        loggedMessages := results.loggedMessages.filter (·.id ≠ id)
        sentMessages :=
          if mode = .sent then
            results.sentMessages ++ results.loggedMessages.filter (·.id = id)
          else results.sentMessages }

def readLoggedMessagesFromFile (mode : EventMessageReturnMode)
    (results : ReadMessagesFromLogFileResult) (file : Option (List LogLine)) :
    ReadMessagesFromLogFileResult :=
  match file with
  | none => results
  | some lines => lines.foldl (readLine mode) results

/-- How far the log is read back. No history is the number zero. -/
def logCount (options : LogWriterOptions) (logHistory : Nat) : Nat :=
  if logHistory = 0 then options.keepLogCount else min options.keepLogCount logHistory

def getMessages (options : LogWriterOptions) (files : LogFiles) (mode : EventMessageReturnMode)
    (logHistory : Nat) : ReadMessagesFromLogFileResult :=
  (List.range (logCount options logHistory + 1)).reverse.foldl
    (fun results counter => readLoggedMessagesFromFile mode results (files counter))
    { loggedMessages := [], sentMessages := [], unfinishedExecutions := .empty }

def readFromFileByExecutionId (executionId : ExecutionId) (file : Option (List LogLine)) :
    List EventMessage :=
  match file with
  | none => []
  | some lines =>
    lines.filterMap fun line =>
      match line with
      | .message json =>
        if json.executionId = some executionId then getEventMessageObjectByType json else none
      | .confirm .. => none

def getMessagesByExecutionId (options : LogWriterOptions) (files : LogFiles)
    (executionId : ExecutionId) (logHistory : Nat) : List EventMessage :=
  ((List.range (logCount options logHistory)).flatMap fun counter =>
    readFromFileByExecutionId executionId (files counter)).insertionSort fun a b => a.ts ≤ b.ts

end Reader

end N8n.EventBus
