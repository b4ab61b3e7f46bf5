import N8n.Collections.Fallible
import N8n.Collections.InsertionMap

/-!
# Cron jobs of workflows

`toCronExpression` turns the poll times of a node into cron expressions. `registerCron` and
`deregisterCrons` keep the map from workflows to their running jobs. `TaskState` also counts what
has been started, so that every job and every opened trigger has an identity of its own. Whether
the `cron` package takes an expression is the parameter `cronError`.
-/

namespace N8n.Activation

open Collections

abbrev WorkflowId := List Char

/-- The units of `everyX` poll times. -/
inductive PollUnit where
  | minutes
  | hours
  deriving DecidableEq, Repr

/-- The poll times a user can choose. -/
inductive TriggerTime where
  | custom (cronExpression : List Char)
  | everyMinute
  | everyX (unit : PollUnit) (value : Nat)
  | everyHour (minute : Nat)
  | everyDay (hour minute : Nat)
  | everyWeek (hour minute weekday : Nat)
  | everyMonth (hour minute dayOfMonth : Nat)
  deriving DecidableEq, Repr

/-- The characters that `trim` removes. -/
def isWhitespace (c : Char) : Bool :=
  (9 ≤ c.toNat ∧ c.toNat ≤ 13) || (0x2000 ≤ c.toNat ∧ c.toNat ≤ 0x200A) ||
    [0x20, 0xA0, 0x1680, 0x2028, 0x2029, 0x202F, 0x205F, 0x3000, 0xFEFF].contains c.toNat

/-- The text without white space at its ends. -/
def trim (text : List Char) : List Char :=
  ((text.dropWhile isWhitespace).reverse.dropWhile isWhitespace).reverse

/-- A number in decimal notation. -/
def decimal (n : Nat) : List Char := (Nat.repr n).toList

/-- The cron expression of a poll time, for the random second and minute that were drawn. -/
def toCronExpression (randomSecond randomMinute : Nat) : TriggerTime → List Char
  | .everyMinute => decimal randomSecond ++ " * * * * *".toList
  | .everyHour minute => decimal randomSecond ++ ' ' :: decimal minute ++ " * * * *".toList
  | .everyX .minutes value =>
    decimal randomSecond ++ " */".toList ++ decimal value ++ " * * * *".toList
  | .everyX .hours value =>
    decimal randomSecond ++ ' ' :: decimal randomMinute ++ " */".toList ++ decimal value ++
      " * * *".toList
  | .everyDay hour minute =>
    decimal randomSecond ++ ' ' :: decimal minute ++ ' ' :: decimal hour ++ " * * *".toList
  | .everyWeek hour minute weekday =>
    decimal randomSecond ++ ' ' :: decimal minute ++ ' ' :: decimal hour ++ " * * ".toList ++
      decimal weekday
  | .everyMonth hour minute dayOfMonth =>
    decimal randomSecond ++ ' ' :: decimal minute ++ ' ' :: decimal hour ++
      ' ' :: decimal dayOfMonth ++ " * *".toList
  | .custom cronExpression => trim cronExpression

/-- How often a job with an activated recurrence rule runs. -/
structure Recurrence where
  intervalSize : Nat
  typeInterval : List Char
  deriving DecidableEq, Repr

/-- A job to register; `recurrence` is `none` when its rule is not activated. -/
structure Cron where
  expression : List Char
  recurrence : Option Recurrence
  deriving DecidableEq, Repr

/-- How a job is shown in the logs. -/
def Cron.displayable (cron : Cron) : List Char :=
  match cron.recurrence with
  | some r =>
    cron.expression ++ " (every ".toList ++ decimal r.intervalSize ++ ' ' :: r.typeInterval ++
      [')']
  | none => cron.expression

/-- A running job. -/
structure CronEntry where
  job : Nat
  displayableCron : List Char
  deriving DecidableEq, Repr

/-- What a started trigger leaves with its workflow: the trigger that its close function closes. -/
structure TriggerResponse where
  closeFunction : Option Nat
  deriving DecidableEq, Repr

/-- The workflows that are active in memory, the running jobs, the triggers that have not been
closed, and the next identity of a job or a trigger. -/
structure TaskState where
  activeWorkflows : InsertionMap WorkflowId (List TriggerResponse)
  cronMap : InsertionMap WorkflowId (List CronEntry)
  openTriggers : List Nat
  nextId : Nat
  deriving DecidableEq, Repr

namespace TaskState

/-- The running jobs of a workflow. -/
def crons (s : TaskState) (workflowId : WorkflowId) : List CronEntry :=
  (s.cronMap.get? workflowId).getD []

section

variable (cronError : List Char → Option (List Char))

/-- Start a job for a workflow, or fail as the `cron` package does. -/
def registerCron (workflowId : WorkflowId) (cron : Cron) (s : TaskState) :
    Except (List Char) Unit × TaskState :=
  match cronError cron.expression with
  | some message => (.error message, s)
  | none =>
    let cronEntry : CronEntry := ⟨s.nextId, cron.displayable⟩
    (.ok (),
      { s with
        cronMap := s.cronMap.set workflowId (s.crons workflowId ++ [cronEntry])
        nextId := s.nextId + 1 })

/-- Start jobs one after the other until one fails. -/
def registerCrons (workflowId : WorkflowId) (crons : List Cron) (s : TaskState) :
    Except (List Char) Unit × TaskState :=
  forEach (registerCron cronError workflowId) crons s

end

/-- Stop all jobs of a workflow. -/
def deregisterCrons (workflowId : WorkflowId) (s : TaskState) : TaskState :=
  if s.crons workflowId = [] then s else { s with cronMap := s.cronMap.delete workflowId }

end TaskState

end N8n.Activation
