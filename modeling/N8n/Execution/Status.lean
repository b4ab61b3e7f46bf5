/-!
# Statuses of stored executions
-/

namespace N8n

/-- The status of a stored execution. -/
inductive ExecutionStatus where
  | new
  | running
  | waiting
  | success
  | error
  | canceled
  | crashed
  deriving DecidableEq, Repr

/-- The statuses of `getInProgressExecutionIds`. -/
def ExecutionStatus.isInProgress : ExecutionStatus → Bool
  | .new | .running => true
  | .waiting | .success | .error | .canceled | .crashed => false

end N8n
