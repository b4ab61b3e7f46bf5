import N8n.Transition.ReversibleCommands
import N8n.Transition.Runs

/-!
# The history of the editor

Recorded commands go to the undo stack, one by one or in a bulk, which drops a command that is equal
to one it has. Undoing takes the last undoable back and puts its reverse on the redo stack, and
redoing the other way round. See `packages/frontend/editor-ui/src/stores/history.store.ts`, and
`undo` and `redo` of `packages/frontend/editor-ui/src/composables/useHistoryHelper.ts`. An undo or a
redo is over before the next command is recorded.
-/

namespace N8n.EditorHistory

/-! ## The commands of the editor

What a user does to a workflow is recorded as commands. Each command emits an event that takes it
back, has a reverse command, and has an equality of its own. See
`packages/frontend/editor-ui/src/models/history.ts`. The events have the effect that their names
state; the references to nodes in parameters are not followed when a node is renamed. Names of
commands and timestamps are left out.
-/

/-- A node of the workflow. `parameters` tells the objects of parameters apart. -/
structure INodeUi where
  id : List Char
  name : List Char
  position : Int × Int
  disabled : Bool
  parameters : Nat
  deriving DecidableEq

structure IConnection where
  node : List Char
  type : List Char
  index : Nat
  deriving DecidableEq

/-- The workflow: the node with a name, and whether two ends are connected. -/
@[ext] structure Workflow where
  node : List Char → Option INodeUi
  connected : IConnection × IConnection → Bool

/-- The commands. -/
inductive Command where
  | moveNode (nodeName : List Char) (oldPosition newPosition : Int × Int)
  | addNode (node : INodeUi)
  | removeNode (node : INodeUi)
  | addConnection (connectionData : IConnection × IConnection)
  | removeConnection (connectionData : IConnection × IConnection)
  | enableNodeToggle (nodeName : List Char) (oldState newState : Bool)
  | renameNode (currentName newName : List Char)
  | replaceNodeParameters (nodeId : List Char) (currentParameters newParameters : Nat)
  deriving DecidableEq

/-- The events that commands emit to be taken back. -/
inductive RevertEvent where
  | nodeMove (nodeName : List Char) (position : Int × Int)
  | revertAddNode (node : INodeUi)
  | revertRemoveNode (node : INodeUi)
  | revertAddConnection (connection : IConnection × IConnection)
  | revertRemoveConnection (connection : IConnection × IConnection)
  | enableNodeToggle (nodeName : List Char) (isDisabled : Bool)
  | revertRenameNode (currentName newName : List Char)
  | revertReplaceNodeParameters (nodeId : List Char) (currentProperties newProperties : Nat)

namespace Workflow

/-- Change the node with a name, if there is one. -/
def updateNode (w : Workflow) (nodeName : List Char) (f : INodeUi → INodeUi) : Workflow :=
  { w with node := fun name => if name = nodeName then (w.node name).map f else w.node name }

def setNode (w : Workflow) (nodeName : List Char) (node : Option INodeUi) : Workflow :=
  { w with node := fun name => if name = nodeName then node else w.node name }

def setConnection (w : Workflow) (connection : IConnection × IConnection) (connected : Bool) :
    Workflow :=
  { w with
    connected := fun other => if other = connection then connected else w.connected other }

/-- Change the parameters of the node with an id. -/
def setParameters (w : Workflow) (nodeId : List Char) (parameters : Nat) : Workflow :=
  { w with
    node := fun name =>
      (w.node name).map fun node => if node.id = nodeId then { node with parameters } else node }

/-- An end of a connection before a node was renamed. -/
def endBefore (oldName newName : List Char) (connection : IConnection) : IConnection :=
  if connection.node = newName then { connection with node := oldName } else connection

/-- Rename a node, and the ends of its connections. -/
def rename (w : Workflow) (oldName newName : List Char) : Workflow where
  node name :=
    if name = newName then (w.node oldName).map fun node => { node with name := newName }
    else if name = oldName then none
    else w.node name
  connected connection :=
    if connection.1.node = oldName ∨ connection.2.node = oldName then false
    else
      w.connected
        (endBefore oldName newName connection.1, endBefore oldName newName connection.2)

end Workflow

/-- The effect of an event on the workflow. -/
def RevertEvent.effect (w : Workflow) : RevertEvent → Workflow
  | .nodeMove nodeName position => w.updateNode nodeName fun node => { node with position }
  | .revertAddNode node => w.setNode node.name none
  | .revertRemoveNode node => w.setNode node.name (some node)
  | .revertAddConnection connection => w.setConnection connection false
  | .revertRemoveConnection connection => w.setConnection connection true
  | .enableNodeToggle nodeName isDisabled =>
    w.updateNode nodeName fun node => { node with disabled := isDisabled }
  | .revertRenameNode currentName newName => w.rename newName currentName
  | .revertReplaceNodeParameters nodeId currentProperties _ =>
    w.setParameters nodeId currentProperties

namespace Command

/-- `getReverseCommand(timestamp)`. -/
def getReverseCommand : Command → Command
  | .moveNode nodeName oldPosition newPosition => .moveNode nodeName newPosition oldPosition
  | .addNode node => .removeNode node
  | .removeNode node => .addNode node
  | .addConnection connectionData => .removeConnection connectionData
  | .removeConnection connectionData => .addConnection connectionData
  | .enableNodeToggle nodeName oldState newState => .enableNodeToggle nodeName newState oldState
  | .renameNode currentName newName => .renameNode newName currentName
  | .replaceNodeParameters nodeId currentParameters newParameters =>
    .replaceNodeParameters nodeId newParameters currentParameters

/-- Do the connections have the same nodes and indexes? Their types are not compared. -/
def sameEnds (connectionData other : IConnection × IConnection) : Bool :=
  decide (other.1.node = connectionData.1.node ∧ other.2.node = connectionData.2.node ∧
    other.1.index = connectionData.1.index ∧ other.2.index = connectionData.2.index)

/-- `command.isEqualTo(anotherCommand)`. The removal of a node is compared with additions. -/
def isEqualTo : Command → Command → Bool
  | .moveNode nodeName oldPosition newPosition, .moveNode nodeName' oldPosition' newPosition' =>
    decide (nodeName' = nodeName ∧ oldPosition' = oldPosition ∧ newPosition' = newPosition)
  | .addNode node, .addNode node' => decide (node'.name = node.name)
  | .removeNode node, .addNode node' => decide (node'.name = node.name)
  | .addConnection connectionData, .addConnection connectionData' =>
    sameEnds connectionData connectionData'
  | .removeConnection connectionData, .removeConnection connectionData' =>
    sameEnds connectionData connectionData'
  | .enableNodeToggle nodeName _ _, .enableNodeToggle nodeName' _ _ => decide (nodeName' = nodeName)
  | .renameNode currentName newName, .renameNode currentName' newName' =>
    decide (currentName' = currentName ∧ newName' = newName)
  | .replaceNodeParameters nodeId currentParameters newParameters,
      .replaceNodeParameters nodeId' currentParameters' newParameters' =>
      decide (nodeId' = nodeId ∧ currentParameters' = currentParameters ∧
        newParameters' = newParameters)
  | _, _ => false

/-- The event that `revert()` emits. -/
def revertEvent : Command → RevertEvent
  | .moveNode nodeName oldPosition _ => .nodeMove nodeName oldPosition
  | .addNode node => .revertAddNode node
  | .removeNode node => .revertRemoveNode node
  | .addConnection connectionData => .revertAddConnection connectionData
  | .removeConnection connectionData => .revertRemoveConnection connectionData
  | .enableNodeToggle nodeName oldState _ => .enableNodeToggle nodeName oldState
  | .renameNode currentName newName => .revertRenameNode currentName newName
  | .replaceNodeParameters nodeId currentParameters newParameters =>
    .revertReplaceNodeParameters nodeId currentParameters newParameters

/-- `revert()`. -/
def revert (c : Command) (w : Workflow) : Workflow := c.revertEvent.effect w

/-- What a recorded command says was done: the reverse command is taken back. -/
def perform (c : Command) (w : Workflow) : Workflow := c.getReverseCommand.revert w

/-- The command describes a change of the workflow: what it takes as the old state is the state of
the workflow, and the names of new nodes are free. -/
def Describes : Command → Workflow → Prop
  | .moveNode nodeName oldPosition _, w =>
    ∃ node, w.node nodeName = some node ∧ node.position = oldPosition
  | .addNode node, w => w.node node.name = none
  | .removeNode node, w => w.node node.name = some node
  | .addConnection connectionData, w => w.connected connectionData = false
  | .removeConnection connectionData, w => w.connected connectionData = true
  | .enableNodeToggle nodeName oldState _, w =>
    ∃ node, w.node nodeName = some node ∧ node.disabled = oldState
  | .renameNode currentName newName, w =>
    (∃ node, w.node currentName = some node ∧ node.name = currentName) ∧
      w.node newName = none ∧
      ∀ connection, w.connected connection = true →
        connection.1.node ≠ newName ∧ connection.2.node ≠ newName
  | .replaceNodeParameters nodeId currentParameters _, w =>
    ∀ name node, w.node name = some node → node.id = nodeId →
      node.parameters = currentParameters

theorem getReverseCommand_getReverseCommand (c : Command) :
    c.getReverseCommand.getReverseCommand = c := by
  cases c <;> rfl

theorem revert_eq_perform (c : Command) : c.revert = c.getReverseCommand.perform := by
  funext w
  rw [perform, getReverseCommand_getReverseCommand]

end Command

namespace Workflow

variable {w : Workflow}

theorem updateNode_updateNode {nodeName : List Char} {node : INodeUi} {f g : INodeUi → INodeUi}
    (hnode : w.node nodeName = some node) (hback : g (f node) = node) :
    (w.updateNode nodeName f).updateNode nodeName g = w := by
  refine Workflow.ext (funext fun name => ?_) rfl
  by_cases hname : name = nodeName
  · subst hname
    simp [updateNode, hnode, hback]
  · simp [updateNode, hname]

theorem updateNode_node {nodeName : List Char} {node : INodeUi} {f : INodeUi → INodeUi}
    (hnode : w.node nodeName = some node) :
    (w.updateNode nodeName f).node nodeName = some (f node) := by
  simp [updateNode, hnode]

theorem setNode_setNode (w : Workflow) (nodeName : List Char) (node : Option INodeUi) :
    (w.setNode nodeName node).setNode nodeName (w.node nodeName) = w := by
  refine Workflow.ext (funext fun name => ?_) rfl
  by_cases hname : name = nodeName
  · subst hname
    simp [setNode]
  · simp [setNode, hname]

theorem setConnection_setConnection (w : Workflow) (connection : IConnection × IConnection)
    (connected : Bool) :
    (w.setConnection connection connected).setConnection connection (w.connected connection) =
      w := by
  refine Workflow.ext rfl (funext fun other => ?_)
  by_cases hother : other = connection
  · subst hother
    simp [setConnection]
  · simp [setConnection, hother]

theorem setParameters_setParameters {nodeId : List Char} {old : Nat}
    (hold : ∀ name node, w.node name = some node → node.id = nodeId → node.parameters = old)
    (new : Nat) : (w.setParameters nodeId new).setParameters nodeId old = w := by
  refine Workflow.ext (funext fun name => ?_) rfl
  show Option.map _ (Option.map _ (w.node name)) = w.node name
  cases hnode : w.node name with
  | none => rfl
  | some node =>
    by_cases hid : node.id = nodeId
    · simp [hid, ← hold name node hnode hid]
      rw [← hid]
    · simp [hid]

section Rename

variable {oldName newName : List Char}

theorem endBefore_endBefore {connection : IConnection} (hfresh : connection.node ≠ newName) :
    endBefore oldName newName (endBefore newName oldName connection) = connection := by
  obtain ⟨node, type, index⟩ := connection
  by_cases hnode : node = oldName
  · subst hnode
    simp [endBefore]
  · simp [endBefore, hnode, show node ≠ newName from hfresh]

theorem endBefore_node_ne (hne : oldName ≠ newName) (connection : IConnection) :
    (endBefore newName oldName connection).node ≠ oldName := by
  by_cases hnode : connection.node = oldName
  · simp [endBefore, hnode, hne.symm]
  · simp [endBefore, hnode]

theorem rename_rename {node : INodeUi} (hnode : w.node oldName = some node)
    (hname : node.name = oldName) (hfree : w.node newName = none)
    (hfresh : ∀ connection, w.connected connection = true →
      connection.1.node ≠ newName ∧ connection.2.node ≠ newName) :
    (w.rename oldName newName).rename newName oldName = w := by
  have hne : oldName ≠ newName := by
    rintro rfl
    rw [hnode] at hfree
    cases hfree
  refine Workflow.ext (funext fun name => ?_) (funext fun connection => ?_)
  · by_cases hold : name = oldName
    · subst hold
      have hback : ({ { node with name := newName } with name := name } : INodeUi) = node := by
        rw [← hname]
      simp [rename, hnode, hback]
    · by_cases hnew : name = newName
      · subst hnew
        simp [rename, hold, hfree]
      · simp [rename, hold, hnew]
  · by_cases hmentions : connection.1.node = newName ∨ connection.2.node = newName
    · -- what mentions the new name was not connected
      have hnot : w.connected connection = false := by
        refine Bool.eq_false_iff.mpr fun hconnected => ?_
        obtain ⟨hsource, htarget⟩ := hfresh connection hconnected
        exact hmentions.elim hsource htarget
      rw [hnot]
      exact if_pos hmentions
    · obtain ⟨hsource, htarget⟩ := not_or.mp hmentions
      refine (if_neg hmentions).trans ((if_neg ?_).trans ?_)
      · exact not_or.mpr ⟨endBefore_node_ne hne connection.1, endBefore_node_ne hne connection.2⟩
      · rw [endBefore_endBefore hsource, endBefore_endBefore htarget]

end Rename

end Workflow

namespace Command

variable {c : Command} {w : Workflow}

theorem Describes.reverse (h : c.Describes w) : c.getReverseCommand.Describes (c.perform w) := by
  cases c with
  | moveNode nodeName oldPosition newPosition =>
    obtain ⟨node, hnode, -⟩ := h
    exact ⟨_, Workflow.updateNode_node hnode, rfl⟩
  | addNode node => exact if_pos rfl
  | removeNode node => exact if_pos rfl
  | addConnection connectionData => exact if_pos rfl
  | removeConnection connectionData => exact if_pos rfl
  | enableNodeToggle nodeName oldState newState =>
    obtain ⟨node, hnode, -⟩ := h
    exact ⟨_, Workflow.updateNode_node hnode, rfl⟩
  | renameNode currentName newName =>
    obtain ⟨⟨node, hnode, hname⟩, hfree, hfresh⟩ := h
    have hne : currentName ≠ newName := by
      rintro rfl
      rw [hnode] at hfree
      cases hfree
    refine ⟨⟨{ node with name := newName }, ?_, rfl⟩, ?_, fun connection hconnected => ?_⟩
    · show (w.rename currentName newName).node newName = _
      simp [Workflow.rename, hnode]
    · show (w.rename currentName newName).node currentName = none
      simp [Workflow.rename, hne]
    · have hmentions : ¬ (connection.1.node = currentName ∨ connection.2.node = currentName) := by
        intro hmentions
        have hnot : (w.rename currentName newName).connected connection = false :=
          if_pos hmentions
        exact absurd (hnot.symm.trans hconnected) Bool.false_ne_true
      exact not_or.mp hmentions
  | replaceNodeParameters nodeId currentParameters newParameters =>
    intro name node hnode hid
    obtain ⟨old, hold, rfl⟩ := Option.map_eq_some_iff.mp hnode
    by_cases hsame : old.id = nodeId
    · rw [if_pos hsame]
    · rw [if_neg hsame] at hid
      exact absurd hid hsame

theorem Describes.perform_reverse (h : c.Describes w) :
    c.getReverseCommand.perform (c.perform w) = w := by
  cases c with
  | moveNode nodeName oldPosition newPosition =>
    obtain ⟨node, hnode, rfl⟩ := h
    exact Workflow.updateNode_updateNode hnode rfl
  | addNode node =>
    have hback := w.setNode_setNode node.name (some node)
    rw [show w.node node.name = none from h] at hback
    exact hback
  | removeNode node =>
    have hback := w.setNode_setNode node.name none
    rw [show w.node node.name = some node from h] at hback
    exact hback
  | addConnection connectionData =>
    have hback := w.setConnection_setConnection connectionData true
    rw [show w.connected connectionData = false from h] at hback
    exact hback
  | removeConnection connectionData =>
    have hback := w.setConnection_setConnection connectionData false
    rw [show w.connected connectionData = true from h] at hback
    exact hback
  | enableNodeToggle nodeName oldState newState =>
    obtain ⟨node, hnode, rfl⟩ := h
    exact Workflow.updateNode_updateNode hnode rfl
  | renameNode currentName newName =>
    obtain ⟨⟨node, hnode, hname⟩, hfree, hfresh⟩ := h
    exact Workflow.rename_rename hnode hname hfree hfresh
  | replaceNodeParameters nodeId currentParameters newParameters =>
    exact Workflow.setParameters_setParameters h newParameters

end Command

/-- The commands of the editor can be reversed where they describe a change. -/
def reversibleCommands : Transition.ReversibleCommands Command Workflow where
  apply := Command.perform
  reverse := Command.getReverseCommand
  Valid := Command.Describes
  reverse_valid := Command.Describes.reverse
  reverse_apply := Command.Describes.perform_reverse

/-! ## The history of the editor -/

/-- A command, or a bulk of commands. -/
inductive Undoable where
  | command (c : Command)
  | bulk (commands : List Command)

/-- The commands of an undoable. -/
def Undoable.commands : Undoable → List Command
  | .command c => [c]
  | .bulk commands => commands

/-- An undoable on a stack, with the workflow before and after its commands. -/
structure Entry where
  undoable : Undoable
  source : Workflow
  target : Workflow

/-- `STACK_LIMIT`. -/
def stackLimit : Nat := 100

/-- The store and the workflow. The top of a stack is its first element. `bulkSource` records the
workflow before the first command of the current bulk. -/
structure State where
  undoStack : List Entry
  redoStack : List Entry
  currentBulkAction : Option (List Command)
  bulkSource : Workflow
  workflow : Workflow

/-- An editor that has just loaded a workflow. -/
def started (workflow : Workflow) : State :=
  { undoStack := [], redoStack := [], currentBulkAction := none, bulkSource := workflow, workflow }

namespace State

/-- `checkUndoStackLimit()`. -/
def checkUndoStackLimit (s : State) : State :=
  if stackLimit < s.undoStack.length then { s with undoStack := s.undoStack.dropLast } else s

/-- `checkRedoStackLimit()`. -/
def checkRedoStackLimit (s : State) : State :=
  if stackLimit < s.redoStack.length then { s with redoStack := s.redoStack.dropLast } else s

/-- Is a command equal to the new one in the bulk already? -/
def alreadyIn (commands : List Command) (undoable : Command) : Bool :=
  commands.any fun c => c.isEqualTo undoable

/-- `pushCommandToUndo(undoable, clearRedo)` when no bulk is being undone. `source` is the workflow
before the command. -/
def pushCommandToUndo (s : State) (source : Workflow) (undoable : Command) (clearRedo : Bool) :
    State :=
  let pushed :=
    match s.currentBulkAction with
    | some commands =>
      if alreadyIn commands undoable then s
      else
        { s with
          currentBulkAction := some (commands ++ [undoable])
          bulkSource := if commands.isEmpty then source else s.bulkSource }
    | none =>
      { s with
        undoStack := { undoable := .command undoable, source, target := s.workflow } ::
          s.undoStack }
  let checked := pushed.checkUndoStackLimit
  if clearRedo then { checked with redoStack := [] } else checked

/-- `pushBulkCommandToUndo(undoable, false)`. -/
def pushBulkCommandToUndo (s : State) (entry : Entry) : State :=
  checkUndoStackLimit { s with undoStack := entry :: s.undoStack }

/-- `pushUndoableToRedo(undoable)`. -/
def pushUndoableToRedo (s : State) (entry : Entry) : State :=
  checkRedoStackLimit { s with redoStack := entry :: s.redoStack }

/-- `startRecordingUndo()`. -/
def startRecordingUndo (s : State) : State := { s with currentBulkAction := some [] }

/-- `stopRecordingUndo()`. -/
def stopRecordingUndo (s : State) : State :=
  let stopped :=
    match s.currentBulkAction with
    | some (first :: rest) =>
      s.pushBulkCommandToUndo
        { undoable := .bulk (first :: rest), source := s.bulkSource, target := s.workflow }
    | _ => s
  { stopped with currentBulkAction := none }

/-- The commands of a bulk are taken back from the last to the first. -/
def revertAll (commands : List Command) (w : Workflow) : Workflow :=
  commands.foldr (fun c w => c.revert w) w

/-- The reverse commands, in the order in which they are collected. -/
def reverseCommands (commands : List Command) : List Command :=
  commands.reverse.map Command.getReverseCommand

/-- `undo()`. -/
def undo (s : State) : State :=
  match s.undoStack with
  | [] => s
  | entry :: rest =>
    match entry.undoable with
    | .bulk commands =>
      pushUndoableToRedo
        { s with undoStack := rest, workflow := revertAll commands s.workflow }
        { undoable := .bulk (reverseCommands commands), source := entry.target,
          target := entry.source }
    | .command c =>
      pushUndoableToRedo { s with undoStack := rest, workflow := c.revert s.workflow }
        { undoable := .command c.getReverseCommand, source := entry.target,
          target := entry.source }

/-- `redo()`. -/
def redo (s : State) : State :=
  match s.redoStack with
  | [] => s
  | entry :: rest =>
    match entry.undoable with
    | .bulk commands =>
      pushBulkCommandToUndo
        { s with redoStack := rest, workflow := revertAll commands s.workflow }
        { undoable := .bulk (reverseCommands commands), source := entry.target,
          target := entry.source }
    | .command c =>
      pushCommandToUndo { s with redoStack := rest, workflow := c.revert s.workflow } s.workflow
        c.getReverseCommand false

/-- A user performs a command, which is recorded. -/
def record (s : State) (c : Command) : State :=
  pushCommandToUndo { s with workflow := c.perform s.workflow } s.workflow c true

end State

/-- What the user does. -/
inductive Event where
  | record (c : Command)
  | startRecordingUndo
  | stopRecordingUndo
  | undo
  | redo

/-- The state after an event. -/
def step (s : State) : Event → Option State
  | .record c => some (s.record c)
  | .startRecordingUndo => some s.startRecordingUndo
  | .stopRecordingUndo => some s.stopRecordingUndo
  | .undo => some s.undo
  | .redo => some s.redo

end N8n.EditorHistory
