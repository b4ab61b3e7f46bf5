import Mathlib.Data.List.Sort
import N8n.Execution.Data
import N8n.PartialExecution.DirectedGraph

/-!
# Groups of incoming connections

`getSourceDataGroups` of `partial-execution-utils/get-source-data-groups.ts` sorts the connections
into a node by input and source and takes them apart into groups, each with one connection for
consecutive inputs. `getIncomingDataFromAnyRun` of `get-incoming-data.ts` finds the data of a
connection.
-/

namespace N8n.PartialExecution

open Collections Execution

variable {ι : Type}

section IncomingData

/-- The data of one run on an output. The array of the connection type has to exist. -/
def getIncomingData (run : ITaskData ι) (connectionType : NodeConnectionType) (outputIndex : Nat) :
    Except GraphError (Option (List ι)) :=
  match run.data with
  | none => .ok none
  | some data =>
    match data.get? connectionType with
    | none => .error .typeError
    | some outputs => .ok (readSlot outputs outputIndex).toOption

/-- The first of the runs, counted from `runIndex`, that has items on an output. -/
def firstRunWithData (connectionType : NodeConnectionType) (outputIndex : Nat) :
    List (ITaskData ι) → Nat → Except GraphError (Option (List ι × Nat))
  | [], _ => .ok none
  | run :: rest, runIndex => do
    match ← getIncomingData run connectionType outputIndex with
    | some data =>
      if data.length > 0 then return some (data, runIndex)
      else firstRunWithData connectionType outputIndex rest (runIndex + 1)
    | none => firstRunWithData connectionType outputIndex rest (runIndex + 1)

/-- `getIncomingDataFromAnyRun(runData, nodeName, connectionType, outputIndex)`. -/
def getIncomingDataFromAnyRun (runData : IRunData ι) (nodeName : String)
    (connectionType : NodeConnectionType) (outputIndex : Nat) :
    Except GraphError (Option (List ι × Nat)) :=
  firstRunWithData connectionType outputIndex ((runData.get? nodeName).getD []) 0

end IncomingData

section Groups

/-- A group of connections. It is complete when all of them have data. -/
structure SourceConnectionGroup where
  complete : Bool
  connections : List GraphConnection
  deriving DecidableEq, Repr

/-- `newGroup()`. -/
def newGroup : SourceConnectionGroup := { complete := true, connections := [] }

/-- `sortByInputIndexThenByName(connection1, connection2)` is not positive. How the names of two
sources compare depends on the locale. -/
def sortsBefore (localeCompare : String → String → Int)
    (connection1 connection2 : GraphConnection) :
    Bool :=
  if connection1.inputIndex = connection2.inputIndex then
    localeCompare connection1.fromNode.name connection2.fromNode.name ≤ 0
  else connection1.inputIndex ≤ connection2.inputIndex

/-- `connections.sort(sortByInputIndexThenByName)`, which is stable. -/
def sortConnections (localeCompare : String → String → Int) (connections : List GraphConnection) :
    List GraphConnection :=
  connections.insertionSort fun c1 c2 => sortsBefore localeCompare c1 c2 = true

/-- The source of the connection has run data or pinned data. -/
def hasData (runData : IRunData ι) (pinData : IPinData ι) (connection : GraphConnection) : Bool :=
  runData.has connection.fromNode.name || pinData.has connection.fromNode.name

/-- The variables of the loop that forms the groups. `nextInputIndex` is the input that the next
round looks for, which is `currentInputIndex + 1`. -/
structure Grouping where
  withData : List GraphConnection
  withoutData : List GraphConnection
  groups : List SourceConnectionGroup
  currentGroup : SourceConnectionGroup
  nextInputIndex : Nat

namespace Grouping

/-- The smallest input index of the connections that are left. -/
def minInputIndex (withData withoutData : List GraphConnection) : Nat :=
  ((withData ++ withoutData).map (·.inputIndex)).min?.getD 0

/-- One round of the loop: take a connection to the next input, preferably one with data, or end
the group. -/
def step (g : Grouping) : Grouping :=
  match g.withData.find? (·.inputIndex = g.nextInputIndex) with
  | some connection =>
    { g with
      currentGroup :=
        { g.currentGroup with connections := g.currentGroup.connections ++ [connection] }
      withData := g.withData.eraseP (·.inputIndex = g.nextInputIndex)
      nextInputIndex := g.nextInputIndex + 1 }
  | none =>
    match g.withoutData.find? (·.inputIndex = g.nextInputIndex) with
    | some connection =>
      { g with
        currentGroup := ⟨false, g.currentGroup.connections ++ [connection]⟩
        withoutData := g.withoutData.eraseP (·.inputIndex = g.nextInputIndex)
        nextInputIndex := g.nextInputIndex + 1 }
    | none =>
      { g with
        groups := g.groups ++ [g.currentGroup]
        currentGroup := newGroup
        nextInputIndex := minInputIndex g.withData g.withoutData }

/-- The loop, at most `fuel` rounds. -/
def loop : Nat → Grouping → List SourceConnectionGroup
  | 0, g => g.groups ++ [g.currentGroup]
  | fuel + 1, g =>
    if g.withData = [] ∧ g.withoutData = [] then g.groups ++ [g.currentGroup]
    else loop fuel g.step

end Grouping

/-- The connections into a node that the groups are made of. Those without data are left out
unless they are main connections. -/
def groupedConnections (graph : DirectedGraph) (node : INode) (runData : IRunData ι)
    (pinData : IPinData ι) : List GraphConnection × List GraphConnection :=
  let connections := graph.getConnections node
  (connections.filter (hasData runData pinData),
    connections.filter fun c => !hasData runData pinData c && c.type = .main)

/-- `getSourceDataGroups(graph, node, runData, pinnedData)`. A round takes a connection, or the
next one does, so that two rounds for each connection are enough. -/
def getSourceDataGroups (localeCompare : String → String → Int) (graph : DirectedGraph)
    (node : INode) (runData : IRunData ι) (pinData : IPinData ι) : List SourceConnectionGroup :=
  let (withData, withoutData) := groupedConnections graph node runData pinData
  if withData = [] ∧ withoutData = [] then []
  else
    let sortedWithData := sortConnections localeCompare withData
    let sortedWithoutData := sortConnections localeCompare withoutData
    Grouping.loop (2 * (withData.length + withoutData.length))
      { withData := sortedWithData
        withoutData := sortedWithoutData
        groups := []
        currentGroup := newGroup
        nextInputIndex := Grouping.minInputIndex sortedWithData sortedWithoutData }

end Groups

end N8n.PartialExecution
