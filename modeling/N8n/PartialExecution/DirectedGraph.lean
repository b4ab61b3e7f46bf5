import N8n.Workflow.Types

/-!
# Directed graphs of workflows

`DirectedGraph` of `packages/core/src/execution-engine/partial-execution-utils/directed-graph.ts`:
nodes filed under their names and connections filed under a key made of the names of both ends,
the connection type and both indexes. A failed `a.ok` and a `TypeError` are the two ways in
which an operation throws; an operation that throws leaves the graph as it was.
-/

namespace N8n.PartialExecution

open Collections

/-- The exceptions of the graph operations. -/
inductive GraphError where
  /-- `a.ok` of a node that is not in the graph. -/
  | assertion
  /-- Reading a property of `undefined`. -/
  | typeError
  /-- The bound on the depth of a recursion was reached, which no call does. -/
  | outOfFuel
  deriving DecidableEq, Repr

/-- A stored connection. -/
structure GraphConnection where
  fromNode : INode
  toNode : INode
  type : NodeConnectionType
  outputIndex : Nat
  inputIndex : Nat
  deriving DecidableEq, Repr

/-- The argument of `addConnection`, with its optional properties. -/
structure ConnectionInput where
  fromNode : INode
  toNode : INode
  type : Option NodeConnectionType := none
  outputIndex : Option Nat := none
  inputIndex : Option Nat := none
  deriving DecidableEq, Repr

/-- A stored connection is an argument with nothing left out. -/
def GraphConnection.toInput (c : GraphConnection) : ConnectionInput :=
  { fromNode := c.fromNode, toNode := c.toNode, type := some c.type,
    outputIndex := some c.outputIndex,
    inputIndex := some c.inputIndex }

/-- `makeKey` on the parts of a connection that it reads. -/
def connectionKey (fromName : String) (type : NodeConnectionType) (outputIndex inputIndex : Nat)
    (toName : String) : String :=
  fromName ++ "-" ++ type.toString ++ "-" ++ toString outputIndex ++ "-" ++
    toString inputIndex ++ "-" ++ toName

/-- `makeKey(connection)`. -/
def makeKey (c : GraphConnection) : String :=
  connectionKey c.fromNode.name c.type c.outputIndex c.inputIndex c.toNode.name

/-- The connection has the node at one of its ends. -/
def GraphConnection.touches (c : GraphConnection) (node : INode) : Bool :=
  c.toNode = node || c.fromNode = node

/-- The vertices and edges of a `DirectedGraph`. -/
structure DirectedGraph where
  nodes : InsertionMap String INode
  connections : InsertionMap String GraphConnection
  deriving DecidableEq, Repr

/-- The options of `removeNode`. -/
structure RemoveNodeOptions where
  reconnectConnections : Bool := false
  skipConnectionFn : Option (GraphConnection → Bool) := none

namespace DirectedGraph

/-- `new DirectedGraph()`. -/
def empty : DirectedGraph := ⟨.empty, .empty⟩

/-- `hasNode(nodeName)`. -/
def hasNode (g : DirectedGraph) (nodeName : String) : Bool := g.nodes.has nodeName

/-- `getNodes()`, as the list of the nodes in insertion order. -/
def getNodes (g : DirectedGraph) : List INode := g.nodes.values

/-- `getConnections(filter)`. -/
def getConnections (g : DirectedGraph) (target : Option INode := none) : List GraphConnection :=
  g.connections.values.filter fun c => match target with
    | some node => c.toNode = node
    | none => true

/-- `addNode(node)`. -/
def addNode (g : DirectedGraph) (node : INode) : DirectedGraph :=
  { g with nodes := g.nodes.set node.name node }

/-- `addNodes(...nodes)`. -/
def addNodes (g : DirectedGraph) (nodes : List INode) : DirectedGraph :=
  nodes.foldl addNode g

/-- The node object itself is stored in the graph: `this.nodes.get(node.name) === node`. -/
def stores (g : DirectedGraph) (node : INode) : Bool :=
  g.nodes.get? node.name = some node

/-- `addConnection(connectionInput)`. -/
def addConnection (g : DirectedGraph) (input : ConnectionInput) :
    Except GraphError DirectedGraph :=
  if g.stores input.fromNode && g.stores input.toNode then
    let connection : GraphConnection :=
      { fromNode := input.fromNode, toNode := input.toNode, type := input.type.getD .main,
        outputIndex := input.outputIndex.getD 0, inputIndex := input.inputIndex.getD 0 }
    .ok { g with connections := g.connections.set (makeKey connection) connection }
  else .error .assertion

/-- `addConnections(...connectionInputs)`. -/
def addConnections (g : DirectedGraph) (inputs : List ConnectionInput) :
    Except GraphError DirectedGraph :=
  inputs.foldlM addConnection g

/-- `getDirectChildConnections(node)`. -/
def getDirectChildConnections (g : DirectedGraph) (node : INode) :
    Except GraphError (List GraphConnection) :=
  if g.stores node then .ok (g.connections.values.filter (·.fromNode = node))
  else .error .assertion

/-- `getDirectParentConnections(node)`. -/
def getDirectParentConnections (g : DirectedGraph) (node : INode) :
    Except GraphError (List GraphConnection) :=
  if g.stores node then .ok (g.connections.values.filter (·.toNode = node))
  else .error .assertion

/-- `getParentConnectionsRecursive(node, connections)`, at most `fuel` calls deep. -/
def getParentConnectionsRecursive (g : DirectedGraph) :
    Nat → INode → List GraphConnection → Except GraphError (List GraphConnection)
  | 0, _, _ => .error .outOfFuel
  | fuel + 1, node, connections => do
    let parentConnections ← g.getDirectParentConnections node
    parentConnections.foldlM (fun connections connection =>
      -- break out of cycles
      if connection ∈ connections then .ok connections
      else getParentConnectionsRecursive g fuel connection.fromNode (connections ++ [connection]))
      connections

/-- `getParentConnections(node)`. Every call collects another connection, so their number bounds
the depth. -/
def getParentConnections (g : DirectedGraph) (node : INode) :
    Except GraphError (List GraphConnection) :=
  g.getParentConnectionsRecursive (g.connections.values.length + 1) node []

/-- The connections that `removeNode` makes out of the incoming and the outgoing ones: each of
the former continues like each of the latter. -/
def reconnect (skip : GraphConnection → Bool) (incoming outgoing : List GraphConnection) :
    List GraphConnection :=
  (incoming.filter (!skip ·)).flatMap fun incomingConnection =>
    (outgoing.filter (!skip ·)).map fun outgoingConnection =>
      { incomingConnection with
        toNode := outgoingConnection.toNode, inputIndex := outgoingConnection.inputIndex }

/-- Delete every connection that touches the node. -/
def disconnect (g : DirectedGraph) (node : INode) : DirectedGraph :=
  { g with connections := g.connections.filter fun e => !e.2.touches node }

/-- `this.connections.set(this.makeKey(c), c)`, without the checks of `addConnection`. -/
def setConnection (g : DirectedGraph) (c : GraphConnection) : DirectedGraph :=
  { g with connections := g.connections.set (makeKey c) c }

/-- `this.nodes.delete(node.name)`: whatever node has that name. -/
def deleteNode (g : DirectedGraph) (node : INode) : DirectedGraph :=
  { g with nodes := g.nodes.delete node.name }

/-- `removeNode(node, options)`, with the connections it returns when it reconnects. -/
def removeNode (g : DirectedGraph) (node : INode) (options : RemoveNodeOptions := {}) :
    Except GraphError (DirectedGraph × Option (List GraphConnection)) := do
  if options.reconnectConnections then
    let incomingConnections ← g.getDirectParentConnections node
    let outgoingConnections ← g.getDirectChildConnections node
    let skip := options.skipConnectionFn.getD fun _ => false
    let newConnections := reconnect skip incomingConnections outgoingConnections
    let reconnected := newConnections.foldl setConnection (g.disconnect node)
    return (reconnected.deleteNode node, some newConnections)
  else
    return ((g.disconnect node).deleteNode node, none)

/-- `getConnection(from, outputIndex, type, inputIndex, to)`. -/
def getConnection (g : DirectedGraph) (c : GraphConnection) : Option GraphConnection :=
  g.connections.get? (makeKey c)

/-- `clone()`. -/
def clone (g : DirectedGraph) : Except GraphError DirectedGraph :=
  (empty.addNodes g.getNodes).addConnections (g.getConnections.map (·.toInput))

/-- `workflow.getNode(nodeName)` followed by `a.ok`. The lookup calls `nodes.hasOwnProperty`,
which a node of that name hides. -/
def lookupNode (w : Workflow) (nodeName : String) : Except GraphError INode :=
  if w.nodes.has "hasOwnProperty" then .error .typeError
  else match w.getNode nodeName with
    | some node => .ok node
    | none => .error .assertion

/-- The connections that `fromWorkflow` adds, in its order: the source and target are looked up
by name and asserted to exist. -/
def workflowConnections (w : Workflow) : Except GraphError (List ConnectionInput) :=
  w.connectionsBySourceNode.entries.flatMapM fun (fromNodeName, iConnection) => do
    let source ← lookupNode w fromNodeName
    iConnection.entries.flatMapM fun (outputType, outputs) =>
      outputs.zipIdx.flatMapM fun (conns, outputIndex) =>
        (conns.getD []).mapM fun conn => do
          let target ← lookupNode w conn.node
          return { fromNode := source, toNode := target, type := some outputType,
                   outputIndex := some outputIndex, inputIndex := some conn.index }

/-- `fromWorkflow(workflow)`. -/
def fromWorkflow (w : Workflow) : Except GraphError DirectedGraph := do
  (empty.addNodes w.nodes.values).addConnections (← workflowConnections w)

/-- The names of the properties that every object inherits from `Object.prototype`. -/
def prototypeKeys : List String :=
  ["constructor", "__defineGetter__", "__defineSetter__", "hasOwnProperty", "__lookupGetter__",
    "__lookupSetter__", "isPrototypeOf", "propertyIsEnumerable", "toString", "valueOf",
    "__proto__", "toLocaleString"]

/-- Write an element of an array, which leaves holes when the array is too short. -/
def writeOutput (outputs : NodeInputConnections) (outputIndex : Nat) (conns : List IConnection) :
    NodeInputConnections :=
  (outputs ++ List.replicate (outputIndex + 1 - outputs.length) none).set outputIndex (some conns)

/-- One round of the loop of `toIConnections`. The object of a source node is made with the type
of its first connection; reading a property of another type yields `undefined`, and so does
reading any type of an inherited property. -/
def addToIConnections (result : IConnections) (c : GraphConnection) :
    Except GraphError IConnections :=
  let name := c.fromNode.name
  if result.has name = false ∧ name ∈ prototypeKeys then .error .typeError
  else
    let resultConnection := (result.get? name).getD (InsertionMap.set .empty c.type [])
    match resultConnection.get? c.type with
    | none => .error .typeError
    | some outputs =>
      let group := (outputs[c.outputIndex]?.join).getD []
      let conn : IConnection := { node := c.toNode.name, type := c.type, index := c.inputIndex }
      .ok (result.set name (resultConnection.set c.type
        (writeOutput outputs c.outputIndex (group ++ [conn]))))

/-- `toIConnections()`. -/
def toIConnections (g : DirectedGraph) : Except GraphError IConnections :=
  g.connections.values.foldlM addToIConnections .empty

/-- `toWorkflow(parameters)`. -/
def toWorkflow (g : DirectedGraph) (executionOrder : Option ExecutionOrder) :
    Except GraphError Workflow := do
  return .create g.getNodes (← g.toIConnections) executionOrder

end DirectedGraph

/-- One round of the loop of `filterDisabledNodes`: a disabled node is removed, and its main
connections are reconnected. -/
def filterNode (filteredGraph : DirectedGraph) (node : INode) :
    Except GraphError DirectedGraph := do
  if node.disabled = some true then
    let (removed, _) ← filteredGraph.removeNode node
      { reconnectConnections := true, skipConnectionFn := some (·.type ≠ .main) }
    return removed
  else return filteredGraph

/-- `filterDisabledNodes(graph)`. -/
def filterDisabledNodes (graph : DirectedGraph) : Except GraphError DirectedGraph := do
  let filteredGraph ← graph.clone
  filteredGraph.getNodes.foldlM filterNode filteredGraph

end N8n.PartialExecution
