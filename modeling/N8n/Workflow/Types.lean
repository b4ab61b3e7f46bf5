import N8n.Collections.InsertionMap

/-!
# Workflows

The data model of a workflow: its nodes, and its connections in the nested form in which a
workflow stores them, by source node, connection type and output. Objects that the source uses
as maps are maps from their own keys, in the order in which the keys are enumerated.
`mapConnectionsByDestination` turns the connections around; see
`packages/workflow/src/common/map-connections-by-destination.ts`.
-/

namespace N8n

open Collections

/-- The connection types of `NodeConnectionTypes`. -/
inductive NodeConnectionType where
  | aiAgent
  | aiChain
  | aiDocument
  | aiEmbedding
  | aiLanguageModel
  | aiMemory
  | aiOutputParser
  | aiRetriever
  | aiReranker
  | aiTextSplitter
  | aiTool
  | aiVectorStore
  | main
  deriving DecidableEq, Repr

/-- The string that stands for a connection type. -/
def NodeConnectionType.toString : NodeConnectionType → String
  | aiAgent => "ai_agent"
  | aiChain => "ai_chain"
  | aiDocument => "ai_document"
  | aiEmbedding => "ai_embedding"
  | aiLanguageModel => "ai_languageModel"
  | aiMemory => "ai_memory"
  | aiOutputParser => "ai_outputParser"
  | aiRetriever => "ai_retriever"
  | aiReranker => "ai_reranker"
  | aiTextSplitter => "ai_textSplitter"
  | aiTool => "ai_tool"
  | aiVectorStore => "ai_vectorStore"
  | main => "main"

/-- What a node does when its execution fails. -/
inductive OnError where
  | continueErrorOutput
  | continueRegularOutput
  | stopWorkflow
  deriving DecidableEq, Repr

/-- A node object. `===` compares objects and not their contents: `ref` tells two objects with
the same contents apart. Optional properties are `none` when undefined. -/
structure INode where
  ref : Nat := 0
  name : String
  position : Int × Int := (0, 0)
  disabled : Option Bool := none
  retryOnFail : Option Bool := none
  maxTries : Option Int := none
  alwaysOutputData : Option Bool := none
  onError : Option OnError := none
  continueOnFail : Option Bool := none
  rewireOutputLogTo : Option NodeConnectionType := none
  type : String := ""
  deriving DecidableEq, Repr

/-- One end of a connection: a node with one of its inputs or outputs. -/
structure IConnection where
  node : String
  type : NodeConnectionType
  index : Nat
  deriving DecidableEq, Repr

/-- The connections of each output (or input) of one type. An entry may be missing or `null`. -/
abbrev NodeInputConnections := List (Option (List IConnection))

/-- The connections of a node by connection type. -/
abbrev INodeConnections := InsertionMap NodeConnectionType NodeInputConnections

/-- The connections of a workflow by node. -/
abbrev IConnections := InsertionMap String INodeConnections

/-- The connection `connection` is the target of some output. -/
def IConnections.Has (connections : IConnections) (source : String) (type : NodeConnectionType)
    (outputIndex : Nat) (connection : IConnection) : Prop :=
  ∃ iConnection outputs conns, connections.get? source = some iConnection ∧
    iConnection.get? type = some outputs ∧ outputs[outputIndex]? = some (some conns) ∧
    connection ∈ conns

/-- Enter one connection of `mapConnectionsByDestination`: the inputs of its target are padded
up to its input index. -/
def addByDestination (source : String) (type : NodeConnectionType) (outputIndex : Nat)
    (result : IConnections) (connection : IConnection) : IConnections :=
  let ofNode := (result.get? connection.node).getD .empty
  let inputs := (ofNode.get? connection.type).getD []
  let padded := inputs ++ List.replicate (connection.index + 1 - inputs.length) (some [])
  let filled := padded.modify connection.index
    (·.map (· ++ [{ node := source, type, index := outputIndex }]))
  result.set connection.node (ofNode.set connection.type filled)

/-- `mapConnectionsByDestination`. -/
def mapConnectionsByDestination (connections : IConnections) : IConnections :=
  connections.entries.foldl (fun result (source, iConnection) =>
    iConnection.entries.foldl (fun result (type, outputs) =>
      outputs.zipIdx.foldl (fun result (conns, outputIndex) =>
        (conns.getD []).foldl (addByDestination source type outputIndex) result)
        result)
      result)
    .empty

/-- The execution orders a workflow can ask for. -/
inductive ExecutionOrder where
  | v0
  | v1
  deriving DecidableEq, Repr

/-- The modes of an execution. -/
inductive WorkflowExecuteMode where
  | cli
  | error
  | integrated
  | internal
  | manual
  | retry
  | trigger
  | webhook
  | evaluation
  deriving DecidableEq, Repr

/-- A workflow. Its nodes are filed under their names. No node is filed under `__proto__`:
assigning that property of the nodes object does not make an entry of its own. -/
structure Workflow where
  nodes : InsertionMap String INode
  connectionsBySourceNode : IConnections
  executionOrder : Option ExecutionOrder
  named : ∀ name node, nodes.get? name = some node → node.name = name ∧ name ≠ "__proto__"

namespace Workflow

/-- `this.nodes[node.name] = node`. -/
def fileNode (nodes : InsertionMap String INode) (node : INode) : InsertionMap String INode :=
  if node.name = "__proto__" then nodes else nodes.set node.name node

/-- The nodes object that the constructor of `Workflow` fills. -/
def nodesByName (nodes : List INode) : InsertionMap String INode :=
  nodes.foldl fileNode .empty

theorem nodes_by_name_named {nodes : List INode} {name : String} {node : INode}
    (h : (nodesByName nodes).get? name = some node) : node.name = name ∧ name ≠ "__proto__" := by
  have hgen : ∀ (nodes : List INode) (start : InsertionMap String INode),
      (∀ name node, start.get? name = some node → node.name = name ∧ name ≠ "__proto__") →
      ∀ name node, (nodes.foldl fileNode start).get? name = some node →
        node.name = name ∧ name ≠ "__proto__" := by
    intro nodes
    induction nodes with
    | nil => exact fun start hstart => hstart
    | cons first rest ih =>
      intro start hstart
      refine ih _ fun name node hget => ?_
      rw [fileNode] at hget
      split at hget
      · exact hstart name node hget
      · rename_i hproto
        rw [InsertionMap.get_set] at hget
        split at hget
        · rename_i hname
          cases hget
          exact ⟨hname.symm, hname ▸ hproto⟩
        · exact hstart name node hget
  exact hgen nodes .empty (by simp) name node h

/-- `new Workflow(parameters)`: later nodes replace earlier ones of the same name. -/
def create (nodes : List INode) (connections : IConnections)
    (executionOrder : Option ExecutionOrder) : Workflow where
  nodes := nodesByName nodes
  connectionsBySourceNode := connections
  executionOrder := executionOrder
  named _ _ h := nodes_by_name_named h

/-- The connections by destination node, which the constructor derives. -/
def connectionsByDestinationNode (w : Workflow) : IConnections :=
  mapConnectionsByDestination w.connectionsBySourceNode

/-- `getNode(nodeName)`. -/
def getNode (w : Workflow) (nodeName : String) : Option INode := w.nodes.get? nodeName

end Workflow

end N8n
