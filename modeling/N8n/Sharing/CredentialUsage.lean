import N8n.Collections.Fallible
import N8n.Collections.InsertionMap

/-!
# Nodes whose credentials the user cannot access

A workflow may use credentials that the user who saves it cannot access. Its nodes with such
credentials are read only: `validateWorkflowCredentialUsage` refuses the new version when one of
them is not in the previous version, and otherwise writes the previous version of the node over
the submitted one; see `packages/cli/src/workflows/workflow.service.ee.ts`.

The written node is the first one with the id, and the properties that the previous version lacks
stay as they were submitted. `validated_usage_iff` says which submitted versions come back with
every read-only node as it was.
-/

namespace N8n.Sharing

open Collections

/-- The reference of a node to a credential. The id may be `null`. -/
structure INodeCredentialsDetails where
  id : Option String
  name : String
  deriving DecidableEq, Repr

/-- The credentials of a node by credential type. -/
abbrev INodeCredentials := InsertionMap String INodeCredentialsDetails

/-- A node with the values `V` of its parameters. The properties that are not named here are in
`properties`. -/
structure INode (V : Type) where
  id : Option String
  name : String
  position : Int × Int
  disabled : Option Bool
  type : String
  parameters : V
  credentials : Option INodeCredentials
  properties : InsertionMap String V

/-- The part of a workflow that the check reads and writes. -/
structure IWorkflowBase (V : Type) where
  nodes : Option (List (INode V))

/-- What `validateWorkflowCredentialUsage` throws. -/
inductive UsageError (V : Type) where
  | nodeOperationError (node : INode V) (message : String)
  | typeError

variable {V : Type}

/-- Does the node refer to a credential outside of the list? An empty id refers to none. -/
def INode.inaccessible (userCredIds : List String) (node : INode V) : Bool :=
  match node.credentials with
  | none => false
  | some credentials =>
    let allUsedCredentialIds := credentials.values.map (·.id)
    allUsedCredentialIds.any fun
      | none => false
      | some nodeCredId => nodeCredId ≠ "" && !userCredIds.contains nodeCredId

/-- The nodes with a credential that the user cannot access. -/
def getNodesWithInaccessibleCreds (workflow : IWorkflowBase V) (userCredIds : List String) :
    List (INode V) :=
  match workflow.nodes with
  | none => []
  | some nodes => nodes.filter (·.inaccessible userCredIds)

/-- Assign the properties of the previous version to a node, except for the name, the position and
whether it is disabled. A property that the previous version lacks stays. -/
def INode.assignReadOnly (node previousNodeVersion : INode V) : INode V :=
  { node with
    id := previousNodeVersion.id <|> node.id
    type := previousNodeVersion.type
    parameters := previousNodeVersion.parameters
    credentials := previousNodeVersion.credentials <|> node.credentials
    properties := previousNodeVersion.properties.entries.foldl
      (fun properties (key, value) => properties.set key value) node.properties }

/-- The message of the error about a node that is new. -/
def noAccessMessage (name : String) : String :=
  "You don't have access to the credentials in the '" ++ name ++
    "' node. Ask the owner to share them with you."

/-- One round over the nodes with inaccessible credentials. -/
def replaceReadOnlyNode (previousNodes nodes : List (INode V)) (node : INode V) :
    Except (UsageError V) (List (INode V)) :=
  let previouslyExistingNodeIds := previousNodes.map (·.id)
  if node.id ∈ previouslyExistingNodeIds then
    let nodeIdx := nodes.findIdx (·.id = node.id)
    match previousNodes.find? (·.id = node.id) with
    | none => .ok nodes
    | some previousNodeVersion => .ok (nodes.modify nodeIdx (·.assignReadOnly previousNodeVersion))
  else
    .error (.nodeOperationError node (noAccessMessage node.name))

/-- `validateWorkflowCredentialUsage`. The ids are those of the credentials the user has access
to. -/
def validateWorkflowCredentialUsage (newWorkflowVersion previousWorkflowVersion : IWorkflowBase V)
    (allowedCredentialIds : List String) : Except (UsageError V) (IWorkflowBase V) :=
  match newWorkflowVersion.nodes with
  | none => .ok newWorkflowVersion
  | some nodes =>
    let inaccessible := getNodesWithInaccessibleCreds newWorkflowVersion allowedCredentialIds
    if inaccessible.isEmpty then .ok newWorkflowVersion
    else
      match previousWorkflowVersion.nodes with
      | none => .error .typeError
      | some previousNodes => do
        let nodes ← inaccessible.foldlM (replaceReadOnlyNode previousNodes) nodes
        return { newWorkflowVersion with nodes := some nodes }

/-- What `preventTampering` throws. -/
inductive TamperingError where
  | notFoundError (message : String)
  | badRequestError (message : String)
  deriving DecidableEq, Repr

/-- `preventTampering`: `previousVersion` is the stored workflow and `allCredentials` are the ids of
the credentials the user can use in it. A `NodeOperationError` is created with the message that
`describe` makes of its text. -/
def preventTampering (describe : String → String) (workflow : IWorkflowBase V)
    (previousVersion : Option (IWorkflowBase V)) (allCredentials : List String) :
    Except TamperingError (IWorkflowBase V) :=
  match previousVersion with
  | none => .error (.notFoundError "Workflow not found")
  | some previousVersion =>
    match validateWorkflowCredentialUsage workflow previousVersion allCredentials with
    | .ok workflow => .ok workflow
    | .error (.nodeOperationError _ message) => .error (.badRequestError (describe message))
    | .error .typeError => .error (.badRequestError
        ("Invalid workflow credentials - make sure you have access to all credentials and " ++
          "try again."))

/-- The nodes of a workflow. -/
def IWorkflowBase.nodeList (workflow : IWorkflowBase V) : List (INode V) := workflow.nodes.getD []

/-- The node with an id: the first one that has it. -/
def IWorkflowBase.nodeWithId (workflow : IWorkflowBase V) (id : Option String) :
    Option (INode V) :=
  workflow.nodeList.find? (·.id = id)

/-- Two nodes with the same type, parameters and credentials. -/
structure INode.SameUsage (node node' : INode V) : Prop where
  type : node.type = node'.type
  parameters : node.parameters = node'.parameters
  credentials : node.credentials = node'.credentials

/-- Every node that refers to a credential outside of the list is as the node with its id in the
previous version. -/
def NoForeignUsage (previous : IWorkflowBase V) (allowedCredentialIds : List String)
    (workflow : IWorkflowBase V) : Prop :=
  ∀ node ∈ workflow.nodeList, node.inaccessible allowedCredentialIds →
    ∃ previousNode, previous.nodeWithId node.id = some previousNode ∧ node.SameUsage previousNode

/-- Every submitted node that refers to a credential outside of the list is the first one with its
id and the previous version of it has credentials, or it already is as the previous version. -/
def ReadOnlyNodesReplaceable (previous : IWorkflowBase V) (allowedCredentialIds : List String)
    (workflow : IWorkflowBase V) : Prop :=
  ∀ i node, workflow.nodeList[i]? = some node → node.inaccessible allowedCredentialIds →
    ∃ previousNode, previous.nodeWithId node.id = some previousNode ∧
      (workflow.nodeList.findIdx (·.id = node.id) = i ∧ previousNode.credentials.isSome ∨
        node.SameUsage previousNode)

/-! ## One round -/

variable {node : INode V}

theorem inaccessible_congr {node' : INode V} (h : node.credentials = node'.credentials)
    (userCredIds : List String) :
    node.inaccessible userCredIds = node'.inaccessible userCredIds := by
  rw [INode.inaccessible, INode.inaccessible, h]

theorem credentials_of_inaccessible {userCredIds : List String}
    (h : node.inaccessible userCredIds) :
    node.credentials ≠ none := by
  intro hnone
  simp [INode.inaccessible, hnone] at h

/-- The node `written` is `node` with the type and the parameters of `previousNode`, and with its
credentials if it has any. -/
structure INode.WrittenOver (written node previousNode : INode V) : Prop where
  type : written.type = previousNode.type
  parameters : written.parameters = previousNode.parameters
  credentials : written.credentials = (previousNode.credentials <|> node.credentials)

variable {written previousNode : INode V}

theorem INode.WrittenOver.sameUsage (h : written.WrittenOver node previousNode)
    (hsome : previousNode.credentials.isSome) : written.SameUsage previousNode := by
  obtain ⟨credentials, hcredentials⟩ := Option.isSome_iff_exists.mp hsome
  refine ⟨h.type, h.parameters, ?_⟩
  rw [h.credentials, hcredentials]
  rfl

theorem INode.WrittenOver.keeps_credentials (h : written.WrittenOver node previousNode)
    (hnone : previousNode.credentials = none) : written.credentials = node.credentials := by
  rw [h.credentials, hnone]
  rfl

theorem assignReadOnly_writtenOver (h : written = node ∨ written.WrittenOver node previousNode) :
    (written.assignReadOnly previousNode).WrittenOver node previousNode := by
  refine ⟨rfl, rfl, ?_⟩
  show (previousNode.credentials <|> written.credentials) = _
  rcases h with rfl | h
  · rfl
  · rw [h.credentials]
    cases previousNode.credentials <;> rfl

theorem assignReadOnly_id (h : previousNode.id = node.id) :
    (node.assignReadOnly previousNode).id = node.id := by
  show (previousNode.id <|> node.id) = node.id
  rw [h]
  cases node.id <;> rfl

variable {previousNodes nodes : List (INode V)}

/-- A round succeeds on a node that is in the previous version, and it writes that version over
the first node with the id. -/
theorem replaceReadOnlyNode_eq_ok {nodes' : List (INode V)}
    (h : replaceReadOnlyNode previousNodes nodes node = .ok nodes') :
    ∃ previousNode, previousNodes.find? (·.id = node.id) = some previousNode ∧
      nodes' = nodes.modify (nodes.findIdx (·.id = node.id)) (·.assignReadOnly previousNode) := by
  simp only [replaceReadOnlyNode] at h
  split at h
  · rename_i hmem
    obtain ⟨existing, hexisting, hid⟩ := List.mem_map.mp hmem
    cases hfind : previousNodes.find? (·.id = node.id) with
    | none =>
      have := List.find?_eq_none.mp hfind existing hexisting
      simp [hid] at this
    | some previousNode =>
      rw [hfind] at h
      cases h
      exact ⟨previousNode, rfl, rfl⟩
  · cases h

/-! ## All rounds -/

/-- The nodes after the rounds over `seen`: the first node with the id of a node in `seen` is
written over, every other node is as it was submitted. -/
structure Replaced (previousNodes submitted seen nodes : List (INode V)) : Prop where
  ids : nodes.map (·.id) = submitted.map (·.id)
  existing : ∀ node ∈ seen, (previousNodes.find? (·.id = node.id)).isSome
  first : ∀ i node written, submitted[i]? = some node → nodes[i]? = some written →
    submitted.findIdx (·.id = node.id) = i → (∃ other ∈ seen, other.id = node.id) →
    ∃ previousNode, previousNodes.find? (·.id = node.id) = some previousNode ∧
      written.WrittenOver node previousNode
  rest : ∀ i node written, submitted[i]? = some node → nodes[i]? = some written →
    (submitted.findIdx (·.id = node.id) ≠ i ∨ ¬ ∃ other ∈ seen, other.id = node.id) →
    written = node

variable {submitted : List (INode V)}

theorem findIdx_of_ids (h : nodes.map (·.id) = submitted.map (·.id)) (id : Option String) :
    nodes.findIdx (·.id = id) = submitted.findIdx (·.id = id) := by
  have hmap : ∀ l : List (INode V),
      l.findIdx (·.id = id) = (l.map (·.id)).findIdx (fun x => decide (x = id)) := by
    intro l
    rw [List.findIdx_map]
    rfl
  rw [hmap nodes, hmap submitted, h]

variable {i : Nat}

theorem id_of_findIdx {id : Option String} (hi : nodes[i]? = some node)
    (h : nodes.findIdx (·.id = id) = i) : node.id = id := by
  obtain ⟨hlt, rfl⟩ := List.getElem?_eq_some_iff.mp hi
  have hfound := List.findIdx_getElem (w := h ▸ hlt)
  simpa only [h, decide_eq_true_eq] using hfound

theorem replaced_start (previousNodes nodes : List (INode V)) :
    Replaced previousNodes nodes [] nodes where
  ids := rfl
  existing := by simp
  first := by simp
  rest := by
    intro i node written hnode hwritten _
    rw [hnode] at hwritten
    exact (Option.some.inj hwritten).symm

theorem Replaced.round {previousNodes submitted seen nodes nodes' : List (INode V)}
    {node : INode V} (h : Replaced previousNodes submitted seen nodes)
    (hround : replaceReadOnlyNode previousNodes nodes node = .ok nodes') :
    Replaced previousNodes submitted (seen ++ [node]) nodes' := by
  obtain ⟨previousNode, hfind, rfl⟩ := replaceReadOnlyNode_eq_ok hround
  have hid : previousNode.id = node.id := by simpa using List.find?_some hfind
  rw [findIdx_of_ids h.ids]
  generalize hk : submitted.findIdx (·.id = node.id) = k
  refine ⟨?_, ?_, ?_, ?_⟩
  · rw [← h.ids]
    refine List.ext_getElem? fun i => ?_
    simp only [List.getElem?_map, List.getElem?_modify]
    cases hi : nodes[i]? with
    | none => rfl
    | some written =>
      by_cases hki : k = i
      · have hwritten := id_of_findIdx hi ((findIdx_of_ids h.ids node.id).trans (hk.trans hki))
        simp [hki, assignReadOnly_id (hid.trans hwritten.symm)]
      · simp [hki]
  · intro other hother
    rcases List.mem_append.mp hother with hother | hother
    · exact h.existing other hother
    · rw [List.mem_singleton.mp hother, hfind]
      rfl
  · intro i submittedNode written hsubmitted hwritten hfirst hseen
    rw [List.getElem?_modify] at hwritten
    obtain ⟨old, hold, hwritten⟩ := Option.map_eq_some_iff.mp hwritten
    by_cases hsame : submittedNode.id = node.id
    · have hki : k = i := by rw [← hk, ← hsame, hfirst]
      rw [if_pos hki] at hwritten
      subst hwritten
      refine ⟨previousNode, hsame ▸ hfind, assignReadOnly_writtenOver ?_⟩
      by_cases hbefore : ∃ other ∈ seen, other.id = submittedNode.id
      · obtain ⟨previousNode', hfind', hover⟩ :=
          h.first i submittedNode old hsubmitted hold hfirst hbefore
        rw [hsame, hfind] at hfind'
        cases hfind'
        exact .inr hover
      · exact .inl (h.rest i submittedNode old hsubmitted hold (.inr hbefore))
    · have hki : k ≠ i := fun hki => hsame (id_of_findIdx hsubmitted (hk.trans hki))
      rw [if_neg hki] at hwritten
      obtain ⟨other, hother, hotherId⟩ := hseen
      have hbefore : other ∈ seen := by
        rcases List.mem_append.mp hother with hother | hother
        · exact hother
        · exact absurd (hotherId.symm.trans (congrArg _ (List.mem_singleton.mp hother))) hsame
      exact h.first i submittedNode written hsubmitted (hwritten ▸ hold) hfirst
        ⟨other, hbefore, hotherId⟩
  · intro i submittedNode written hsubmitted hwritten hnot
    rw [List.getElem?_modify] at hwritten
    obtain ⟨old, hold, hwritten⟩ := Option.map_eq_some_iff.mp hwritten
    have hki : k ≠ i := by
      intro hki
      have hsame := id_of_findIdx hsubmitted (hk.trans hki)
      rcases hnot with hnot | hnot
      · exact hnot (by rw [hsame, hk, hki])
      · exact hnot ⟨node, by simp, hsame.symm⟩
    rw [if_neg hki] at hwritten
    refine h.rest i submittedNode written hsubmitted (hwritten ▸ hold) ?_
    refine hnot.imp_right fun hnot hbefore => hnot ?_
    obtain ⟨other, hother, hotherId⟩ := hbefore
    exact ⟨other, List.mem_append_left _ hother, hotherId⟩

variable {seen : List (INode V)}

theorem replaced_rounds {nodes' : List (INode V)}
    (h : seen.foldlM (replaceReadOnlyNode previousNodes) nodes = .ok nodes') :
    Replaced previousNodes nodes seen nodes' :=
  foldlM_along (Replaced previousNodes nodes) (replaced_start previousNodes nodes)
    (fun _ _ _ _ _ hinv hround => hinv.round hround) h

/-- What a validated version consists of: the inaccessible nodes are in the previous version, and
its nodes are those after the rounds over them. -/
theorem validated_replaced {workflow previous result : IWorkflowBase V}
    {allowedCredentialIds : List String}
    (h : validateWorkflowCredentialUsage workflow previous allowedCredentialIds = .ok result) :
    Replaced previous.nodeList workflow.nodeList
      (workflow.nodeList.filter (·.inaccessible allowedCredentialIds)) result.nodeList := by
  obtain ⟨nodes⟩ := workflow
  cases nodes with
  | none =>
    cases h
    exact replaced_start _ _
  | some nodes =>
    simp only [validateWorkflowCredentialUsage] at h
    split at h
    · rename_i hempty
      have hfilter : nodes.filter (·.inaccessible allowedCredentialIds) = [] :=
        List.isEmpty_iff.mp hempty
      cases h
      show Replaced _ nodes (nodes.filter _) nodes
      rw [hfilter]
      exact replaced_start _ _
    · obtain ⟨previousNodes⟩ := previous
      cases previousNodes with
      | none => cases h
      | some previousNodes =>
        obtain ⟨nodes', hrounds, hresult⟩ := bind_eq_ok.mp h
        cases hresult
        exact replaced_rounds hrounds

theorem Replaced.submitted_of (h : Replaced previousNodes submitted seen nodes)
    (hi : nodes[i]? = some written) : ∃ node, submitted[i]? = some node ∧ written.id = node.id := by
  have hids := congrArg (·[i]?) h.ids
  simp only [List.getElem?_map, hi, Option.map_some] at hids
  obtain ⟨node, hnode, hid⟩ := Option.map_eq_some_iff.mp hids.symm
  exact ⟨node, hnode, hid.symm⟩

theorem Replaced.written_of (h : Replaced previousNodes submitted seen nodes)
    (hi : submitted[i]? = some node) :
    ∃ written, nodes[i]? = some written ∧ written.id = node.id := by
  have hids := congrArg (·[i]?) h.ids
  simp only [List.getElem?_map, hi, Option.map_some] at hids
  exact Option.map_eq_some_iff.mp hids

/-- A submitted version comes back with every read-only node as it was exactly when each such node
is the first one with its id and had credentials before, or was submitted as it was. -/
theorem validated_usage_iff (workflow previous result : IWorkflowBase V)
    (allowedCredentialIds : List String)
    (h : validateWorkflowCredentialUsage workflow previous allowedCredentialIds = .ok result) :
    NoForeignUsage previous allowedCredentialIds result ↔
      ReadOnlyNodesReplaceable previous allowedCredentialIds workflow := by
  have hreplaced := validated_replaced h
  constructor
  · intro husage i node hnode hinaccessible
    have hseen : node ∈ workflow.nodeList.filter (·.inaccessible allowedCredentialIds) :=
      List.mem_filter.mpr ⟨List.mem_of_getElem? hnode, hinaccessible⟩
    obtain ⟨previousNode, hprevious⟩ := Option.isSome_iff_exists.mp (hreplaced.existing node hseen)
    refine ⟨previousNode, hprevious, ?_⟩
    obtain ⟨written, hwritten, hid⟩ := hreplaced.written_of hnode
    -- A node that keeps its credentials is still inaccessible, so it is as the previous one.
    have hkept : written.credentials = node.credentials → written.SameUsage previousNode := by
      intro hcredentials
      obtain ⟨previousNode', hprevious', hsame⟩ := husage written
        (List.mem_of_getElem? hwritten) (inaccessible_congr hcredentials _ ▸ hinaccessible)
      rw [hid] at hprevious'
      have heq := hprevious.symm.trans hprevious'
      cases heq
      exact hsame
    by_cases hfirst : workflow.nodeList.findIdx (·.id = node.id) = i
    · refine .inl ⟨hfirst, ?_⟩
      obtain ⟨previousNode', hprevious', hover⟩ :=
        hreplaced.first i node written hnode hwritten hfirst ⟨node, hseen, rfl⟩
      have heq := hprevious.symm.trans hprevious'
      cases heq
      cases hnone : previousNode.credentials with
      | some _ => rfl
      | none =>
        have hcredentials := hover.keeps_credentials hnone
        have hsame := hkept hcredentials
        exact absurd (hcredentials.symm.trans (hsame.credentials.trans hnone))
          (credentials_of_inaccessible hinaccessible)
    · have heq := hreplaced.rest i node written hnode hwritten (.inl hfirst)
      exact .inr (heq ▸ hkept (congrArg _ heq))
  · intro hcondition written hmem hinaccessible
    obtain ⟨i, hwritten⟩ := List.mem_iff_getElem?.mp hmem
    obtain ⟨node, hnode, hid⟩ := hreplaced.submitted_of hwritten
    rw [hid]
    by_cases hover : workflow.nodeList.findIdx (·.id = node.id) = i ∧
        ∃ other ∈ workflow.nodeList.filter (·.inaccessible allowedCredentialIds),
          other.id = node.id
    · obtain ⟨previousNode, hprevious, hover⟩ :=
        hreplaced.first i node written hnode hwritten hover.1 hover.2
      refine ⟨previousNode, hprevious, hover.sameUsage ?_⟩
      cases hcredentials : previousNode.credentials with
      | some _ => rfl
      | none =>
        have hkept := hover.keeps_credentials hcredentials
        have hforeign := inaccessible_congr hkept allowedCredentialIds ▸ hinaccessible
        obtain ⟨previousNode', hprevious', hor⟩ := hcondition i node hnode hforeign
        have heq := hprevious.symm.trans hprevious'
        cases heq
        rcases hor with ⟨-, hsome⟩ | hsame
        · rw [hcredentials] at hsome
          cases hsome
        · exact absurd (hsame.credentials.trans hcredentials)
            (credentials_of_inaccessible hforeign)
    · have heq := hreplaced.rest i node written hnode hwritten (not_and_or.mp hover)
      subst heq
      obtain ⟨previousNode, hprevious, hor⟩ := hcondition i written hnode hinaccessible
      refine ⟨previousNode, hprevious, hor.resolve_left fun hfirst => hover ⟨hfirst.1, written, ?_⟩⟩
      exact ⟨List.mem_filter.mpr ⟨List.mem_of_getElem? hnode, hinaccessible⟩, rfl⟩

/-- A saved workflow whose only node uses no credentials. -/
def savedWithoutCredentials : IWorkflowBase String where
  nodes := some [{ id := some "a", name := "Request", position := (0, 0), disabled := none
                   type := "httpRequest", parameters := "", credentials := none
                   properties := .empty }]

/-- The node with a credential of someone else. -/
def withForeignCredential : IWorkflowBase String where
  nodes := savedWithoutCredentials.nodes.map fun nodes => nodes.map fun node =>
    { node with
      credentials := some (InsertionMap.empty.set "httpBasicAuth" ⟨some "secret", "Secret"⟩) }

/-- A credential that is added to a node without credentials gets past the check. -/
theorem added_credential_kept :
    ∃ result, validateWorkflowCredentialUsage withForeignCredential savedWithoutCredentials [] =
      .ok result ∧ ¬ NoForeignUsage savedWithoutCredentials [] result := by
  refine ⟨_, rfl, fun h => ?_⟩
  obtain ⟨previousNode, hprevious, hsame⟩ := h _ (List.mem_singleton.mpr rfl) (by decide)
  cases hprevious
  cases hsame.credentials

/-- The check on a submitted version that changes nothing but the parameters of a read-only node. -/
theorem changed_parameters_replaced :
    NoForeignUsage withForeignCredential [] withForeignCredential ↔
      ReadOnlyNodesReplaceable withForeignCredential []
        { nodes := withForeignCredential.nodes.map fun nodes => nodes.map fun node =>
            { node with parameters := "changed" } } :=
  validated_usage_iff _ _ _ _ rfl

end N8n.Sharing
