import N8n.Collections.RecursiveQuery
import N8n.Sharing.TransferAll

/-!
# Transferring a folder to another project

`transferFolder` moves a folder with everything below it: it deactivates the active workflows,
moves the ownership of the workflows, shares credentials with the destination, moves the folders and
activates the workflows again; see `packages/cli/src/workflows/workflow.service.ee.ts`. Each of the
three writes is a transaction of its own, and the deactivation before them is not undone.
-/

namespace N8n.Sharing

open Collections

/-- A row of the folders. -/
structure Folder where
  id : String
  homeProject : String
  parentFolder : Option String
  deriving DecidableEq, Repr

/-- A row of the workflows, with what the transfer reads of it. -/
structure WorkflowRow where
  id : String
  active : Bool
  parentFolder : Option String
  deriving DecidableEq, Repr

/-- What the transfer reads and writes. `registered` are the workflows in the
`ActiveWorkflowManager`. -/
structure TransferState where
  folders : Table Folder.id
  workflows : Table WorkflowRow.id
  shared : SharedWorkflow
  sharedCredentials : SharedCredentials
  registered : List String

/-- The arguments of `transferFolder`. -/
structure TransferRequest where
  sourceProjectId : String
  sourceFolderId : String
  destinationProjectId : String
  destinationParentFolderId : String
  shareCredentials : List String
  deriving DecidableEq, Repr

/-- The errors of `ActiveWorkflowManager.add`. -/
inductive ActivationFailure where
  | workflowActivationError
  | otherError
  deriving DecidableEq, Repr

/-- What `ActiveWorkflowManager.add` does. When it fails, the workflow may be registered or not. -/
inductive AddOutcome where
  | added
  | failed (error : ActivationFailure) (registered : Bool)
  deriving DecidableEq, Repr

/-- What `ActiveWorkflowManager.remove` does. When it fails, the workflow may still be registered or
not. -/
inductive RemoveOutcome where
  | removed
  | failed (kept : Bool)
  deriving DecidableEq, Repr

/-- What the other components do during a transfer. A transaction that fails is rolled back. -/
structure TransferOutcomes where
  destinationFound : Bool
  remove : String → RemoveOutcome
  ownershipFails : Bool
  credentialsOfUser : Option (List String)
  shareWithProjects : String → List String → SharedCredentials → Option SharedCredentials
  moveFails : Bool
  add : String → AddOutcome
  updateFails : String → Bool

/-- What `transferFolder` throws. -/
inductive TransferError where
  | notFoundError (message : String)
  | transferWorkflowError (message : String)
  | entityNotFoundError
  | removeError
  | databaseError
  | activationError
  deriving DecidableEq, Repr

/-- The parent id that stands for the root of a project. -/
def projectRoot : String := "0"

namespace TransferState

/-- The ids of all folders below a folder in a project. -/
def getAllFolderIdsInHierarchy (s : TransferState) (parentFolderId projectId : String) :
    List String :=
  let found := recursiveQuery (s.folders.findBy (·.homeProject = projectId))
    (·.parentFolder = some parentFolderId) fun parent child => child.parentFolder = some parent.id
  found.map (·.id)

/-- The workflows in a list of folders. -/
def workflowsIn (s : TransferState) (folderIds : List String) : List WorkflowRow :=
  s.workflows.findBy fun workflow => folderIds.any fun id => workflow.parentFolder = some id

/-- The sharings of a workflow. -/
def sharedOf (s : TransferState) (workflow : WorkflowRow) :
    List (SharedResource WorkflowSharingRole) :=
  s.shared.findBy (·.resourceId = workflow.id)

/-- `findOneOrFailFolderInProject`. -/
def findOneOrFailFolderInProject (s : TransferState) (folderId projectId : String) :
    Except TransferError Folder :=
  match s.folders.rows.find? fun folder => folder.id = folderId && folder.homeProject = projectId
    with
  | some folder => .ok folder
  | none => .error .entityNotFoundError

/-- The check that the destination does not own a workflow already. -/
def checkOwner (s : TransferState) (destinationProjectId : String) (workflow : WorkflowRow) :
    Except TransferError Unit :=
  match (s.sharedOf workflow).find? (·.role = .owner) with
  | none => .error (.notFoundError ("Could not find owner for workflow \"" ++ workflow.id ++ "\""))
  | some ownerSharing =>
    if ownerSharing.projectId = destinationProjectId then
      .error (.transferWorkflowError
        "You can't transfer a workflow into the project that's already owning it.")
    else .ok ()

/-- The check of the destination folder, unless it is the root of the project. -/
def checkDestinationFolder (request : TransferRequest) (s : TransferState) :
    Except TransferError Unit :=
  if request.destinationParentFolderId ≠ projectRoot then do
    let _ ← s.findOneOrFailFolderInProject request.destinationParentFolderId
      request.destinationProjectId
  else .ok ()

/-- The checks before anything is changed. -/
def checks (env : TransferOutcomes) (request : TransferRequest) (workflows : List WorkflowRow)
    (s : TransferState) : Except TransferError Unit :=
  if env.destinationFound then do
    s.checkDestinationFolder request
    let _ ← s.findOneOrFailFolderInProject request.sourceFolderId request.sourceProjectId
    workflows.forM (s.checkOwner request.destinationProjectId)
  else
    .error (.notFoundError ("Could not find project with the id \"" ++
      request.destinationProjectId ++
      "\". Make sure you have the permission to create workflows in it."))

/-- Note that a workflow is registered or not. -/
def setRegistered (s : TransferState) (workflowId : String) (registered : Bool) : TransferState :=
  { s with
    registered := if registered then workflowId :: s.registered
      else s.registered.filter (· ≠ workflowId) }

/-- `ActiveWorkflowManager.remove` on one workflow. -/
def remove (env : TransferOutcomes) (s : TransferState) (workflowId : String) : TransferState :=
  match env.remove workflowId with
  | .removed => s.setRegistered workflowId false
  | .failed kept => if kept then s else s.setRegistered workflowId false

/-- Remove the sharings of a workflow and make the project its owner. -/
def transferOwnership (destinationProjectId : String) (shared : SharedWorkflow)
    (workflow : WorkflowRow) : SharedWorkflow :=
  (shared.delete (·.resourceId = workflow.id)).upsertRow
    { resourceId := workflow.id, projectId := destinationProjectId, role := .owner }

/-- `transferWorkflowOwnership`. -/
def transferWorkflowOwnership (workflows : List WorkflowRow) (destinationProjectId : String)
    (s : TransferState) : TransferState :=
  { s with shared := workflows.foldl (transferOwnership destinationProjectId) s.shared }

/-- `shareCredentialsWithProject`: nothing when the transaction fails. -/
def shareCredentialsWithProject (env : TransferOutcomes) (credentialIds : List String)
    (projectId : String) (s : TransferState) : Option TransferState := do
  let allCredentials ← env.credentialsOfUser
  let credentialsToShare := allCredentials.filter fun id => credentialIds.contains id
  let sharedCredentials ← credentialsToShare.foldlM
    (fun rows id => env.shareWithProjects id [projectId] rows) s.sharedCredentials
  return { s with sharedCredentials }

/-- `moveFoldersToDestination`. -/
def moveFoldersToDestination (request : TransferRequest) (childrenFolderIds : List String)
    (s : TransferState) : TransferState :=
  let moved := s.folders.update (fun folder => childrenFolderIds.contains folder.id)
    (fun folder => { folder with homeProject := request.destinationProjectId }) fun _ => rfl
  { s with
    folders := moved.update (·.id = request.sourceFolderId)
      (fun folder => { folder with
        homeProject := request.destinationProjectId
        parentFolder :=
          if request.destinationParentFolderId = projectRoot then none
          else some request.destinationParentFolderId })
      fun _ => rfl }

/-- `updateActiveState`. -/
def updateActiveState (s : TransferState) (workflowId : String) (newState : Bool) :
    TransferState :=
  { s with
    workflows := s.workflows.update (·.id = workflowId)
      (fun workflow => { workflow with active := newState }) fun _ => rfl }

/-- `attemptWorkflowReactivation`. -/
def attemptWorkflowReactivation (env : TransferOutcomes) (workflowId : String)
    (s : TransferState) : Except TransferError Unit × TransferState :=
  match env.add workflowId with
  | .added => (.ok (), s.setRegistered workflowId true)
  | .failed error registered =>
    let s := s.setRegistered workflowId registered
    if env.updateFails workflowId then (.error .databaseError, s)
    else
      let s := s.updateActiveState workflowId false
      match error with
      | .workflowActivationError => (.ok (), s)
      | .otherError => (.error .activationError, s)

/-- The steps of `transferFolder` after its checks. The removals run concurrently, and all of them
run to their end. -/
def transferChecked (env : TransferOutcomes) (request : TransferRequest)
    (childrenFolderIds : List String) (workflows : List WorkflowRow) (s : TransferState) :
    Except TransferError Unit × TransferState :=
  let activeWorkflows := (workflows.filter (·.active)).map (·.id)
  let s := activeWorkflows.foldl (remove env) s
  if activeWorkflows.any fun id => env.remove id ≠ .removed then (.error .removeError, s)
  else if env.ownershipFails then (.error .databaseError, s)
  else
    let s := s.transferWorkflowOwnership workflows request.destinationProjectId
    match s.shareCredentialsWithProject env request.shareCredentials
        request.destinationProjectId with
    | none => (.error .databaseError, s)
    | some s =>
      if env.moveFails then (.error .databaseError, s)
      else
        forEach (attemptWorkflowReactivation env) activeWorkflows
          (s.moveFoldersToDestination request childrenFolderIds)

/-- `transferFolder`. -/
def transferFolder (env : TransferOutcomes) (request : TransferRequest) (s : TransferState) :
    Except TransferError Unit × TransferState :=
  let childrenFolderIds :=
    s.getAllFolderIdsInHierarchy request.sourceFolderId request.sourceProjectId
  let workflows := s.workflowsIn (childrenFolderIds ++ [request.sourceFolderId])
  match s.checks env request workflows with
  | .error e => (.error e, s)
  | .ok () => s.transferChecked env request childrenFolderIds workflows

/-! ## All or nothing -/

/-- The folders of the hierarchy that a request is about. -/
def hierarchyFolders (s : TransferState) (request : TransferRequest) : List String :=
  s.getAllFolderIdsInHierarchy request.sourceFolderId request.sourceProjectId ++
    [request.sourceFolderId]

/-- The workflows in the hierarchy that a request is about. -/
def hierarchyWorkflows (s : TransferState) (request : TransferRequest) : List WorkflowRow :=
  s.workflowsIn (s.hierarchyFolders request)

/-- The ids of the active workflows in the hierarchy that a request is about. -/
def hierarchyActive (s : TransferState) (request : TransferRequest) : List String :=
  ((s.hierarchyWorkflows request).filter (·.active)).map (·.id)

/-- The stored workflow is inactive or registered. -/
def RegisteredIfActive (s : TransferState) (workflowId : String) : Prop :=
  ∀ workflow ∈ s.workflows.rows, workflow.id = workflowId → workflow.active = true →
    workflowId ∈ s.registered

/-- Folders and workflows belong to a project: it is the home of each folder and the only owner of
each workflow. -/
structure BelongTo (folderIds : List String) (workflows : List WorkflowRow) (projectId : String)
    (s : TransferState) : Prop where
  folders : ∀ folder ∈ s.folders.rows, folder.id ∈ folderIds → folder.homeProject = projectId
  workflows : ∀ workflow ∈ workflows, ∀ owner,
    Owns .owner s.shared owner workflow.id ↔ owner = projectId

/-- In the state `s'` everything that the request asked to move in the state `s` belongs to one of
the two projects, and every workflow of it that is stored as active is registered. -/
def AllOrNothing (request : TransferRequest) (s s' : TransferState) : Prop :=
  let folderIds := s.hierarchyFolders request
  let workflows := s.hierarchyWorkflows request
  (BelongTo folderIds workflows request.destinationProjectId s' ∨
      BelongTo folderIds workflows request.sourceProjectId s') ∧
    ∀ workflow ∈ workflows, s'.RegisteredIfActive workflow.id

/-- Activating the workflows again leaves none of them active and unregistered: what throws comes
last, and if the update of a workflow fails then the workflow was registered after all. -/
def ReactivationSettles (env : TransferOutcomes) : List String → Prop
  | [] => True
  | workflowId :: rest =>
    match env.add workflowId with
    | .added => ReactivationSettles env rest
    | .failed error registered =>
      if env.updateFails workflowId then registered = true ∧ rest = []
      else
        match error with
        | .workflowActivationError => ReactivationSettles env rest
        | .otherError => rest = []

/-- The steps after the checks leave everything in one place: nothing was deactivated when a removal
or the transfer of the ownership fails, and no workflow was moved when a later write fails. -/
def StepsEndCleanly (env : TransferOutcomes) (request : TransferRequest) (s : TransferState) :
    Prop :=
  if (s.hierarchyActive request).any fun id => env.remove id ≠ .removed then
    ∀ id ∈ s.hierarchyActive request, id ∈ s.registered ∧ env.remove id = .failed true
  else if env.ownershipFails then s.hierarchyActive request = []
  else if (s.shareCredentialsWithProject env request.shareCredentials
      request.destinationProjectId).isNone || env.moveFails then
    s.hierarchyWorkflows request = []
  else ReactivationSettles env (s.hierarchyActive request)

/-- The step that a transfer ends at leaves everything in one place. When a check fails, that takes
that the active workflows were registered before. -/
def EndsCleanly (env : TransferOutcomes) (request : TransferRequest) (s : TransferState) : Prop :=
  match s.checks env request (s.hierarchyWorkflows request) with
  | .error _ => ∀ id ∈ s.hierarchyActive request, id ∈ s.registered
  | .ok () => StepsEndCleanly env request s

variable {env : TransferOutcomes} {request : TransferRequest} {s : TransferState}

/-! ## Deactivation -/

variable {workflowId id : String}

theorem mem_setRegistered {registered : Bool} :
    id ∈ (s.setRegistered workflowId registered).registered ↔
      if id = workflowId then registered = true else id ∈ s.registered := by
  cases registered <;> by_cases h : id = workflowId <;> simp [setRegistered, h]

theorem remove_registered (env : TransferOutcomes) (s : TransferState) (workflowId : String) :
    ∃ registered, remove env s workflowId = { s with registered } ∧
      ∀ id, id ∈ registered ↔
        id ∈ s.registered ∧ (id = workflowId → env.remove id = .failed true) := by
  have hoff : ∀ id, id ∈ (s.setRegistered workflowId false).registered ↔
      id ∈ s.registered ∧ id ≠ workflowId := by
    intro id
    rw [mem_setRegistered]
    by_cases h : id = workflowId <;> simp [h]
  unfold remove
  cases hremove : env.remove workflowId with
  | removed =>
    refine ⟨_, rfl, fun id => (hoff id).trans (and_congr_right fun _ => ?_)⟩
    refine ⟨fun hne heq => absurd heq hne, fun h heq => ?_⟩
    have := h heq
    rw [heq, hremove] at this
    cases this
  | failed kept =>
    cases kept with
    | true =>
      refine ⟨s.registered, rfl, fun id => ?_⟩
      refine ⟨fun hmem => ⟨hmem, ?_⟩, And.left⟩
      rintro rfl
      exact hremove
    | false =>
      refine ⟨_, rfl, fun id => (hoff id).trans (and_congr_right fun _ => ?_)⟩
      refine ⟨fun hne heq => absurd heq hne, fun h heq => ?_⟩
      have := h heq
      rw [heq, hremove] at this
      cases this

theorem removals_registered (env : TransferOutcomes) (s : TransferState) (ids : List String) :
    ∃ registered, ids.foldl (remove env) s = { s with registered } ∧
      ∀ id, id ∈ registered ↔
        id ∈ s.registered ∧ (id ∈ ids → env.remove id = .failed true) := by
  induction ids generalizing s with
  | nil => exact ⟨s.registered, rfl, by simp⟩
  | cons workflowId rest ih =>
    obtain ⟨middle, hmiddle, hmem⟩ := remove_registered env s workflowId
    obtain ⟨registered, hrest, hmem'⟩ := ih { s with registered := middle }
    refine ⟨registered, ?_, fun id => ?_⟩
    · rw [List.foldl_cons, hmiddle]
      exact hrest
    · rw [hmem']
      show (id ∈ middle ∧ _) ↔ _
      rw [hmem, List.mem_cons]
      tauto

/-! ## The writes -/

variable {shared : SharedWorkflow} {workflow : WorkflowRow} {projectId : String}

theorem mem_transferOwnership {row : SharedResource WorkflowSharingRole} :
    row ∈ (transferOwnership projectId shared workflow).rows ↔
      row = { resourceId := workflow.id, projectId, role := .owner } ∨
        row ∈ shared.rows ∧ row.resourceId ≠ workflow.id := by
  rw [transferOwnership, Table.mem_upsertRow, Table.mem_delete, decide_eq_false_iff_not]
  refine or_congr_right (and_iff_left_of_imp fun h hkey => h.2 ?_)
  exact (Prod.mk.inj hkey).2

variable {workflows : List WorkflowRow}

theorem mem_transferOwnerships {row : SharedResource WorkflowSharingRole} :
    row ∈ (workflows.foldl (transferOwnership projectId) shared).rows ↔
      (∃ workflow ∈ workflows,
        row = { resourceId := workflow.id, projectId, role := .owner }) ∨
        row ∈ shared.rows ∧ ∀ workflow ∈ workflows, row.resourceId ≠ workflow.id := by
  induction workflows generalizing shared with
  | nil => simp
  | cons workflow rest ih =>
    rw [List.foldl_cons, ih, mem_transferOwnership]
    constructor
    · rintro (⟨other, hother, rfl⟩ | ⟨rfl | ⟨hrow, hne⟩, hrest⟩)
      · exact .inl ⟨other, by simp [hother], rfl⟩
      · exact .inl ⟨workflow, by simp, rfl⟩
      · exact .inr ⟨hrow, List.forall_mem_cons.mpr ⟨hne, hrest⟩⟩
    · rintro (⟨other, hother, rfl⟩ | ⟨hrow, hall⟩)
      · by_cases hlater : ∃ later ∈ rest, later.id = other.id
        · obtain ⟨later, hlater, hid⟩ := hlater
          exact .inl ⟨later, hlater, by rw [hid]⟩
        · rcases List.mem_cons.mp hother with rfl | hother
          · exact .inr ⟨.inl rfl, fun later hmem heq => hlater ⟨later, hmem, heq.symm⟩⟩
          · exact absurd ⟨other, hother, rfl⟩ hlater
      · obtain ⟨hne, hrest⟩ := List.forall_mem_cons.mp hall
        exact .inr ⟨.inr ⟨hrow, hne⟩, hrest⟩

theorem owns_transferOwnerships (h : workflow ∈ workflows) (owner : String) :
    Owns .owner (workflows.foldl (transferOwnership projectId) shared) owner workflow.id ↔
      owner = projectId := by
  refine mem_transferOwnerships.trans ⟨?_, fun heq => .inl ⟨workflow, h, by rw [heq]⟩⟩
  rintro (⟨other, -, heq⟩ | ⟨-, hnot⟩)
  · exact congrArg (·.projectId) heq
  · exact absurd rfl (hnot workflow h)

/-- Sharing credentials writes the sharings of credentials only, and only these matter for whether
it fails. -/
theorem shareCredentialsWithProject_congr (s t : TransferState)
    (h : t.sharedCredentials = s.sharedCredentials) (credentialIds : List String)
    (projectId : String) :
    (t.shareCredentialsWithProject env credentialIds projectId).isNone =
      (s.shareCredentialsWithProject env credentialIds projectId).isNone := by
  simp only [shareCredentialsWithProject, h]
  cases env.credentialsOfUser with
  | none => rfl
  | some allCredentials =>
    simp only [Option.bind_eq_bind, Option.bind_some]
    cases (allCredentials.filter fun id => credentialIds.contains id).foldlM
      (fun rows id => env.shareWithProjects id [projectId] rows) s.sharedCredentials <;> rfl

theorem shareCredentialsWithProject_eq_some {s s' : TransferState} {credentialIds : List String}
    (h : s.shareCredentialsWithProject env credentialIds projectId = some s') :
    ∃ sharedCredentials, s' = { s with sharedCredentials } := by
  obtain ⟨allCredentials, -, h⟩ := Option.bind_eq_some_iff.mp h
  obtain ⟨sharedCredentials, -, h⟩ := Option.bind_eq_some_iff.mp h
  exact ⟨sharedCredentials, (Option.some.inj h).symm⟩

theorem homeProject_moved {childrenFolderIds : List String} {folder : Folder}
    (hfolder : folder ∈ (s.moveFoldersToDestination request childrenFolderIds).folders.rows)
    (hid : folder.id ∈ childrenFolderIds ++ [request.sourceFolderId]) :
    folder.homeProject = request.destinationProjectId := by
  simp only [moveFoldersToDestination, Table.mem_update] at hfolder
  obtain ⟨middle, ⟨old, -, hmiddle⟩, heq⟩ := hfolder
  have hchild : middle.id ∈ childrenFolderIds →
      middle.homeProject = request.destinationProjectId := by
    subst hmiddle
    by_cases h : old.id ∈ childrenFolderIds <;> simp [h]
  by_cases hsource : middle.id = request.sourceFolderId
  · rw [if_pos (decide_eq_true hsource)] at heq
    rw [← heq]
  · rw [if_neg (by simpa using hsource)] at heq
    subst heq
    rcases List.mem_append.mp hid with hid | hid
    · exact hchild hid
    · exact absurd (List.mem_singleton.mp hid) hsource

/-! ## Reactivation -/

/-- What an attempt to activate a workflow again does. -/
inductive Attempted (env : TransferOutcomes) (workflowId : String) (s : TransferState) :
    Except TransferError Unit × TransferState → Prop where
  | added (hadd : env.add workflowId = .added) :
      Attempted env workflowId s (.ok (), s.setRegistered workflowId true)
  | updateFailed {error : ActivationFailure} {registered : Bool}
      (hadd : env.add workflowId = .failed error registered)
      (hupdate : env.updateFails workflowId = true) :
      Attempted env workflowId s (.error .databaseError, s.setRegistered workflowId registered)
  | deactivated {registered : Bool}
      (hadd : env.add workflowId = .failed .workflowActivationError registered)
      (hupdate : env.updateFails workflowId = false) :
      Attempted env workflowId s
        (.ok (), (s.setRegistered workflowId registered).updateActiveState workflowId false)
  | rethrown {registered : Bool} (hadd : env.add workflowId = .failed .otherError registered)
      (hupdate : env.updateFails workflowId = false) :
      Attempted env workflowId s (.error .activationError,
        (s.setRegistered workflowId registered).updateActiveState workflowId false)

theorem attempted (env : TransferOutcomes) (s : TransferState) (workflowId : String) :
    Attempted env workflowId s (attemptWorkflowReactivation env workflowId s) := by
  unfold attemptWorkflowReactivation
  cases hadd : env.add workflowId with
  | added => exact .added hadd
  | failed error registered =>
    cases hupdate : env.updateFails workflowId with
    | true => exact .updateFailed hadd hupdate
    | false =>
      cases error with
      | workflowActivationError => exact .deactivated hadd hupdate
      | otherError => exact .rethrown hadd hupdate

theorem attempt_frame (env : TransferOutcomes) (s : TransferState) (workflowId : String) :
    ∃ workflows registered,
      (attemptWorkflowReactivation env workflowId s).2 = { s with workflows, registered } ∧
      (∀ workflow, workflow.id ≠ workflowId →
        (workflow ∈ workflows.rows ↔ workflow ∈ s.workflows.rows)) ∧
      ∀ id, id ≠ workflowId → (id ∈ registered ↔ id ∈ s.registered) := by
  have hregistered : ∀ registered id, id ≠ workflowId →
      (id ∈ (s.setRegistered workflowId registered).registered ↔ id ∈ s.registered) := by
    intro registered id hne
    rw [mem_setRegistered, if_neg hne]
  have hrows : ∀ workflow : WorkflowRow, workflow.id ≠ workflowId →
      (workflow ∈ (s.updateActiveState workflowId false).workflows.rows ↔
        workflow ∈ s.workflows.rows) := by
    intro workflow hne
    simp only [updateActiveState, Table.mem_update]
    refine ⟨fun h => ?_, fun h => ⟨workflow, h, by simp [hne]⟩⟩
    obtain ⟨old, hold, rfl⟩ := h
    by_cases hid : old.id = workflowId
    · simp [hid] at hne
    · simpa [hid] using hold
  have hattempt := attempted env s workflowId
  generalize attemptWorkflowReactivation env workflowId s = r at hattempt ⊢
  cases hattempt with
  | added hadd => exact ⟨s.workflows, _, rfl, fun _ _ => .rfl, hregistered true⟩
  | updateFailed hadd hupdate => exact ⟨s.workflows, _, rfl, fun _ _ => .rfl, hregistered _⟩
  | deactivated hadd hupdate => exact ⟨_, _, rfl, hrows, hregistered _⟩
  | rethrown hadd hupdate => exact ⟨_, _, rfl, hrows, hregistered _⟩

theorem registeredIfActive_attempt (env : TransferOutcomes) (s : TransferState)
    (hne : id ≠ workflowId) :
    (attemptWorkflowReactivation env workflowId s).2.RegisteredIfActive id ↔
      s.RegisteredIfActive id := by
  obtain ⟨workflows, registered, hstate, hworkflows, hregistered⟩ :=
    attempt_frame env s workflowId
  rw [hstate]
  unfold RegisteredIfActive
  simp only [hregistered id hne]
  constructor
  · intro h workflow hrow hid
    exact h workflow ((hworkflows workflow (hid ▸ hne)).mpr hrow) hid
  · intro h workflow hrow hid
    exact h workflow ((hworkflows workflow (hid ▸ hne)).mp hrow) hid

theorem attempts_frame (env : TransferOutcomes) (s : TransferState) (ids : List String) :
    ∃ workflows registered,
      (forEach (attemptWorkflowReactivation env) ids s).2 = { s with workflows, registered } := by
  induction ids generalizing s with
  | nil => exact ⟨_, _, rfl⟩
  | cons workflowId rest ih =>
    obtain ⟨workflows, registered, hstate, -, -⟩ :=
      attempt_frame env s workflowId
    rw [forEach]
    generalize attemptWorkflowReactivation env workflowId s = r at hstate
    obtain ⟨result, next⟩ := r
    cases result with
    | error e => exact ⟨workflows, registered, hstate⟩
    | ok done =>
      obtain ⟨workflows', registered', hrest⟩ := ih next
      refine ⟨workflows', registered', hrest.trans ?_⟩
      rw [show next = _ from hstate]

theorem registeredIfActive_attempts {ids : List String} (hnot : id ∉ ids) :
    (forEach (attemptWorkflowReactivation env) ids s).2.RegisteredIfActive id ↔
      s.RegisteredIfActive id := by
  induction ids generalizing s with
  | nil => exact .rfl
  | cons workflowId rest ih =>
    rw [List.mem_cons, not_or] at hnot
    obtain ⟨hne, hnot⟩ := hnot
    have hone := registeredIfActive_attempt env s hne
    rw [forEach]
    generalize attemptWorkflowReactivation env workflowId s = r at hone
    obtain ⟨result, next⟩ := r
    cases result with
    | error e => exact hone
    | ok done => exact (ih hnot).trans hone

theorem registeredIfActive_setRegistered (workflowId : String) :
    (s.setRegistered workflowId true).RegisteredIfActive workflowId := by
  intro workflow _ _ _
  rw [mem_setRegistered, if_pos rfl]

theorem registeredIfActive_updateActiveState (workflowId : String) :
    (s.updateActiveState workflowId false).RegisteredIfActive workflowId := by
  intro workflow hrow hid hactive
  simp only [updateActiveState, Table.mem_update] at hrow
  obtain ⟨old, -, rfl⟩ := hrow
  by_cases h : old.id = workflowId
  · simp [h] at hactive
  · simp [h] at hid

/-- A workflow that is active and unregistered is no better off after it was taken off the
registered ones. -/
theorem registeredIfActive_of_kept (h : ¬ s.RegisteredIfActive workflowId) (registered : Bool) :
    (s.setRegistered workflowId registered).RegisteredIfActive workflowId ↔
      registered = true := by
  constructor
  · intro hafter
    by_contra hregistered
    refine h fun workflow hrow hid hactive => ?_
    have := hafter workflow hrow hid hactive
    rw [mem_setRegistered, if_pos rfl] at this
    exact absurd this hregistered
  · rintro rfl
    exact registeredIfActive_setRegistered workflowId

theorem reactivation_iff {ids : List String} (hnodup : ids.Nodup)
    (hids : ∀ id ∈ ids, ¬ s.RegisteredIfActive id) :
    (∀ id ∈ ids, (forEach (attemptWorkflowReactivation env) ids s).2.RegisteredIfActive id) ↔
      ReactivationSettles env ids := by
  induction ids generalizing s with
  | nil => simp [ReactivationSettles]
  | cons workflowId rest ih =>
    obtain ⟨hnew, hnodup⟩ := List.nodup_cons.mp hnodup
    obtain ⟨hfirst, hrest⟩ := List.forall_mem_cons.mp hids
    have hframe : ∀ id ∈ rest,
        ¬ (attemptWorkflowReactivation env workflowId s).2.RegisteredIfActive id := by
      intro id hid
      have hne : id ≠ workflowId := by
        rintro rfl
        exact hnew hid
      rw [registeredIfActive_attempt env s hne]
      exact hrest id hid
    have hattempt := attempted env s workflowId
    rw [forEach, ReactivationSettles, List.forall_mem_cons]
    generalize attemptWorkflowReactivation env workflowId s = r at hattempt hframe
    -- Where an attempt throws, the workflows after it stay active and unregistered.
    have hstop : ∀ t : TransferState, (∀ id ∈ rest, ¬ t.RegisteredIfActive id) →
        ((∀ id ∈ rest, t.RegisteredIfActive id) ↔ rest = []) := by
      intro t ht
      constructor
      · intro h
        exact List.eq_nil_iff_forall_not_mem.mpr fun id hid => ht id hid (h id hid)
      · rintro rfl
        simp
    cases hattempt with
    | added hadd =>
      rw [hadd]
      show RegisteredIfActive (forEach _ rest _).2 workflowId ∧ _ ↔ _
      rw [registeredIfActive_attempts hnew, ih hnodup hframe]
      exact and_iff_right (registeredIfActive_setRegistered workflowId)
    | updateFailed hadd hupdate =>
      rw [hadd]
      simp only [hupdate, if_true]
      exact and_congr (registeredIfActive_of_kept hfirst _) (hstop _ hframe)
    | deactivated hadd hupdate =>
      rw [hadd]
      simp only [hupdate, Bool.false_eq_true, if_false]
      show RegisteredIfActive (forEach _ rest _).2 workflowId ∧ _ ↔ _
      rw [registeredIfActive_attempts hnew, ih hnodup hframe]
      exact and_iff_right (registeredIfActive_updateActiveState workflowId)
    | rethrown hadd hupdate =>
      rw [hadd]
      simp only [hupdate, Bool.false_eq_true, if_false]
      rw [hstop _ hframe]
      exact and_iff_right (registeredIfActive_updateActiveState workflowId)

/-! ## The checks -/

theorem findOneOrFailFolderInProject_eq_ok {folderId : String} {folder : Folder}
    (h : s.findOneOrFailFolderInProject folderId projectId = .ok folder) :
    folder ∈ s.folders.rows ∧ folder.id = folderId ∧ folder.homeProject = projectId := by
  unfold findOneOrFailFolderInProject at h
  split at h
  · rename_i found hfound
    cases h
    exact ⟨List.mem_of_find?_eq_some hfound, by simpa using List.find?_some hfound⟩
  · cases h

theorem checkOwner_eq_ok {destinationProjectId : String}
    (h : s.checkOwner destinationProjectId workflow = .ok ()) :
    ∃ owner, owner ≠ destinationProjectId ∧ Owns .owner s.shared owner workflow.id := by
  unfold checkOwner at h
  split at h
  · cases h
  · rename_i ownerSharing hfound
    split at h
    · cases h
    · rename_i hne
      refine ⟨ownerSharing.projectId, hne, ?_⟩
      have hrow := Table.mem_findBy.mp (List.mem_of_find?_eq_some hfound)
      have hrole : ownerSharing.role = .owner := by simpa using List.find?_some hfound
      have hid : ownerSharing.resourceId = workflow.id := by simpa using hrow.2
      rw [Owns, ← hrole, ← hid]
      exact hrow.1

theorem forM_eq_ok {check : WorkflowRow → Except TransferError Unit}
    (h : workflows.forM check = .ok ()) : ∀ workflow ∈ workflows, check workflow = .ok () := by
  induction workflows with
  | nil => simp
  | cons workflow rest ih =>
    obtain ⟨done, hfirst, hrest⟩ := bind_eq_ok.mp h
    exact List.forall_mem_cons.mpr ⟨hfirst, ih hrest⟩

/-- A request that passes the checks is about a folder of the source project and about workflows
that the destination does not own. -/
theorem checks_eq_ok (h : s.checks env request workflows = .ok ()) :
    (∃ folder ∈ s.folders.rows, folder.id = request.sourceFolderId ∧
      folder.homeProject = request.sourceProjectId) ∧
      ∀ workflow ∈ workflows, ∃ owner, owner ≠ request.destinationProjectId ∧
        Owns .owner s.shared owner workflow.id := by
  unfold checks at h
  split at h
  · obtain ⟨-, -, h⟩ := bind_eq_ok.mp h
    obtain ⟨folder, hfolder, h⟩ := bind_eq_ok.mp h
    refine ⟨⟨folder, findOneOrFailFolderInProject_eq_ok hfolder⟩, fun workflow hworkflow => ?_⟩
    exact checkOwner_eq_ok (forM_eq_ok h workflow hworkflow)
  · cases h

/-! ## The result -/

theorem hierarchyActive_nodup (s : TransferState) (request : TransferRequest) :
    (s.hierarchyActive request).Nodup :=
  (s.workflows.findBy_unique _).sublist (List.filter_sublist.map _)

theorem mem_hierarchyActive :
    id ∈ s.hierarchyActive request ↔
      ∃ workflow ∈ s.hierarchyWorkflows request, workflow.active = true ∧ workflow.id = id := by
  simp [hierarchyActive, and_assoc]

variable {t : TransferState}

theorem registeredIfActive_iff (hrows : t.workflows = s.workflows)
    (hmem : workflow ∈ s.hierarchyWorkflows request) :
    t.RegisteredIfActive workflow.id ↔ (workflow.active = true → workflow.id ∈ t.registered) := by
  have hrow : workflow ∈ t.workflows.rows := hrows ▸ (Table.mem_findBy.mp hmem).1
  constructor
  · intro h
    exact h workflow hrow rfl
  · intro h other hother hid hactive
    have hsame := t.workflows.row_unique hother hrow hid
    exact h (hsame ▸ hactive)

theorem all_registered_iff (hrows : t.workflows = s.workflows) :
    (∀ workflow ∈ s.hierarchyWorkflows request, t.RegisteredIfActive workflow.id) ↔
      ∀ id ∈ s.hierarchyActive request, id ∈ t.registered := by
  constructor
  · intro h id hid
    obtain ⟨workflow, hmem, hactive, rfl⟩ := mem_hierarchyActive.mp hid
    exact (registeredIfActive_iff hrows hmem).mp (h workflow hmem) hactive
  · intro h workflow hmem
    refine (registeredIfActive_iff hrows hmem).mpr fun hactive => ?_
    exact h workflow.id (mem_hierarchyActive.mpr ⟨workflow, hmem, hactive, rfl⟩)

/-- Activating the workflows again settles exactly when each of them ends up inactive or
registered. -/
theorem all_reactivated_iff (hrows : t.workflows = s.workflows)
    (hnone : ∀ id ∈ s.hierarchyActive request, id ∉ t.registered) :
    (∀ workflow ∈ s.hierarchyWorkflows request,
      (forEach (attemptWorkflowReactivation env) (s.hierarchyActive request)
        t).2.RegisteredIfActive workflow.id) ↔
      ReactivationSettles env (s.hierarchyActive request) := by
  rw [← reactivation_iff (hierarchyActive_nodup s request)]
  · constructor
    · intro h id hid
      obtain ⟨workflow, hmem, -, rfl⟩ := mem_hierarchyActive.mp hid
      exact h workflow hmem
    · intro h workflow hmem
      by_cases hid : workflow.id ∈ s.hierarchyActive request
      · exact h workflow.id hid
      · rw [registeredIfActive_attempts hid, registeredIfActive_iff hrows hmem]
        intro hactive
        exact absurd (mem_hierarchyActive.mpr ⟨workflow, hmem, hactive, rfl⟩) hid
  · intro id hid hregistered
    obtain ⟨workflow, hmem, hactive, rfl⟩ := mem_hierarchyActive.mp hid
    exact hnone _ hid ((registeredIfActive_iff hrows hmem).mp hregistered hactive)

theorem allOrNothing_unmoved
    (hsource : BelongTo (s.hierarchyFolders request) (s.hierarchyWorkflows request)
      request.sourceProjectId s) (hfolders : t.folders = s.folders)
    (hrows : t.workflows = s.workflows) (hshared : t.shared = s.shared) :
    AllOrNothing request s t ↔ ∀ id ∈ s.hierarchyActive request, id ∈ t.registered := by
  refine (and_iff_right (.inr ⟨?_, ?_⟩)).trans (all_registered_iff hrows)
  · rw [hfolders]
    exact hsource.folders
  · rw [hshared]
    exact hsource.workflows

/-- Once the ownership was moved and the folders were not, nothing is in one place unless there are
no workflows. -/
theorem allOrNothing_split
    (hsource : BelongTo (s.hierarchyFolders request) (s.hierarchyWorkflows request)
      request.sourceProjectId s)
    (hchecks : s.checks env request (s.hierarchyWorkflows request) = .ok ())
    (hfolders : t.folders = s.folders) (hshared : t.shared = (s.hierarchyWorkflows request).foldl
      (transferOwnership request.destinationProjectId) s.shared) :
    AllOrNothing request s t ↔ s.hierarchyWorkflows request = [] := by
  constructor
  · rintro ⟨h, -⟩
    by_contra hsome
    obtain ⟨workflow, hmem⟩ := List.exists_mem_of_ne_nil _ hsome
    obtain ⟨⟨folder, hfolder, hfolderId, hhome⟩, howners⟩ := checks_eq_ok hchecks
    obtain ⟨owner, hne, howns⟩ := howners workflow hmem
    have hdiff : request.sourceProjectId ≠ request.destinationProjectId :=
      (hsource.workflows workflow hmem owner).mp howns ▸ hne
    have hid : folder.id ∈ s.hierarchyFolders request :=
      List.mem_append_right _ (List.mem_singleton.mpr hfolderId)
    rcases h with h | h
    · exact hdiff (hhome.symm.trans (h.folders folder (hfolders ▸ hfolder) hid))
    · have hmoved := (h.workflows workflow hmem request.destinationProjectId).mp
      rw [hshared] at hmoved
      exact hdiff (hmoved ((owns_transferOwnerships hmem _).mpr rfl)).symm
  · intro hnone
    unfold AllOrNothing
    dsimp only
    rw [hnone]
    refine ⟨.inr ⟨fun folder hfolder => ?_, fun _ hmem => nomatch hmem⟩,
      fun _ hmem => nomatch hmem⟩
    rw [hfolders] at hfolder
    exact hsource.folders folder hfolder

theorem allOrNothing_moved (childrenFolderIds : List String) (hchildren : childrenFolderIds =
      s.getAllFolderIdsInHierarchy request.sourceFolderId request.sourceProjectId)
    (hrows : t.workflows = s.workflows) (hshared : t.shared = (s.hierarchyWorkflows request).foldl
      (transferOwnership request.destinationProjectId) s.shared)
    (hnone : ∀ id ∈ s.hierarchyActive request, id ∉ t.registered) :
    AllOrNothing request s (forEach (attemptWorkflowReactivation env) (s.hierarchyActive request)
      (t.moveFoldersToDestination request childrenFolderIds)).2 ↔
      ReactivationSettles env (s.hierarchyActive request) := by
  refine (and_iff_right (.inl ?_)).trans (all_reactivated_iff hrows hnone)
  obtain ⟨workflows, registered, hstate⟩ := attempts_frame env
    (t.moveFoldersToDestination request childrenFolderIds) (s.hierarchyActive request)
  rw [hstate]
  constructor
  · intro folder hfolder hid
    refine homeProject_moved hfolder ?_
    rw [hchildren]
    exact hid
  · intro workflow hmem owner
    show Owns .owner t.shared owner workflow.id ↔ _
    rw [hshared]
    exact owns_transferOwnerships hmem owner

theorem transferChecked_iff
    (hsource : BelongTo (s.hierarchyFolders request) (s.hierarchyWorkflows request)
      request.sourceProjectId s)
    (hchecks : s.checks env request (s.hierarchyWorkflows request) = .ok ()) :
    AllOrNothing request s (s.transferChecked env request
      (s.getAllFolderIdsInHierarchy request.sourceFolderId request.sourceProjectId)
      (s.hierarchyWorkflows request)).2 ↔ StepsEndCleanly env request s := by
  obtain ⟨registered, hremoved, hregistered⟩ :=
    removals_registered env s (s.hierarchyActive request)
  unfold StepsEndCleanly transferChecked
  rw [show ((s.hierarchyWorkflows request).filter (·.active)).map (·.id) =
    s.hierarchyActive request from rfl]
  dsimp only
  rw [hremoved]
  split
  · refine (allOrNothing_unmoved (t := { s with registered }) hsource rfl rfl rfl).trans ?_
    refine forall₂_congr fun id hactive => (hregistered id).trans ?_
    exact and_congr_right fun _ => forall_prop_of_true hactive
  · rename_i hall
    have hnone : ∀ id ∈ s.hierarchyActive request, id ∉ registered := by
      intro id hactive hmem
      have hkept := ((hregistered id).mp hmem).2 hactive
      refine hall (List.any_eq_true.mpr ⟨id, hactive, ?_⟩)
      rw [hkept]
      rfl
    split
    · refine (allOrNothing_unmoved (t := { s with registered }) hsource rfl rfl rfl).trans ?_
      constructor
      · intro h
        exact List.eq_nil_iff_forall_not_mem.mpr fun id hactive => hnone id hactive (h id hactive)
      · intro h
        rw [h]
        exact fun _ hmem => nomatch hmem
    · rw [← shareCredentialsWithProject_congr s (transferWorkflowOwnership
        (s.hierarchyWorkflows request) request.destinationProjectId { s with registered }) rfl]
      cases hshare : shareCredentialsWithProject env request.shareCredentials
          request.destinationProjectId (transferWorkflowOwnership (s.hierarchyWorkflows request)
            request.destinationProjectId { s with registered }) with
      | none => exact allOrNothing_split hsource hchecks rfl rfl
      | some t =>
        obtain ⟨sharedCredentials, rfl⟩ := shareCredentialsWithProject_eq_some hshare
        cases env.moveFails with
        | true => exact allOrNothing_split hsource hchecks rfl rfl
        | false => exact allOrNothing_moved _ rfl rfl rfl hnone

/-- When every folder and workflow of a hierarchy belongs to the source project, a transfer is all
or nothing exactly when the step that it ends at leaves everything in one place. -/
theorem transferFolder_iff (env : TransferOutcomes) (request : TransferRequest) (s : TransferState)
    (hsource : BelongTo (s.hierarchyFolders request) (s.hierarchyWorkflows request)
      request.sourceProjectId s) :
    AllOrNothing request s (s.transferFolder env request).2 ↔ EndsCleanly env request s := by
  cases hchecks : s.checks env request (s.hierarchyWorkflows request) with
  | error e =>
    have hrun : s.transferFolder env request = (.error e, s) := by
      show (match s.checks env request (s.hierarchyWorkflows request) with
        | .error e => _ | .ok () => _) = _
      rw [hchecks]
    rw [hrun, EndsCleanly, hchecks]
    refine (and_iff_right (.inr hsource)).trans ?_
    exact all_registered_iff rfl
  | ok done =>
    cases done
    have hrun : s.transferFolder env request = s.transferChecked env request
        (s.getAllFolderIdsInHierarchy request.sourceFolderId request.sourceProjectId)
        (s.hierarchyWorkflows request) := by
      show (match s.checks env request (s.hierarchyWorkflows request) with
        | .error e => _ | .ok () => _) = _
      rw [hchecks]
      rfl
    rw [hrun, EndsCleanly, hchecks]
    exact transferChecked_iff hsource hchecks

/-- A folder with an active workflow. -/
def activeFolder : TransferState where
  folders := ⟨[⟨"folder", "source", none⟩], by decide⟩
  workflows := ⟨[⟨"workflow", true, some "folder"⟩], by decide⟩
  shared := ⟨[⟨"workflow", "source", .owner⟩], by decide⟩
  sharedCredentials := ⟨[], List.nodup_nil⟩
  registered := ["workflow"]

/-- The request to move that folder. -/
def moveFolder : TransferRequest where
  sourceProjectId := "source"
  sourceFolderId := "folder"
  destinationProjectId := "destination"
  destinationParentFolderId := projectRoot
  shareCredentials := []

/-- Everything succeeds, except that the folders may fail to move. -/
def movingOutcomes (moveFails : Bool) : TransferOutcomes where
  destinationFound := true
  remove _ := .removed
  ownershipFails := false
  credentialsOfUser := some []
  shareWithProjects _ _ rows := some rows
  moveFails := moveFails
  add _ := .added
  updateFails _ := false

theorem activeFolder_belongs :
    BelongTo (activeFolder.hierarchyFolders moveFolder)
      (activeFolder.hierarchyWorkflows moveFolder) moveFolder.sourceProjectId activeFolder where
  folders folder hfolder _ := by
    rw [List.mem_singleton.mp hfolder]
    rfl
  workflows workflow hmem owner := by
    rw [List.mem_singleton.mp (Table.mem_findBy.mp hmem).1]
    simp [Owns, activeFolder, moveFolder]

/-- A transfer whose last write fails has moved the workflow and not the folder. -/
theorem failed_move_splits :
    (∀ workflow ∈ activeFolder.hierarchyWorkflows moveFolder,
      activeFolder.RegisteredIfActive workflow.id) ∧
      BelongTo (activeFolder.hierarchyFolders moveFolder)
        (activeFolder.hierarchyWorkflows moveFolder) moveFolder.sourceProjectId activeFolder ∧
      ¬ AllOrNothing moveFolder activeFolder
        (activeFolder.transferFolder (movingOutcomes true) moveFolder).2 := by
  refine ⟨(all_registered_iff rfl).mpr (by decide), activeFolder_belongs, ?_⟩
  rintro ⟨h | h, -⟩
  · have := h.folders ⟨"folder", "source", none⟩ (by decide +kernel) (by decide +kernel)
    exact absurd this (by decide)
  · have := (h.workflows ⟨"workflow", true, some "folder"⟩ (by decide +kernel) "destination").mp
      (by unfold Owns; decide +kernel)
    exact absurd this (by decide)

/-- The transfer of the folder when everything succeeds. -/
theorem moved_folder_in_one_place :
    AllOrNothing moveFolder activeFolder
        (activeFolder.transferFolder (movingOutcomes false) moveFolder).2 ↔
      EndsCleanly (movingOutcomes false) moveFolder activeFolder :=
  transferFolder_iff _ _ _ activeFolder_belongs

end TransferState

end N8n.Sharing
