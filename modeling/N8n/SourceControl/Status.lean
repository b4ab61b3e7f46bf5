import N8n.Collections.KeyedDifference

/-!
# The status of source control

`getStatus` of `packages/cli/src/environments.ee/source-control/source-control.service.ee.ts`
compares the resources of this instance with those in the work folder, type by type. Both sides are
what the import service returns for the user, each id once. The dates and owners that are passed on,
the files' dates, and the lists that a verbose status returns as well are left out.
-/

namespace N8n.SourceControl

open Collections

abbrev ResourceId := List Char

abbrev Path := List Char

inductive FileType where
  | credential
  | workflow
  | tags
  /-- `variables`. -/
  | vars
  | file
  | folders
  deriving DecidableEq

inductive FileStatus where
  | new
  | modified
  | deleted
  | created
  | renamed
  | conflicted
  | ignored
  | staged
  | unknown
  deriving DecidableEq

/-- `local` or `remote`. -/
inductive FileLocation where
  | localSide
  | remoteSide
  deriving DecidableEq

structure SourceControlledFile where
  file : Path
  id : ResourceId
  name : List Char
  type : FileType
  status : FileStatus
  location : FileLocation
  conflict : Bool
  pushed : Option Bool := none
  deriving DecidableEq

inductive Direction where
  | push
  | pull
  deriving DecidableEq

structure SourceControlGetStatus where
  direction : Direction
  preferLocalVersion : Bool
  deriving DecidableEq

/-- A workflow on one side. Its `parentFolderId` may be undefined, or the null of the root. -/
structure SourceControlWorkflowVersionId where
  id : ResourceId
  versionId : List Char
  filename : Path
  name : Option (List Char)
  parentFolderId : Option (Option ResourceId)

structure StatusExportableCredential where
  id : ResourceId
  name : List Char
  type : List Char
  filename : Path

structure Variable where
  id : ResourceId
  key : List Char

structure Tag where
  id : ResourceId
  name : List Char

structure WorkflowTagMapping where
  tagId : ResourceId
  workflowId : ResourceId
  deriving DecidableEq

structure ExportableFolder where
  id : ResourceId
  name : List Char
  parentFolderId : Option ResourceId

/-- The resources of one side, each id once. -/
structure Resources where
  workflows : List SourceControlWorkflowVersionId
  workflows_nodup : (workflows.map (·.id)).Nodup
  credentials : List StatusExportableCredential
  credentials_nodup : (credentials.map (·.id)).Nodup
  vars : List Variable
  vars_nodup : (vars.map (·.id)).Nodup
  tags : List Tag
  tags_nodup : (tags.map (·.id)).Nodup
  mappings : List WorkflowTagMapping
  folders : List ExportableFolder
  folders_nodup : (folders.map (·.id)).Nodup

/-- What `getStatus` finds for a user: the resources of both sides, all of the workflows of the
database, the scopes of the user, and whether the repository is set up and can be fetched. -/
structure StatusContext where
  isSetUp : Bool
  isFetched : Bool
  hasAccessToAllProjects : Bool
  hasPullScope : Bool
  ours : Resources
  theirs : Resources
  allLocalWorkflows : List SourceControlWorkflowVersionId
  variablesPath : Path
  tagsPath : Path
  foldersPath : Path

inductive SourceControlError where
  | badRequest (message : String)
  | forbidden (message : String)
  | user (message : String)

section Files

variable (options : SourceControlGetStatus)

/-- Where the files of a status come from. -/
def location : FileLocation :=
  if options.direction = .push then .localSide else .remoteSide

/-- What is missing here is deleted by a push and created by a pull. -/
def missingInLocalFile (type : FileType) (id : ResourceId) (name : List Char) (file : Path) :
    SourceControlledFile where
  file := file
  id := id
  name := name
  type := type
  status := if options.direction = .push then .deleted else .created
  location := location options
  conflict := false

/-- What is missing there is created by a push and deleted by a pull. -/
def missingInRemoteFile (type : FileType) (id : ResourceId) (name : List Char) (file : Path) :
    SourceControlledFile where
  file := file
  id := id
  name := name
  type := type
  status := if options.direction = .push then .created else .deleted
  location := location options
  conflict := if options.direction = .push then false else true

def modifiedFile (type : FileType) (id : ResourceId) (name : List Char) (file : Path) :
    SourceControlledFile where
  file := file
  id := id
  name := name
  type := type
  status := .modified
  location := location options
  conflict := true

end Files

section Types

variable (options : SourceControlGetStatus) (s : StatusContext)

def isWorkflowModified (ours theirs : SourceControlWorkflowVersionId) : Bool :=
  theirs.versionId ≠ ours.versionId ||
    (theirs.parentFolderId ≠ none && theirs.parentFolderId ≠ ours.parentFolderId)

/-- The name of a modified workflow tells both names, where there are two. -/
def modifiedName (ours theirs : SourceControlWorkflowVersionId) : List Char :=
  let name :=
    (if options.preferLocalVersion then ours.name else theirs.name).getD "Workflow".toList
  match ours.name, theirs.name with
  | some ourName, some theirName =>
    if ourName ≠ [] ∧ theirName ≠ [] ∧ ourName ≠ theirName then
      if options.preferLocalVersion then
        ourName ++ " (Remote: ".toList ++ theirName ++ ")".toList
      else theirName ++ " (Local: ".toList ++ ourName ++ ")".toList
    else name
  | _, _ => name

/-- The workflows that exist here, out of the scope of the user. -/
def outOfScopeWF : List SourceControlWorkflowVersionId :=
  if s.hasAccessToAllProjects then []
  else missingFrom (·.id) s.allLocalWorkflows s.ours.workflows

def wfModifiedInEither : List SourceControlWorkflowVersionId :=
  s.ours.workflows.filterMap fun ours =>
    match s.theirs.workflows.find? fun theirs => theirs.id = ours.id with
    | none => none
    | some theirs =>
      if isWorkflowModified ours theirs then
        some { ours with
          name := some (modifiedName options ours theirs)
          versionId := if options.preferLocalVersion then ours.versionId else theirs.versionId }
      else none

def getStatusWorkflows : List SourceControlledFile :=
  let wfMissingInLocal :=
    missingFrom (·.id) (missingFrom (·.id) s.theirs.workflows s.ours.workflows) (outOfScopeWF s)
  let wfMissingInRemote := missingFrom (·.id) s.ours.workflows s.theirs.workflows
  let name := fun item : SourceControlWorkflowVersionId => item.name.getD "Workflow".toList
  (wfMissingInLocal.map fun item =>
      missingInLocalFile options .workflow item.id (name item) item.filename) ++
    (wfMissingInRemote.map fun item =>
      missingInRemoteFile options .workflow item.id (name item) item.filename) ++
    (wfModifiedInEither options s).map fun item =>
      modifiedFile options .workflow item.id (name item) item.filename

def credModifiedInEither : List StatusExportableCredential :=
  s.ours.credentials.filterMap fun ours =>
    (s.theirs.credentials.find? fun theirs =>
      theirs.id = ours.id && (theirs.name ≠ ours.name || theirs.type ≠ ours.type)).map
        fun theirs =>
          { ours with name := if options.preferLocalVersion then ours.name else theirs.name }

def getStatusCredentials : List SourceControlledFile :=
  ((missingFrom (·.id) s.theirs.credentials s.ours.credentials).map fun item =>
      missingInLocalFile options .credential item.id item.name item.filename) ++
    ((missingFrom (·.id) s.ours.credentials s.theirs.credentials).map fun item =>
      missingInRemoteFile options .credential item.id item.name item.filename) ++
    (credModifiedInEither options s).map fun item =>
      modifiedFile options .credential item.id item.name item.filename

/-- Do the variables mismatch: one id with two keys, or one key with two ids? -/
def variablesMismatch (ours theirs : Variable) : Bool :=
  (theirs.id = ours.id && theirs.key ≠ ours.key) || (theirs.id ≠ ours.id && theirs.key = ours.key)

def varModifiedInEither : List Variable :=
  s.ours.vars.filterMap fun ours =>
    (s.theirs.vars.find? (variablesMismatch ours)).map
      fun theirs => if options.preferLocalVersion then ours else theirs

def getStatusVariables : List SourceControlledFile :=
  ((missingFrom (·.id) s.theirs.vars s.ours.vars).map fun item =>
      missingInLocalFile options .vars item.id item.key s.variablesPath) ++
    ((missingFrom (·.id) s.ours.vars s.theirs.vars).map fun item =>
      missingInRemoteFile options .vars item.id item.key s.variablesPath) ++
    (varModifiedInEither options s).map fun item =>
      modifiedFile options .vars item.id item.key s.variablesPath

def tagsModifiedInEither : List Tag :=
  s.ours.tags.filterMap fun ours =>
    (s.theirs.tags.find? fun theirs => theirs.id = ours.id && theirs.name ≠ ours.name).map
      fun theirs => if options.preferLocalVersion then ours else theirs

/-- The tags that differ. The mappings that are missing on either side are compared as well, but
only a verbose status returns them. -/
def getStatusTagsMappings : List SourceControlledFile :=
  ((missingFrom (·.id) s.theirs.tags s.ours.tags).map fun item =>
      missingInLocalFile options .tags item.id item.name s.tagsPath) ++
    ((missingFrom (·.id) s.ours.tags s.theirs.tags).map fun item =>
      missingInRemoteFile options .tags item.id item.name s.tagsPath) ++
    (tagsModifiedInEither options s).map fun item =>
      modifiedFile options .tags item.id item.name s.tagsPath

def foldersModifiedInEither : List ExportableFolder :=
  s.ours.folders.filterMap fun ours =>
    (s.theirs.folders.find? fun theirs =>
      theirs.id = ours.id &&
        (theirs.name ≠ ours.name || theirs.parentFolderId ≠ ours.parentFolderId)).map
          fun theirs => if options.preferLocalVersion then ours else theirs

def getStatusFoldersMapping : List SourceControlledFile :=
  ((missingFrom (·.id) s.theirs.folders s.ours.folders).map fun item =>
      missingInLocalFile options .folders item.id item.name s.foldersPath) ++
    ((missingFrom (·.id) s.ours.folders s.theirs.folders).map fun item =>
      missingInRemoteFile options .folders item.id item.name s.foldersPath) ++
    (foldersModifiedInEither options s).map fun item =>
      modifiedFile options .folders item.id item.name s.foldersPath

/-- The files of all types, in the order in which they are collected. -/
def sourceControlledFiles : List SourceControlledFile :=
  getStatusWorkflows options s ++ getStatusCredentials options s ++ getStatusVariables options s ++
    getStatusTagsMappings options s ++ getStatusFoldersMapping options s

def getStatus : Except SourceControlError (List SourceControlledFile) :=
  if !s.isSetUp then
    .error (.badRequest
      "Source control is not properly set up, please disconnect and reconnect.")
  else if options.direction = .pull ∧ !s.hasPullScope then
    .error (.forbidden "You do not have permission to pull from source control")
  else if !s.isFetched then
    .error (.user ("Unable to fetch updates from git - your folder might be out of sync. " ++
      "Try reconnecting from the Source Control settings page."))
  else .ok (sourceControlledFiles options s)

end Types

end N8n.SourceControl
