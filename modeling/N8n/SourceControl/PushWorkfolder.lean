import N8n.Collections.Fallible
import N8n.SourceControl.Status
import N8n.Text.Equality
import N8n.Text.PosixPath

/-!
# Pushing the work folder

`pushWorkfolder` of `packages/cli/src/environments.ee/source-control/source-control.service.ee.ts`,
with the check of a client's path in `source-control-helper.ee.ts`, the joins of
`packages/@n8n/backend-common/src/utils/path-util.ts`, and what the exports of
`source-control-export.service.ee.ts` do to the files that are pushed. The contents that are
exported, the message of the commit and the tracking event are left out. A file that cannot be
removed is only logged.
-/

namespace N8n.SourceControl

open Collections Text

/-- The operations of a push that may throw. -/
inductive PushOperation where
  | exportWorkflows
  | exportCredentials
  | exportTags
  | exportFolders
  | exportVariables
  | stage
  | commit
  | push
  deriving DecidableEq

inductive PushError where
  | sourceControl (error : SourceControlError)
  | assertion (message : String)
  /-- `Path traversal detected, refusing to join paths`. -/
  | pathTraversal (parentPath path : Path)
  | operation (operation : PushOperation)

/-- What a push finds: the status for the user, the folder of the repository, the working directory
of the process, the credentials that a project owns, and the operations that throw. -/
structure PushContext extends StatusContext where
  gitFolder : Path
  cwd : Path
  cwd_isAbsolute : isAbsolute cwd
  isBranchReadOnly : Bool
  ownedCredentials : List ResourceId
  throws : PushOperation → Bool

structure PushWorkFolderRequest where
  force : Bool
  fileNames : List SourceControlledFile

/-- The sets that are staged. -/
structure StagedFiles where
  filesToBePushed : List Path
  filesToBeDeleted : List Path

inductive PushAnswer where
  | error (error : PushError)
  /-- Status code 409. -/
  | conflicts (statusResult : List SourceControlledFile)
  /-- Status code 200. -/
  | pushed (statusResult : List SourceControlledFile)

/-- The answer to a push, and the files that were staged or deleted by then. -/
structure PushOutcome where
  answer : PushAnswer
  staged : List Path := []
  deleted : List Path := []

namespace PushContext

variable (p : PushContext)

section Paths

def isContainedWithin (parentPath childPath : Path) : Bool :=
  resolve p.cwd parentPath = resolve p.cwd childPath ||
    (resolve p.cwd parentPath ++ ['/']).isPrefixOf (resolve p.cwd childPath)

def safeJoinPath (parentPath path : Path) : Except PushError Path :=
  let candidate := join parentPath path
  if p.isContainedWithin parentPath candidate then .ok candidate
  else .error (.pathTraversal parentPath path)

/-- The path is made absolute, but it is the path as the client sent it that has to be in the git
folder. -/
def normalizeAndValidateSourceControlledFilePath (gitFolderPath filePath : Path) :
    Except PushError Path :=
  if !isAbsolute gitFolderPath then throw (.assertion "gitFolder must be an absolute path")
  else do
    let normalizedPath ←
      (if isAbsolute filePath then pure filePath else p.safeJoinPath gitFolderPath filePath)
    if !p.isContainedWithin gitFolderPath filePath then
      throw (.sourceControl (.user ("File path " ++ String.ofList filePath ++ " is invalid")))
    else pure normalizedPath

/-- `getCredentialsPath(id)`, in the folder of the credentials. -/
def getCredentialsPath (credentialsId : ResourceId) : Except PushError Path :=
  p.safeJoinPath (join p.gitFolder "credential_stubs".toList) (credentialsId ++ ".json".toList)

end Paths

section Selection

/-- The resources that `getStatus` reports for a push. -/
def resources : List SourceControlledFile :=
  sourceControlledFiles { direction := .push, preferLocalVersion := true } p.toStatusContext

def isAllowed (file : SourceControlledFile) : Bool :=
  p.resources.any fun allowed => allowed.id = file.id && allowed.type = file.type

/-- The files of a request, with their paths made absolute. -/
def normalizedFiles (fileNames : List SourceControlledFile) :
    Except PushError (List SourceControlledFile) :=
  fileNames.mapM fun file =>
    (p.normalizeAndValidateSourceControlledFilePath p.gitFolder file.file).map
      fun normalizedPath => { file with file := normalizedPath }

/-- The files to push: those of the request if all of them are allowed, and all that are allowed if
there are none. -/
def filesToPush (fileNames : List SourceControlledFile) :
    Except PushError (List SourceControlledFile) :=
  if !p.isSetUp then
    throw (.sourceControl (.badRequest
      "Source control is not properly set up, please disconnect and reconnect."))
  else if p.isBranchReadOnly then
    throw (.sourceControl (.badRequest "Cannot push onto read-only branch."))
  else do
    let files ← p.normalizedFiles fileNames
    let allowedResources ←
      (getStatus { direction := .push, preferLocalVersion := true } p.toStatusContext).mapError
        PushError.sourceControl
    if files.isEmpty then pure allowedResources
    else if files.any fun file => !p.isAllowed file then
      throw (.sourceControl (.forbidden "You are not allowed to push these changes"))
    else pure files

end Selection

section Export

/-- `Set.prototype.add`. -/
def addFile (files : List Path) (file : Path) : List Path :=
  if file ∈ files then files else files ++ [file]

def isWorkflowOrCredential (file : SourceControlledFile) : Bool :=
  file.type = .workflow || file.type = .credential

def addEntry (sets : StagedFiles) (e : SourceControlledFile) : StagedFiles :=
  if e.status ≠ .deleted then
    { sets with filesToBePushed := addFile sets.filesToBePushed e.file }
  else { sets with filesToBeDeleted := addFile sets.filesToBeDeleted e.file }

/-- Workflows and credentials have a file each, which is pushed or deleted. -/
def partitionFiles (files : List SourceControlledFile) : StagedFiles :=
  (files.filter isWorkflowOrCredential).foldl addEntry ⟨[], []⟩

def perform (operation : PushOperation) : Except PushError Unit :=
  if p.throws operation then throw (.operation operation) else pure ()

def credentialsToBeExported (files : List SourceControlledFile) : List SourceControlledFile :=
  files.filter fun e => e.type = .credential && e.status ≠ .deleted

/-- The candidates that no project owns, which are looked for only if the numbers differ. -/
def missingIds (candidates : List SourceControlledFile) : List ResourceId :=
  let credentialIds := candidates.map (·.id)
  let foundCredentialIds := p.ownedCredentials.filter (· ∈ credentialIds)
  if foundCredentialIds.length ≠ credentialIds.length then
    credentialIds.filter (· ∉ foundCredentialIds)
  else []

/-- The paths of the listed credentials that are missing. -/
def missingPaths (files : List SourceControlledFile) : Except PushError (List Path) :=
  (p.missingIds (credentialsToBeExported files)).mapM p.getCredentialsPath

/-- The resources of a type that are kept in one file are exported all together, and the file of the
first change is pushed. -/
def exportChanges (type : FileType) (operation : PushOperation) (files : List SourceControlledFile)
    (filesToBePushed : List Path) : Except PushError (List Path) :=
  match files.find? fun e => e.type = type with
  | some changes => do
    p.perform operation
    return addFile filesToBePushed changes.file
  | none => return filesToBePushed

/-- Export the files: the files to be pushed, and the results of the push. -/
def exportFiles (files : List SourceControlledFile) :
    Except PushError (List Path × List SourceControlledFile) := do
  p.perform .exportWorkflows
  p.perform .exportCredentials
  let missing ← p.missingPaths files
  let filesToBePushed := (partitionFiles files).filesToBePushed.filter (· ∉ missing)
  let filesToBePushed ← p.exportChanges .tags .exportTags files filesToBePushed
  let filesToBePushed ← p.exportChanges .folders .exportFolders files filesToBePushed
  let filesToBePushed ← p.exportChanges .vars .exportVariables files filesToBePushed
  return (filesToBePushed, files.filter fun e => e.file ∉ missing)

end Export

/-- Delete, export, stage, commit and push the files. -/
def pushFiles (files : List SourceControlledFile) : PushOutcome :=
  let deleted := (partitionFiles files).filesToBeDeleted
  match p.exportFiles files with
  | .error error => { answer := .error error, deleted := deleted }
  | .ok (filesToBePushed, statusResult) =>
    match p.perform .stage with
    | .error error => { answer := .error error, deleted := deleted }
    | .ok () =>
      let answer :=
        match p.perform .commit >>= fun _ => p.perform .push with
        | .error error => .error error
        | .ok () =>
          .pushed (statusResult.map fun result => { result with pushed := some true })
      { answer := answer, staged := filesToBePushed, deleted := deleted }

def pushWorkfolder (options : PushWorkFolderRequest) : PushOutcome :=
  match p.filesToPush options.fileNames with
  | .error error => { answer := .error error }
  | .ok files =>
    if !options.force && files.any (·.conflict) then { answer := .conflicts files }
    else p.pushFiles files

end PushContext

end N8n.SourceControl
