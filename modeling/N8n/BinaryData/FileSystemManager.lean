import N8n.Collections.FileTree
import N8n.Transition.Runs

/-!
# The file system manager of binary data

`FileSystemManager` of `packages/core/src/binary-data/file-system.manager.ts`: `store`,
`copyByFilePath`, `copyByFileId`, `rename` and `deleteMany` on a tree of files. Every request to the
file system is awaited, and a call is suspended at the request it awaits; the requests of a
`Promise.all` are under way together. Beside the tree the state records, for each file id, the
content that was last written, copied or renamed to it, and the executions whose files were deleted.
-/

namespace N8n.BinaryData

open Collections Transition

/-- The name of a file or directory. -/
@[ext] structure Segment where
  text : List Char
  valid : text ≠ [] ∧ text ≠ ['.'] ∧ text ≠ ['.', '.'] ∧ '/' ∉ text
  deriving DecidableEq, Repr

/-- The name of a binary data file: it has no extension. -/
@[ext] structure BaseName extends Segment where
  noDot : '.' ∉ text
  deriving DecidableEq, Repr

abbrev Path := List (List Char)

/-- The id of a file: in the directory of its execution, or in the older format `filesystem`. -/
inductive FileId where
  | nested (workflowId executionId : Segment) (uuid : BaseName)
  | legacy (name : BaseName)
  deriving DecidableEq, Repr

/-- An execution whose files are deleted. -/
structure ExecutionRef where
  workflowId : Segment
  executionId : Segment
  deriving DecidableEq, Repr

abbrev Bytes := List UInt8

structure PreWriteMetadata where
  mimeType : Option (List Char)
  fileName : Option (List Char)
  deriving DecidableEq, Repr

structure Metadata where
  mimeType : Option (List Char)
  fileName : Option (List Char)
  fileSize : Nat
  deriving DecidableEq, Repr

/-- The execution id for binary data that is written before the execution has one. -/
def temp : Segment := ⟨"temp".toList, by decide⟩

/-- The id of a new file. -/
def toFileId (workflowId : Segment) (executionId : Option Segment) (uuid : BaseName) : FileId :=
  .nested workflowId (executionId.getD temp) uuid

/-- The directory of an execution. -/
def executionDir (workflowId executionId : Segment) : Path :=
  ["workflows".toList, workflowId.text, "executions".toList, executionId.text]

namespace FileId

def directory : FileId → Path
  | .nested workflowId executionId _ =>
    executionDir workflowId executionId ++ ["binary_data".toList]
  | .legacy _ => []

def name : FileId → BaseName
  | .nested _ _ uuid => uuid
  | .legacy name => name

/-- The path of the file below the storage path. -/
def path (id : FileId) : Path := id.directory ++ [id.name.text]

/-- The path of its metadata. -/
def metadataPath (id : FileId) : Path := id.directory ++ [id.name.text ++ ".metadata".toList]

end FileId

/-- A character that `\w` matches. -/
def isWord (c : Char) : Bool := c.isAlphanum || c == '_'

/-- A character that `[0-9a-fA-F]` matches. -/
def isHex (c : Char) : Bool :=
  c.isDigit || ('a' ≤ c && c ≤ 'f') || ('A' ≤ c && c ≤ 'F')

/-- Is the text a UUID? -/
def isUuid (text : List Char) : Bool :=
  (text.splitOn '-').map List.length == [8, 4, 4, 4, 12] &&
    (text.splitOn '-').all fun group => group.all isHex

/-- The execution id in a file name of the older format: `EXECUTION_ID_EXTRACTOR`. -/
def executionIdOf (fileName : List Char) : Option (List Char) :=
  let executionId := fileName.take (fileName.length - 36)
  if executionId ≠ [] ∧ executionId.all isWord ∧ isUuid (fileName.drop (fileName.length - 36)) then
    some executionId
  else none

/-- The storage path, the working directory of the process, and the JSON texts of metadata, which
parse unless they are broken. -/
structure StorageConfig where
  storagePath : Path
  cwd : Path
  stringify : Metadata → Bytes
  parse : Bytes → Option Metadata

namespace StorageConfig

def resolvePath (cfg : StorageConfig) (path : Path) : Path := cfg.storagePath ++ path

def filePath (cfg : StorageConfig) (id : FileId) : Path := cfg.resolvePath id.path

def metadataPath (cfg : StorageConfig) (id : FileId) : Path := cfg.resolvePath id.metadataPath

/-- The directory that `rename` removes: `temp` in the part of the old path before `/temp/`. -/
def tempDir (cfg : StorageConfig) (oldPath : Path) : Path :=
  match oldPath.dropLast.findIdx? (· = temp.text) with
  | some 0 => cfg.cwd ++ [temp.text]
  | some i => oldPath.take i ++ [temp.text]
  | none => oldPath ++ [temp.text]

end StorageConfig

/-- What is written to a new file: a buffer or stream, a file outside the storage, or another file
with its metadata. -/
inductive Source where
  | buffer (content : Bytes) (metadata : PreWriteMetadata)
  | filePath (metadata : PreWriteMetadata)
  | fileId (sourceFileId : FileId) (sourceMetadata : Metadata)
  deriving DecidableEq, Repr

/-- What a call does once the directory exists. -/
inductive Job where
  | write (target : FileId) (source : Source)
  | rename (oldFileId newFileId : FileId)
  deriving DecidableEq, Repr

/-- The file whose directory the call asserts. -/
def Job.target : Job → FileId
  | .write target _ => target
  | .rename _ newFileId => newFileId

/-- The ids that the call may write or rename. -/
def Job.ids : Job → List FileId
  | .write target _ => [target]
  | .rename oldFileId newFileId => [oldFileId, newFileId]

/-- The request, or the requests, that a call awaits. -/
inductive Call where
  /-- `copyByFileId` reads the metadata of its source. -/
  | readingMetadata (target sourceFileId : FileId)
  /-- `assertDir` asks whether the directory exists. -/
  | accessing (job : Job)
  | makingDir (job : Job)
  | writing (target : FileId) (source : Source)
  | gettingSize (target : FileId) (metadata : PreWriteMetadata)
  | storingMetadata (target : FileId) (metadata : Metadata)
  /-- `rename` awaits that the file and the metadata are moved: which of them is under way, the
  content that was moved, and has one failed? -/
  | moving (oldFileId newFileId : FileId) (file metadata : Bool) (moved : Option Bytes)
      (failed : Bool)
  | removingTemp (oldFileId newFileId : FileId) (moved : Bytes)
  /-- `deleteMany` reads the names of the files in the older format. -/
  | readingDir (ids : List ExecutionRef)
  | removingLegacy (fileName : List Char) (file metadata failed : Bool)
      (fileNames : List (List Char)) (ids : List ExecutionRef)
  | removingDirs (dirs : List Path)
  deriving DecidableEq, Repr

/-- The call once its directory exists. -/
def Job.start : Job → Call
  | .write target source => .writing target source
  | .rename oldFileId newFileId => .moving oldFileId newFileId true true none false

/-- The ids that a suspended call may write or rename. -/
def Call.ids : Call → List FileId
  | .readingMetadata target _ => [target]
  | .accessing job | .makingDir job => job.ids
  | .writing target _ | .gettingSize target _ | .storingMetadata target _ => [target]
  | .moving oldFileId newFileId _ _ _ _ | .removingTemp oldFileId newFileId _ =>
    [oldFileId, newFileId]
  | .readingDir _ | .removingLegacy _ _ _ _ _ _ | .removingDirs _ => []

/-- Which request of a call is answered. -/
inductive Part where
  | file
  | metadata
  | dir (path : Path)
  deriving DecidableEq, Repr

/-- How the file system answers a request. The content of a file outside the storage comes with the
answer, and a failed write may leave something behind. -/
inductive Answer where
  | done
  | copied (content : Bytes)
  | failed (left : Option Bytes)
  deriving DecidableEq, Repr

def Answer.ok : Answer → Bool
  | .failed _ => false
  | _ => true

/-- The state of the storage: the tree, the calls under way, the content last written, copied or
renamed to each file id, and the executions whose files were deleted. -/
structure Storage where
  tree : FileTree (List Char) Bytes
  calls : List Call
  written : InsertionMap FileId Bytes
  deleted : List ExecutionRef
  deriving DecidableEq, Repr

/-- The calls, and the answers to the requests of the suspended ones. -/
inductive StorageEvent where
  | store (workflowId : Segment) (executionId : Option Segment) (uuid : BaseName)
      (content : Bytes) (metadata : PreWriteMetadata)
  | copyByFilePath (workflowId : Segment) (executionId : Option Segment) (uuid : BaseName)
      (metadata : PreWriteMetadata)
  | copyByFileId (workflowId : Segment) (executionId : Option Segment) (uuid : BaseName)
      (sourceFileId : FileId)
  | rename (oldFileId newFileId : FileId)
  | deleteMany (ids : List ExecutionRef)
  | goOn (call : Call) (part : Part) (answer : Answer)
  deriving DecidableEq, Repr

/-- The ids that an event may write or rename. -/
def StorageEvent.ids : StorageEvent → List FileId
  | .goOn call _ _ => call.ids
  | _ => []

/-- Was the execution of the file deleted? -/
def FileId.DeletedWith (deleted : List ExecutionRef) : FileId → Prop
  | .nested workflowId executionId _ => ⟨workflowId, executionId⟩ ∈ deleted
  | .legacy name => ∃ ref ∈ deleted, executionIdOf name.text = some ref.executionId.text

instance (deleted : List ExecutionRef) (id : FileId) : Decidable (id.DeletedWith deleted) :=
  match id with
  | .nested workflowId executionId _ =>
    inferInstanceAs (Decidable ((⟨workflowId, executionId⟩ : ExecutionRef) ∈ deleted))
  | .legacy name =>
    inferInstanceAs (Decidable
      (∃ ref ∈ deleted, executionIdOf name.text = some ref.executionId.text))

namespace Storage

variable (cfg : StorageConfig)

/-- Was the execution of the file deleted? -/
def Deleted (s : Storage) (id : FileId) : Prop := id.DeletedWith s.deleted

instance (s : Storage) (id : FileId) : Decidable (s.Deleted id) :=
  inferInstanceAs (Decidable (id.DeletedWith s.deleted))

def suspend (s : Storage) (call : Call) : Storage := { s with calls := s.calls ++ [call] }

/-- A call that writes a new file fails: its id is not given to anybody. -/
def forget (s : Storage) (target : FileId) : Storage :=
  { s with written := s.written.delete target }

/-- A rename fails: what it has moved was not to be moved. -/
def restore (s : Storage) (oldFileId : FileId) : Option Bytes → Storage
  | some content => { s with written := s.written.set oldFileId content }
  | none => s

/-- A failed write may leave something at its path. -/
def leave (s : Storage) (path : Path) : Answer → Storage
  | .failed (some left) => { s with tree := (s.tree.write path left).getD s.tree }
  | _ => s

/-- The content of a file. -/
def getAsBuffer (s : Storage) (id : FileId) : Option Bytes := s.tree.get? (cfg.filePath id)

/-- The metadata of a file, unless it is missing or broken. -/
def getMetadata (s : Storage) (id : FileId) : Option Metadata :=
  (s.tree.get? (cfg.metadataPath id)).bind cfg.parse

/-- The content that a write takes from its source. -/
def content (s : Storage) (answer : Answer) : Source → Option Bytes
  | .buffer content _ => if answer.ok then some content else none
  | .filePath _ =>
    match answer with
    | .copied content => some content
    | _ => none
  | .fileId sourceFileId _ => if answer.ok then s.getAsBuffer cfg sourceFileId else none

/-- Write a new file. -/
def writeFile (s : Storage) (target : FileId) (source : Source) (answer : Answer) : Storage :=
  match s.content cfg answer source with
  | none => (s.forget target).leave (cfg.filePath target) answer
  | some content =>
    match s.tree.write (cfg.filePath target) content with
    | none => s.forget target
    | some tree =>
      let s := { s with tree := tree, written := s.written.set target content }
      match source with
      | .buffer _ metadata | .filePath metadata => s.suspend (.gettingSize target metadata)
      | .fileId _ sourceMetadata => s.suspend (.storingMetadata target sourceMetadata)

/-- The size of the new file, for its metadata. -/
def getSize (s : Storage) (target : FileId) (metadata : PreWriteMetadata) (answer : Answer) :
    Storage :=
  match s.getAsBuffer cfg target, answer.ok with
  | some content, true =>
    s.suspend (.storingMetadata target ⟨metadata.mimeType, metadata.fileName, content.length⟩)
  | _, _ => s.forget target

/-- Write the metadata of a new file. -/
def storeMetadata (s : Storage) (target : FileId) (metadata : Metadata) (answer : Answer) :
    Storage :=
  if answer.ok then
    match s.tree.write (cfg.metadataPath target) (cfg.stringify metadata) with
    | some tree => { s with tree := tree }
    | none => s.forget target
  else (s.forget target).leave (cfg.metadataPath target) answer

/-- The tree after `rename` moved the file, or its metadata. -/
def moved (s : Storage) (answer : Answer) (oldPath newPath : Path) :
    Option (FileTree (List Char) Bytes) :=
  if answer.ok then s.tree.move oldPath newPath else none

/-- `rename` goes on when neither of its two requests is under way and none has failed. -/
def joinRename (s : Storage) (oldFileId newFileId : FileId) (file metadata : Bool)
    (moved : Option Bytes) (failed : Bool) : Storage :=
  if file || metadata then s.suspend (.moving oldFileId newFileId file metadata moved failed)
  else
    match moved, failed with
    | some content, false => s.suspend (.removingTemp oldFileId newFileId content)
    | moved, _ => s.restore oldFileId moved

/-- The file was moved by a rename, or not. -/
def renameFile (s : Storage) (oldFileId newFileId : FileId) (metadata failed : Bool)
    (answer : Answer) : Storage :=
  match s.moved answer (cfg.filePath oldFileId) (cfg.filePath newFileId),
      s.getAsBuffer cfg oldFileId with
  | some tree, some content =>
    { s with
      tree := tree
      written := (s.written.delete oldFileId).set newFileId content }.joinRename oldFileId
        newFileId false metadata (some content) failed
  | _, _ => s.joinRename oldFileId newFileId false metadata none true

/-- The metadata of a file were moved by a rename, or not. -/
def renameMetadata (s : Storage) (oldFileId newFileId : FileId) (file : Bool)
    (moved : Option Bytes) (failed : Bool) (answer : Answer) : Storage :=
  match s.moved answer (cfg.metadataPath oldFileId) (cfg.metadataPath newFileId) with
  | some tree => { s with tree := tree }.joinRename oldFileId newFileId file false moved failed
  | none => s.joinRename oldFileId newFileId file false moved true

/-- The tree after `rename` removed its directory `temp`. -/
def withoutTemp (s : Storage) (oldFileId : FileId) (answer : Answer) :
    Option (FileTree (List Char) Bytes) :=
  let tempDir := cfg.tempDir (cfg.filePath oldFileId)
  if answer.ok && s.tree.present tempDir then some (s.tree.removeAll tempDir) else none

/-- `deleteMany` goes on with the next file in the older format, or with the directories. -/
def removeNext (s : Storage) (fileNames : List (List Char)) (ids : List ExecutionRef) : Storage :=
  match fileNames with
  | [] =>
    s.suspend (.removingDirs (ids.map fun ref =>
      cfg.resolvePath (executionDir ref.workflowId ref.executionId)))
  | fileName :: fileNames =>
    s.suspend (.removingLegacy fileName true true false fileNames ids)

/-- `deleteMany` goes on when neither of its two requests is under way and none has failed. -/
def joinRemoval (s : Storage) (fileName : List Char) (file metadata failed : Bool)
    (fileNames : List (List Char)) (ids : List ExecutionRef) : Storage :=
  if file || metadata then
    s.suspend (.removingLegacy fileName file metadata failed fileNames ids)
  else if failed then s
  else s.removeNext cfg fileNames ids

/-- The tree after a file was removed. -/
def removed (s : Storage) (answer : Answer) (path : Path) :
    Option (FileTree (List Char) Bytes) :=
  if answer.ok then s.tree.remove path else none

/-- A suspended call goes on with the answer to one of its requests. -/
def resume (s : Storage) : Call → Part → Answer → Option Storage
  | .readingMetadata target sourceFileId, _, answer =>
    match s.getMetadata cfg sourceFileId, answer.ok with
    | some sourceMetadata, true =>
      some (s.suspend (.accessing (.write target (.fileId sourceFileId sourceMetadata))))
    | _, _ => some s
  | .accessing job, _, answer =>
    if answer.ok && s.tree.present (cfg.filePath job.target).dropLast then
      some (s.suspend job.start)
    else some (s.suspend (.makingDir job))
  | .makingDir job, _, answer =>
    match s.tree.makeDir (cfg.filePath job.target).dropLast, answer.ok with
    | some tree, true => some ({ s with tree := tree }.suspend job.start)
    | _, _ => some s
  | .writing target source, _, answer => some (s.writeFile cfg target source answer)
  | .gettingSize target metadata, _, answer => some (s.getSize cfg target metadata answer)
  | .storingMetadata target metadata, _, answer => some (s.storeMetadata cfg target metadata answer)
  | .moving oldFileId newFileId true metadata _ failed, .file, answer =>
    some (s.renameFile cfg oldFileId newFileId metadata failed answer)
  | .moving oldFileId newFileId file true moved failed, .metadata, answer =>
    some (s.renameMetadata cfg oldFileId newFileId file moved failed answer)
  | .moving .., _, _ => none
  | .removingTemp oldFileId _ content, _, answer =>
    match s.withoutTemp cfg oldFileId answer with
    | some tree => some { s with tree := tree }
    | none => some (s.restore oldFileId (some content))
  | .readingDir ids, _, answer =>
    if answer.ok then
      let fileNames := s.tree.children cfg.storagePath
      some (s.removeNext cfg (fileNames.filter fun fileName =>
        ids.any fun ref => executionIdOf fileName == some ref.executionId.text) ids)
    else some s
  | .removingLegacy fileName true metadata failed fileNames ids, .file, answer =>
    match s.removed answer (cfg.resolvePath [fileName]) with
    | some tree =>
      some ({ s with tree := tree }.joinRemoval cfg fileName false metadata failed fileNames
        ids)
    | none => some (s.joinRemoval cfg fileName false metadata true fileNames ids)
  | .removingLegacy fileName file true failed fileNames ids, .metadata, answer =>
    match s.removed answer (cfg.resolvePath [fileName ++ ".metadata".toList]) with
    | some tree =>
      some ({ s with tree := tree }.joinRemoval cfg fileName file false failed fileNames ids)
    | none => some (s.joinRemoval cfg fileName file false true fileNames ids)
  | .removingLegacy .., _, _ => none
  | .removingDirs dirs, .dir path, answer =>
    if path ∈ dirs then
      let s := if answer.ok then { s with tree := s.tree.removeAll path } else s
      if dirs.erase path = [] then some s else some (s.suspend (.removingDirs (dirs.erase path)))
    else none
  | .removingDirs _, _, _ => none

/-- A UUID is generated that makes no id of a file or of a file to come. -/
def Unused (s : Storage) (target : FileId) : Prop :=
  s.written.get? target = none ∧ s.getAsBuffer cfg target = none ∧
    ∀ call ∈ s.calls, target ∉ call.ids

instance (s : Storage) (target : FileId) : Decidable (s.Unused cfg target) :=
  inferInstanceAs (Decidable (_ ∧ _ ∧ _))

/-- A call that writes a new file. -/
def create (s : Storage) (target : FileId) (call : Call) : Option Storage :=
  if s.Unused cfg target then some (s.suspend call) else none

/-- The state after an event. -/
def step (s : Storage) : StorageEvent → Option Storage
  | .store workflowId executionId uuid content metadata =>
    let target := toFileId workflowId executionId uuid
    s.create cfg target (.accessing (.write target (.buffer content metadata)))
  | .copyByFilePath workflowId executionId uuid metadata =>
    let target := toFileId workflowId executionId uuid
    s.create cfg target (.accessing (.write target (.filePath metadata)))
  | .copyByFileId workflowId executionId uuid sourceFileId =>
    let target := toFileId workflowId executionId uuid
    s.create cfg target (.readingMetadata target sourceFileId)
  | .rename oldFileId newFileId => some (s.suspend (.accessing (.rename oldFileId newFileId)))
  | .deleteMany ids =>
    if ids = [] then some s
    else some ({ s with deleted := s.deleted ++ ids }.suspend (.readingDir ids))
  | .goOn call part answer =>
    if call ∈ s.calls then { s with calls := s.calls.erase call }.resume cfg call part answer
    else none

end Storage

end N8n.BinaryData
