import N8n.Sharing.TransferFolder
import N8n.Transition.Runs

/-!
# Requests on folders

The requests create, move and delete folders of a project. Each reads the database, and takes its
next step some time after the read is there, so that other requests can write in between. A deletion
with a transfer moves the children of the folder first. See `createFolder`, `updateFolder` and
`deleteFolder` of `packages/cli/src/services/folder.service.ts`; names and tags are left out. The
database refuses a parent that does not exist, and deletes the folders below a deleted one.
-/

namespace N8n.Folders

open Collections Sharing

/-- The requests. A `parentFolderId` or `transferToFolderId` can be left out. -/
inductive Request where
  | createFolder (parentFolderId : Option String) (projectId : String)
  | updateFolder (folderId projectId : String) (parentFolderId : Option String)
  | deleteFolder (folderId projectId : String) (transferToFolderId : Option String)
  deriving DecidableEq

/-- What a request throws. -/
inductive FolderError where
  | folderNotFoundError (folderId : String)
  | userError (message : String)
  | databaseError
  deriving DecidableEq

/-- What a request does next: look for its folder, for the folder that it moves something to, for
that folder again before it reads the folders above it, read these, and write. -/
inductive Phase where
  | findFolder
  | findTarget
  | findTreeFolder
  | readTree
  | write
  | done (error : Option FolderError)
  deriving DecidableEq

structure PendingRequest where
  request : Request
  phase : Phase
  deriving DecidableEq

/-- The folders and the requests. `used` records all ids that folders have had. -/
structure State where
  folders : Table Folder.id
  used : List String
  requests : Nat → Option PendingRequest

/-- No request has been made. -/
def started (folders : Table Folder.id) : State :=
  { folders, used := folders.rows.map Folder.id, requests := fun _ => none }

section Queries

variable (folders : Table Folder.id)

/-- `findFolderInProjectOrFail(folderId, projectId)`. -/
def findFolderInProjectOrFail (folderId projectId : String) : Except FolderError Folder :=
  match folders.rows.find? fun folder => folder.id = folderId && folder.homeProject = projectId with
  | some folder => .ok folder
  | none => .error (.folderNotFoundError folderId)

/-- The rows of a folder and the folders above it. -/
def folderPath (folderId : String) : List Folder :=
  recursiveQuery folders.rows (·.id = folderId) fun child parent =>
    child.parentFolder = some parent.id

/-- The children of a node, from the top. `parentNode.children` has the last child only. -/
def childChain (flatPath : List Folder) : Nat → String → List String
  | 0, _ => []
  | n + 1, id =>
    match (flatPath.filter (·.parentFolder = some id)).getLast? with
    | some child => child.id :: childChain flatPath n child.id
    | none => []

/-- `transformFolderPathToTree(flatPath)`. No node has more than one child, and the tree is the list
of its nodes from the root. The root is the last row whose parent is not among the rows. -/
def transformFolderPathToTree (flatPath : List Folder) : List String :=
  let hasParent (folder : Folder) : Bool :=
    flatPath.any fun parent => folder.parentFolder = some parent.id
  match (flatPath.filter (!hasParent ·)).getLast? with
  | some root => root.id :: childChain flatPath flatPath.length root.id
  | none => []

/-- `isDescendant(folderId, tree)`. -/
def isDescendant (folderId : String) (tree : List String) : Bool := tree.contains folderId

/-- The folders below a folder, and the folder. -/
def folderTree (folderId : String) : List Folder :=
  recursiveQuery folders.rows (·.id = folderId) fun parent child =>
    child.parentFolder = some parent.id

end Queries

section Writes

/-- Is there a folder with the id? -/
def exists? (folders : Table Folder.id) (id : String) : Bool := folders.rows.any (·.id = id)

/-- The parent that an id stands for. -/
def parentOf (parentFolderId : String) : Option String :=
  if parentFolderId = projectRoot then none else some parentFolderId

/-- Give folders a parent. The database refuses one that does not exist. -/
def setParent (folders : Table Folder.id) (which : Folder → Bool) (parentFolder : Option String) :
    Except FolderError (Table Folder.id) :=
  if (folders.rows.any which) && !parentFolder.all (exists? folders) then .error .databaseError
  else .ok (folders.update which (fun folder => { folder with parentFolder }) fun _ => rfl)

/-- Delete a folder, and with it the folders below it. -/
def deleteCascade (folders : Table Folder.id) (folderId : String) : Table Folder.id :=
  folders.delete fun folder => folder ∈ folderTree folders folderId

/-- The folder that `createFolder` saves. The database refuses a parent that does not exist. -/
def saveFolder (folders : Table Folder.id) (folder : Folder) :
    Except FolderError (Table Folder.id) :=
  if !folder.parentFolder.all (exists? folders) then .error .databaseError
  else
    match folders.insertRow folder with
    | .ok inserted => .ok inserted
    | .error _ => .error .databaseError

/-- The transaction of `deleteFolder`. -/
def transferAndDelete (folders : Table Folder.id) (folderId transferToFolderId : String) :
    Except FolderError (Table Folder.id) := do
  let moved ← setParent folders (·.parentFolder = some folderId) (parentOf transferToFolderId)
  pure (deleteCascade moved folderId)

/-- What a request writes. A created folder gets the id. -/
def Request.write (folders : Table Folder.id) (id : String) :
    Request → Except FolderError (Table Folder.id)
  | .createFolder parentFolderId projectId =>
    saveFolder folders { id, homeProject := projectId, parentFolder := parentFolderId }
  | .updateFolder folderId _ parentFolderId =>
    match parentFolderId with
    | some parentFolderId => setParent folders (·.id = folderId) (parentOf parentFolderId)
    | none => .ok folders
  | .deleteFolder folderId _ transferToFolderId =>
    match transferToFolderId with
    | some transferToFolderId => transferAndDelete folders folderId transferToFolderId
    | none => .ok (deleteCascade folders folderId)

end Writes

/-- What a request does first. -/
def Request.start : Request → Phase
  | .createFolder none _ => .write
  | .createFolder (some _) _ => .findTarget
  | .updateFolder _ _ _ | .deleteFolder _ _ _ => .findFolder

/-- The folder of a request, and the folder that it moves something to. -/
def Request.folderId : Request → String
  | .createFolder _ _ => ""
  | .updateFolder folderId _ _ | .deleteFolder folderId _ _ => folderId

def Request.targetId : Request → String
  | .createFolder target _ | .updateFolder _ _ target | .deleteFolder _ _ target =>
    target.getD projectRoot

def Request.projectId : Request → String
  | .createFolder _ projectId | .updateFolder _ projectId _ | .deleteFolder _ projectId _ =>
    projectId

/-- What a request does after it has found its folder. -/
def Request.afterFolder : Request → Phase
  | .createFolder _ _ => .findTarget
  | .updateFolder _ _ none => .done none
  | .updateFolder folderId _ (some parentFolderId) =>
    if folderId = parentFolderId then
      .done (some (.userError "Cannot set a folder as its own parent"))
    else if parentFolderId ≠ projectRoot then .findTarget
    else .write
  | .deleteFolder _ _ none => .write
  | .deleteFolder folderId _ (some transferToFolderId) =>
    if folderId = transferToFolderId then
      .done (some (.userError "Cannot transfer folder contents to the folder being deleted"))
    else if transferToFolderId ≠ projectRoot then .findTarget
    else .write

/-- What a request does after it has found the folder that it moves something to. -/
def Request.afterTarget : Request → Phase
  | .createFolder _ _ | .deleteFolder _ _ _ => .write
  | .updateFolder _ _ _ => .findTreeFolder

/-- What a request does after a folder has been looked for. -/
def Phase.found (next : Phase) : Except FolderError Folder → Phase
  | .ok _ => next
  | .error error => .done (some error)

/-- The phase after a read. -/
def Request.read (folders : Table Folder.id) (request : Request) : Phase → Option Phase
  | .findFolder =>
    some (request.afterFolder.found
      (findFolderInProjectOrFail folders request.folderId request.projectId))
  | .findTarget =>
    some (request.afterTarget.found
      (findFolderInProjectOrFail folders request.targetId request.projectId))
  | .findTreeFolder =>
    some (Phase.readTree.found
      (findFolderInProjectOrFail folders request.targetId request.projectId))
  | .readTree =>
    let parentFolderPath := transformFolderPathToTree (folderPath folders request.targetId)
    if isDescendant request.folderId parentFolderPath then
      some (.done (some (.userError ("Cannot set a folder's parent to a folder that is a " ++
        "descendant of the current folder"))))
    else some .write
  | .write | .done _ => none

/-- Requests are made, read and write; the id is that of a created folder. Something that a request
awaits can fail. -/
inductive Event where
  | request (i : Nat) (request : Request)
  | read (i : Nat)
  | write (i : Nat) (id : String)
  | fail (i : Nat)

namespace State

/-- A request goes on to another phase. -/
def goTo (s : State) (i : Nat) (request : Request) (phase : Phase) : State :=
  { s with requests := fun j => if j = i then some { request, phase } else s.requests j }

/-- A request writes. The ids of folders are new. -/
def write (s : State) (i : Nat) (request : Request) (id : String) : Option State :=
  if id ∈ s.used then none
  else
    match request.write s.folders id with
    | .ok folders =>
      some { s.goTo i request (.done none) with folders, used := id :: s.used }
    | .error error => some (s.goTo i request (.done (some error)))

end State

/-- The state after an event. -/
def step (s : State) : Event → Option State
  | .request i request =>
    match s.requests i with
    | none => some (s.goTo i request request.start)
    | some _ => none
  | .read i => do
    let pending ← s.requests i
    let phase ← pending.request.read s.folders pending.phase
    pure (s.goTo i pending.request phase)
  | .write i id => do
    let pending ← s.requests i
    if pending.phase = .write then s.write i pending.request id else none
  | .fail i => do
    let pending ← s.requests i
    match pending.phase with
    | .done _ => none
    | _ => some (s.goTo i pending.request (.done (some .databaseError)))

end N8n.Folders
