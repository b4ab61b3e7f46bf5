import N8n.Folders.FolderService
import N8n.Graph.ParentLinks

/-!
# The folders stay a forest

Folders are a forest when the parent links from every folder end at the root, and each folder is in
the project of its parent. Every request keeps this, when at its write the folder that it moves
something to is not the folder of the request or below it. The parent is in the project because the
request has found it there, and the project of an id does not change.
-/

namespace N8n.Folders

open Collections Sharing N8n.Graph Transition

variable {folders folders' : Table Folder.id} {used : List String} {s s' : State} {i : Nat}
  {request : Request}
  {phase : Phase} {id projectId : String}

/-- The folder with an id has a parent, or none. -/
def link (folders : Table Folder.id) (id : String) (parentFolder : Option String) : Prop :=
  ∃ folder ∈ folders.rows, folder.id = id ∧ folder.parentFolder = parentFolder

/-- The folders of the projects are a forest. -/
structure Forest (folders : Table Folder.id) : Prop where
  ends : ∀ folder ∈ folders.rows, EndsAtRoot (link folders) folder.id
  project : ∀ child ∈ folders.rows, ∀ parent ∈ folders.rows,
    child.parentFolder = some parent.id → parent.homeProject = child.homeProject

section Links

theorem exists_of_ends (h : EndsAtRoot (link folders) id) :
    ∃ folder ∈ folders.rows, folder.id = id := by
  cases h with
  | root h =>
    obtain ⟨folder, hmem, hid, -⟩ := h
    exact ⟨folder, hmem, hid⟩
  | parent h _ =>
    obtain ⟨folder, hmem, hid, -⟩ := h
    exact ⟨folder, hmem, hid⟩

theorem Forest.parent_exists (h : Forest folders) {folder : Folder}
    (hfolder : folder ∈ folders.rows)
    {p : String} (hparent : folder.parentFolder = some p) : EndsAtRoot (link folders) p := by
  cases h.ends folder hfolder with
  | root hlink =>
    obtain ⟨other, hother, hid, hnone⟩ := hlink
    obtain rfl := folders.row_unique hother hfolder hid
    rw [hnone] at hparent
    cases hparent
  | parent hlink hp =>
    obtain ⟨other, hother, hid, hsome⟩ := hlink
    obtain rfl := folders.row_unique hother hfolder hid
    rw [hsome] at hparent
    cases hparent
    exact hp

theorem mem_folderTree {folder : Folder} :
    folder ∈ folderTree folders id ↔
      folder ∈ folders.rows ∧ (∃ top ∈ folders.rows, top.id = id) ∧
        IsAbove (link folders) folder.id id := by
  rw [folderTree, mem_recursiveQuery]
  constructor
  · rintro ⟨first, hfirst, hid, hwalk⟩
    have hid : first.id = id := of_decide_eq_true hid
    induction hwalk with
    | refl => exact ⟨hfirst, ⟨first, hfirst, hid⟩, hid ▸ .refl⟩
    | @tail parent child _ hstep ih =>
      obtain ⟨-, htop, habove⟩ := ih
      exact ⟨hstep.1, htop, .head ⟨child, hstep.1, rfl, of_decide_eq_true hstep.2⟩ habove⟩
  · rintro ⟨hmem, ⟨top, htop, hid⟩, habove⟩
    refine ⟨top, htop, decide_eq_true hid, ?_⟩
    obtain ⟨start, hstart⟩ : ∃ start, folder.id = start := ⟨_, rfl⟩
    rw [hstart] at habove
    induction habove using Relation.ReflTransGen.head_induction_on generalizing folder with
    | refl =>
      obtain rfl := folders.row_unique hmem htop (hstart.trans hid.symm)
      exact .refl
    | @head start next hlink hrest ih =>
      obtain ⟨other, hother, hotherId, hparent⟩ := hlink
      obtain rfl := folders.row_unique hother hmem (hotherId.trans hstart.symm)
      -- the parent is there: it is the top, or has a parent itself
      obtain ⟨parent, hparentMem, hparentId⟩ : ∃ parent ∈ folders.rows, parent.id = next := by
        obtain rfl | ⟨q, ⟨row, hrow, hrowId, -⟩, -⟩ := hrest.cases_head
        · exact ⟨top, htop, hid⟩
        · exact ⟨row, hrow, hrowId⟩
      have hlinked : decide (other.parentFolder = some parent.id) = true :=
        decide_eq_true (hparent.trans (by rw [hparentId]))
      exact (ih hparentMem hparentId).tail ⟨hmem, hlinked⟩

end Links

theorem link_functional (folders : Table Folder.id) (id : String) (q q' : Option String)
    (h : link folders id q) (h' : link folders id q') : q = q' := by
  obtain ⟨folder, hfolder, rfl, rfl⟩ := h
  obtain ⟨other, hother, hid, rfl⟩ := h'
  rw [folders.row_unique hother hfolder hid]

section Writes

variable {which : Folder → Bool} {target : Option String} {folder : Folder}

theorem mem_of_setParent (h : setParent folders which target = .ok folders') :
    folder ∈ folders'.rows ↔ ∃ old ∈ folders.rows,
      (if which old then { old with parentFolder := target } else old) = folder := by
  unfold setParent at h
  split at h
  · cases h
  · cases h
    exact Table.mem_update

theorem target_exists_of_setParent (h : setParent folders which target = .ok folders')
    (hfolder : folder ∈ folders.rows) (hwhich : which folder = true) {t : String}
    (ht : t ∈ target) :
    ∃ parent ∈ folders.rows, parent.id = t := by
  unfold setParent at h
  split at h
  · cases h
  · rename_i hallowed
    have hany : folders.rows.any which = true := List.any_eq_true.mpr ⟨folder, hfolder, hwhich⟩
    cases ht
    rw [hany] at hallowed
    simpa [exists?] using hallowed

theorem Forest.setParent (h : Forest folders) (hset : setParent folders which target = .ok folders')
    (habove : ∀ t ∈ target, ∀ folder ∈ folders.rows, which folder = true →
      ¬ IsAbove (link folders) t folder.id)
    (hproject : ∀ t ∈ target, ∀ parent ∈ folders.rows, parent.id = t → ∀ folder ∈ folders.rows,
      which folder = true → parent.homeProject = folder.homeProject) : Forest folders' := by
  have hrows : ∀ folder, folder ∈ folders'.rows ↔ _ := fun folder => mem_of_setParent hset
  by_cases hsome : ∃ folder ∈ folders.rows, which folder = true
  · obtain ⟨some, hsomeMem, hsomeWhich⟩ := hsome
    refine ⟨fun folder hfolder => ?_, fun child hchild parent hparent hlink => ?_⟩
    · obtain ⟨old, hold, hnew⟩ := (hrows folder).mp hfolder
      have hid : old.id = folder.id := by
        rw [← hnew]
        split <;> rfl
      rw [← hid]
      refine (h.ends old hold).relink
        (fun i => ∃ row ∈ folders.rows, row.id = i ∧ which row = true) target ?_ ?_ ?_
      · rintro i q ⟨row, hrow, hrowId, hq⟩ hmoved
        have hwhich : ¬ which row = true := fun hwhich => hmoved ⟨row, hrow, hrowId, hwhich⟩
        exact ⟨row, (hrows row).mpr ⟨row, hrow, if_neg hwhich⟩, hrowId, hq⟩
      · rintro i q ⟨row, hrow, rfl, -⟩ ⟨other, hother, hotherId, hwhich⟩
        obtain rfl := folders.row_unique hother hrow hotherId
        exact ⟨_, (hrows _).mpr ⟨other, hother, if_pos hwhich⟩, rfl, rfl⟩
      · intro t ht
        obtain ⟨parent, hparent, rfl⟩ := target_exists_of_setParent hset hsomeMem hsomeWhich ht
        refine ⟨h.ends parent hparent, fun a ha hmoved => ?_⟩
        obtain ⟨row, hrow, rfl, hwhich⟩ := hmoved
        exact habove _ ht row hrow hwhich ha
    · obtain ⟨oldChild, holdChild, rfl⟩ := (hrows child).mp hchild
      obtain ⟨oldParent, holdParent, rfl⟩ := (hrows parent).mp hparent
      have hparentId : ∀ folder : Folder,
          (if which folder then { folder with parentFolder := target } else folder).id =
            folder.id := fun folder => by split <;> rfl
      have hparentProject : ∀ folder : Folder,
          (if which folder then { folder with parentFolder := target } else folder).homeProject =
            folder.homeProject := fun folder => by split <;> rfl
      rw [hparentId] at hlink
      rw [hparentProject, hparentProject]
      by_cases hwhich : which oldChild = true
      · rw [if_pos hwhich] at hlink
        exact hproject _ hlink oldParent holdParent rfl oldChild holdChild hwhich
      · rw [if_neg hwhich] at hlink
        exact h.project oldChild holdChild oldParent holdParent hlink
  · -- nothing is changed
    have hsame : ∀ folder, folder ∈ folders'.rows ↔ folder ∈ folders.rows := by
      intro folder
      rw [hrows]
      constructor
      · rintro ⟨old, hold, rfl⟩
        rw [if_neg fun hwhich => hsome ⟨old, hold, hwhich⟩]
        exact hold
      · exact fun hold => ⟨folder, hold, if_neg fun hwhich => hsome ⟨folder, hold, hwhich⟩⟩
    have hlink : link folders' = link folders := by
      funext id q
      simp only [link, hsame]
    refine ⟨fun folder hfolder => ?_, fun child hchild parent hparent => ?_⟩
    · rw [hlink]
      exact h.ends folder ((hsame folder).mp hfolder)
    · exact h.project child ((hsame child).mp hchild) parent ((hsame parent).mp hparent)

theorem moved_below_breaks {p : String}
    (hset : setParent folders (·.id = id) (some p) = .ok folders')
    {folder : Folder} (hfolder : folder ∈ folders.rows) (hid : folder.id = id)
    (hbelow : IsAbove (link folders) p id) : ¬ Forest folders' := by
  intro hforest
  have hrows : ∀ row, row ∈ folders'.rows ↔ _ := fun row => mem_of_setParent hset
  have hmoved : link folders' id (some p) := by
    refine ⟨_, (hrows _).mpr ⟨folder, hfolder, if_pos (decide_eq_true hid)⟩, hid, rfl⟩
  have hends : EndsAtRoot (link folders') id := by
    obtain ⟨row, hrow, rfl, -⟩ := hmoved
    exact hforest.ends row hrow
  -- the way up from the new parent is the same until it comes to the folder
  have hway : ∀ start, IsAbove (link folders) start id → IsAbove (link folders') start id := by
    intro start hbelow
    induction hbelow using Relation.ReflTransGen.head_induction_on with
    | refl => exact .refl
    | @head start next hlink _ ih =>
      by_cases hstart : start = id
      · rw [hstart]
        exact .refl
      · obtain ⟨row, hrow, rfl, hparent⟩ := hlink
        exact .head ⟨row, (hrows row).mpr ⟨row, hrow, if_neg (by simpa using hstart)⟩, rfl,
          hparent⟩ ih
  exact hends.not_above_parent (link_functional folders') hmoved (hway p hbelow)

theorem Forest.deleteCascade (h : Forest folders) (id : String) :
    Forest (deleteCascade folders id) := by
  have hrows : ∀ folder, folder ∈ (Folders.deleteCascade folders id).rows ↔
      folder ∈ folders.rows ∧ folder ∉ folderTree folders id := fun folder => by
    simp [Folders.deleteCascade]
  refine ⟨fun folder hfolder => ?_, fun child hchild parent hparent => ?_⟩
  · obtain ⟨hmem, hkept⟩ := (hrows folder).mp hfolder
    refine (h.ends folder hmem).restrict
      (fun i => ∃ row ∈ folders.rows, row.id = i ∧ row ∉ folderTree folders id) ?_ ?_
      ⟨folder, hmem, rfl, hkept⟩
    · rintro i q ⟨row, hrow, rfl, hq⟩ ⟨other, hother, hotherId, hout⟩
      obtain rfl := folders.row_unique hother hrow hotherId
      exact ⟨other, (hrows other).mpr ⟨hother, hout⟩, rfl, hq⟩
    · rintro i p ⟨row, hrow, rfl, hq⟩ ⟨other, hother, hotherId, hout⟩
      obtain rfl := folders.row_unique hother hrow hotherId
      obtain ⟨parent, hparent, rfl⟩ := exists_of_ends (h.parent_exists hrow hq)
      refine ⟨parent, hparent, rfl, fun hin => hout ?_⟩
      obtain ⟨-, htop, habove⟩ := mem_folderTree.mp hin
      exact mem_folderTree.mpr ⟨hrow, htop, .head ⟨other, hrow, rfl, hq⟩ habove⟩
  · exact h.project child ((hrows child).mp hchild).1 parent ((hrows parent).mp hparent).1

theorem Forest.saveFolder (h : Forest folders) (hsave : saveFolder folders folder = .ok folders')
    (hnew : ∀ row ∈ folders.rows, row.id ≠ folder.id)
    (hproject : ∀ p ∈ folder.parentFolder, ∀ parent ∈ folders.rows, parent.id = p →
      parent.homeProject = folder.homeProject) :
    folders'.rows = folders.rows ++ [folder] ∧ Forest folders' := by
  unfold Folders.saveFolder at hsave
  split at hsave
  · cases hsave
  · rename_i hexists
    have hfree : folder.id ∉ folders.rows.map Folder.id := by
      intro hmem
      obtain ⟨row, hrow, hid⟩ := List.mem_map.mp hmem
      exact hnew row hrow hid
    obtain ⟨inserted, hinsert, hrows⟩ := folders.insertRow_eq_ok hfree
    rw [hinsert] at hsave
    cases hsave
    have hmem : ∀ row, row ∈ folders'.rows ↔ row ∈ folders.rows ∨ row = folder := fun row => by
      rw [hrows, List.mem_append, List.mem_singleton]
    have hold : ∀ row ∈ folders.rows, EndsAtRoot (link folders') row.id := by
      intro row hrow
      refine (h.ends row hrow).of_above fun a _ q hlink => ?_
      obtain ⟨other, hother, hlinked⟩ := hlink
      exact ⟨other, (hmem other).mpr (.inl hother), hlinked⟩
    have hparent : ∀ p ∈ folder.parentFolder, ∃ parent ∈ folders.rows, parent.id = p := by
      intro p hp
      rw [Option.mem_def.mp hp] at hexists
      simpa [exists?] using hexists
    refine ⟨hrows, fun row hrow => ?_, fun child hchild parent hparentMem hlink => ?_⟩
    · obtain hrow | rfl := (hmem row).mp hrow
      · exact hold row hrow
      · cases hp : row.parentFolder with
        | none => exact .root ⟨row, hrow, rfl, hp⟩
        | some p =>
          obtain ⟨parent, hparentMem, rfl⟩ := hparent p hp
          exact .parent ⟨row, hrow, rfl, hp⟩ (hold parent hparentMem)
    · obtain hparentOld | rfl := (hmem parent).mp hparentMem
      · obtain hchildOld | rfl := (hmem child).mp hchild
        · exact h.project child hchildOld parent hparentOld hlink
        · exact hproject _ hlink parent hparentOld rfl
      · -- nothing has the new folder as its parent
        exfalso
        obtain hchildOld | rfl := (hmem child).mp hchild
        · obtain ⟨row, hrow, hid⟩ := exists_of_ends (h.parent_exists hchildOld hlink)
          exact hnew row hrow hid
        · obtain ⟨row, hrow, hid⟩ := hparent _ hlink
          exact hnew row hrow hid

theorem Forest.transferAndDelete (h : Forest folders) {folderId transferToFolderId : String}
    (htransfer : transferAndDelete folders folderId transferToFolderId = .ok folders')
    (habove : ∀ t ∈ parentOf transferToFolderId, ∀ folder ∈ folders.rows, folder.id = folderId →
      ¬ IsAbove (link folders) t folderId)
    (hproject : ∀ t ∈ parentOf transferToFolderId, ∀ parent ∈ folders.rows, parent.id = t →
      ∀ folder ∈ folders.rows, folder.id = folderId → parent.homeProject = folder.homeProject) :
    Forest folders' := by
  obtain ⟨moved, hmoved, hdeleted⟩ := bind_eq_ok.mp htransfer
  cases hdeleted
  refine Forest.deleteCascade (h.setParent hmoved (fun t ht child hchild hwhich ha => ?_)
    fun t ht parent hparent hid child hchild hwhich => ?_) folderId
  · -- above a child is its parent
    have hchildParent : child.parentFolder = some folderId := of_decide_eq_true hwhich
    obtain ⟨folder, hfolder, hid⟩ := exists_of_ends (h.parent_exists hchild hchildParent)
    exact habove t ht folder hfolder hid (ha.tail ⟨child, hchild, rfl, hchildParent⟩)
  · have hchildParent : child.parentFolder = some folderId := of_decide_eq_true hwhich
    obtain ⟨folder, hfolder, rfl⟩ := exists_of_ends (h.parent_exists hchild hchildParent)
    rw [hproject t ht parent hparent hid folder hfolder rfl]
    exact h.project child hchild folder hfolder hchildParent

end Writes

section Requests

/-- The folder that a request moves or deletes. -/
def Request.ownFolder : Request → Option String
  | .createFolder _ _ => none
  | .updateFolder folderId _ _ | .deleteFolder folderId _ _ => some folderId

/-- The folder that a request moves something to, other than the root. -/
def Request.newParent : Request → Option String
  | .createFolder parentFolderId _ => parentFolderId
  | .updateFolder _ _ parentFolderId => parentFolderId.bind parentOf
  | .deleteFolder _ _ transferToFolderId => transferToFolderId.bind parentOf

/-- The request has found its folder. -/
def Phase.hasFolder : Phase → Prop
  | .findTarget | .findTreeFolder | .readTree | .write => True
  | .findFolder | .done _ => False

/-- The request has found the folder that it moves something to. -/
def Phase.hasTarget : Phase → Prop
  | .findTreeFolder | .readTree | .write => True
  | .findFolder | .findTarget | .done _ => False

/-- The id belongs to the project, if a folder has it. -/
structure Known (folders : Table Folder.id) (used : List String) (projectId id : String) :
    Prop where
  used : id ∈ used
  project : ∀ folder ∈ folders.rows, folder.id = id → folder.homeProject = projectId

/-- The folders that a request has found belong to its project. -/
structure Found (folders : Table Folder.id) (used : List String) (request : Request)
    (phase : Phase) : Prop where
  folder : phase.hasFolder → ∀ id ∈ request.ownFolder, Known folders used request.projectId id
  target : phase.hasTarget → ∀ id ∈ request.newParent, Known folders used request.projectId id

/-- The folders are a forest, and the requests have found folders of their projects. -/
structure Inv (s : State) : Prop where
  forest : Forest s.folders
  used : ∀ folder ∈ s.folders.rows, folder.id ∈ s.used
  found : ∀ i pending, s.requests i = some pending →
    Found s.folders s.used pending.request pending.phase

/-- At its write, the folder that a request moves something to is not its own folder or below it. -/
def NotBelow (folders : Table Folder.id) (request : Request) : Prop :=
  ∀ id ∈ request.ownFolder, ∀ t ∈ request.newParent, ∀ folder ∈ folderTree folders id,
    folder.id ≠ t

/-- Requests write only while they do not move something to their own folder or below it. -/
def allowed (s : State) : Event → Prop
  | .write i _ => ∀ pending ∈ s.requests i, NotBelow s.folders pending.request
  | .request _ _ | .read _ | .fail _ => True

variable {folder : Folder}

theorem known_of_find (hused : ∀ folder ∈ folders.rows, folder.id ∈ used)
    (hfind : findFolderInProjectOrFail folders id projectId = .ok folder) :
    Known folders used projectId id := by
  unfold findFolderInProjectOrFail at hfind
  split at hfind
  · rename_i row hrow
    have hmem := List.mem_of_find?_eq_some hrow
    have hcond := List.find?_some hrow
    rw [Bool.and_eq_true, decide_eq_true_iff, decide_eq_true_iff] at hcond
    obtain ⟨rfl, rfl⟩ := hcond
    refine ⟨hused row hmem, fun other hother hid => ?_⟩
    rw [folders.row_unique hother hmem hid]
  · cases hfind

variable {t : String}

theorem parentOf_eq_some {parentFolderId : String} (h : parentOf parentFolderId = some t) :
    parentFolderId = t := by
  unfold parentOf at h
  split at h
  · cases h
  · exact Option.some.inj h

theorem targetId_of_newParent (h : t ∈ request.newParent) : request.targetId = t := by
  cases request with
  | createFolder parentFolderId projectId =>
    cases h
    rfl
  | updateFolder folderId projectId parentFolderId =>
    obtain ⟨p, rfl, hp⟩ := Option.bind_eq_some_iff.mp h
    exact parentOf_eq_some hp
  | deleteFolder folderId projectId transferToFolderId =>
    obtain ⟨p, rfl, hp⟩ := Option.bind_eq_some_iff.mp h
    exact parentOf_eq_some hp

theorem folderId_of_ownFolder (h : id ∈ request.ownFolder) : request.folderId = id := by
  cases request <;> cases h <;> rfl

theorem newParent_of_afterFolder (h : request.afterFolder.hasTarget) :
    request.newParent = none := by
  cases request with
  | createFolder parentFolderId projectId => exact h.elim
  | updateFolder folderId projectId parentFolderId =>
    cases parentFolderId with
    | none => rfl
    | some p =>
      by_cases hsame : folderId = p
      · simp [Request.afterFolder, hsame, Phase.hasTarget] at h
      · by_cases hroot : p = projectRoot
        · exact if_pos hroot
        · simp [Request.afterFolder, hsame, hroot, Phase.hasTarget] at h
  | deleteFolder folderId projectId transferToFolderId =>
    cases transferToFolderId with
    | none => rfl
    | some p =>
      by_cases hsame : folderId = p
      · simp [Request.afterFolder, hsame, Phase.hasTarget] at h
      · by_cases hroot : p = projectRoot
        · exact if_pos hroot
        · simp [Request.afterFolder, hsame, hroot, Phase.hasTarget] at h

theorem Found.done (error : Option FolderError) : Found folders used request (.done error) :=
  ⟨fun hphase => hphase.elim, fun hphase => hphase.elim⟩

theorem found_at_start (request : Request) : Found folders used request request.start := by
  cases request with
  | createFolder parentFolderId projectId =>
    refine ⟨fun _ _ hid => (nomatch hid), fun hphase => ?_⟩
    cases parentFolderId with
    | none => exact fun _ hid => nomatch hid
    | some p => exact hphase.elim
  | updateFolder folderId projectId parentFolderId =>
    exact ⟨fun hphase => hphase.elim, fun hphase => hphase.elim⟩
  | deleteFolder folderId projectId transferToFolderId =>
    exact ⟨fun hphase => hphase.elim, fun hphase => hphase.elim⟩

theorem found_after_find (hused : ∀ folder ∈ folders.rows, folder.id ∈ used) {next : Phase}
    (hnext : Known folders used projectId id → Found folders used request next) :
    Found folders used request (next.found (findFolderInProjectOrFail folders id projectId)) := by
  cases hfind : findFolderInProjectOrFail folders id projectId with
  | error error => exact .done (some error)
  | ok folder => exact hnext (known_of_find hused hfind)

theorem Found.read (hused : ∀ folder ∈ folders.rows, folder.id ∈ used) {phase' : Phase}
    (h : Found folders used request phase) (hread : request.read folders phase = some phase') :
    Found folders used request phase' := by
  cases phase with
  | findFolder =>
    cases hread
    refine found_after_find hused fun hknown => ⟨fun _ id hid => ?_, fun hphase id hid => ?_⟩
    · rw [← folderId_of_ownFolder hid]
      exact hknown
    · rw [newParent_of_afterFolder hphase] at hid
      cases hid
  | findTarget =>
    cases hread
    refine found_after_find hused fun hknown => ⟨fun _ => h.folder trivial, fun _ id hid => ?_⟩
    rw [← targetId_of_newParent hid]
    exact hknown
  | findTreeFolder =>
    cases hread
    exact found_after_find hused fun _ => ⟨fun _ => h.folder trivial, fun _ => h.target trivial⟩
  | readTree =>
    unfold Request.read at hread
    dsimp only at hread
    split at hread
    · cases hread
      exact .done _
    · cases hread
      exact ⟨fun _ => h.folder trivial, fun _ => h.target trivial⟩
  | write => cases hread
  | done error => cases hread

/-- What a request has found stays so when others write: folders are new, or have been there with
their project. -/
theorem Found.mono (h : Found folders used request phase)
    (hrows : ∀ folder ∈ folders'.rows, folder.id = id ∨
      ∃ old ∈ folders.rows, old.id = folder.id ∧ old.homeProject = folder.homeProject)
    (hnew : id ∉ used) : Found folders' (id :: used) request phase := by
  have hknown : ∀ other, Known folders used request.projectId other →
      Known folders' (id :: used) request.projectId other := by
    intro other hother
    refine ⟨List.mem_cons_of_mem id hother.used, fun folder hfolder hid => ?_⟩
    obtain rfl | ⟨old, hold, holdId, hproject⟩ := hrows folder hfolder
    · exact absurd (hid ▸ hother.used) hnew
    · rw [← hproject]
      exact hother.project old hold (holdId.trans hid)
  exact ⟨fun hphase other hother => hknown other (h.folder hphase other hother),
    fun hphase other hother => hknown other (h.target hphase other hother)⟩

theorem NotBelow.not_above (h : NotBelow folders request) (hid : id ∈ request.ownFolder)
    (ht : t ∈ request.newParent) (hfolder : folder ∈ folders.rows) (hfolderId : folder.id = id) :
    ¬ IsAbove (link folders) t id := by
  intro habove
  obtain ⟨row, hrow, hrowId⟩ : ∃ row ∈ folders.rows, row.id = t := by
    obtain rfl | ⟨q, ⟨row, hrow, hrowId, -⟩, -⟩ := habove.cases_head
    · exact ⟨folder, hfolder, hfolderId⟩
    · exact ⟨row, hrow, hrowId⟩
  refine h id hid t ht row (mem_folderTree.mpr ⟨hrow, ⟨folder, hfolder, hfolderId⟩, ?_⟩) hrowId
  rw [hrowId]
  exact habove

/-- Folders after a write are new, or have been there with their project. -/
def KeepsProjects (folders folders' : Table Folder.id) (id : String) : Prop :=
  ∀ folder ∈ folders'.rows, folder.id = id ∨
    ∃ old ∈ folders.rows, old.id = folder.id ∧ old.homeProject = folder.homeProject

theorem keepsProjects_setParent {which : Folder → Bool} {target : Option String}
    (hset : setParent folders which target = .ok folders') : KeepsProjects folders folders' id := by
  intro folder hfolder
  obtain ⟨old, hold, rfl⟩ := (mem_of_setParent hset).mp hfolder
  refine .inr ⟨old, hold, ?_⟩
  split <;> exact ⟨rfl, rfl⟩

theorem mem_of_deleteCascade {folderId : String}
    (h : folder ∈ (deleteCascade folders folderId).rows) : folder ∈ folders.rows :=
  (Table.mem_delete.mp h).1

theorem Forest.write (h : Forest folders) (hused : ∀ folder ∈ folders.rows, folder.id ∈ used)
    (hfound : Found folders used request .write) (hbelow : NotBelow folders request)
    (hid : id ∉ used) (hwrite : request.write folders id = .ok folders') :
    Forest folders' ∧ KeepsProjects folders folders' id := by
  have hproject : ∀ own ∈ request.ownFolder, ∀ t ∈ request.newParent, ∀ parent ∈ folders.rows,
      parent.id = t → ∀ folder ∈ folders.rows, folder.id = own →
        parent.homeProject = folder.homeProject := by
    intro own hown t ht parent hparent hparentId folder hfolder hfolderId
    rw [(hfound.target trivial t ht).project parent hparent hparentId]
    exact ((hfound.folder trivial own hown).project folder hfolder hfolderId).symm
  cases request with
  | createFolder parentFolderId projectId =>
    have hnew : ∀ row ∈ folders.rows, row.id ≠ id := fun row hrow heq =>
      hid (heq ▸ hused row hrow)
    obtain ⟨hrows, hforest⟩ := h.saveFolder hwrite hnew fun p hp parent hparent hparentId =>
      (hfound.target trivial p hp).project parent hparent hparentId
    refine ⟨hforest, fun folder hfolder => ?_⟩
    rw [hrows, List.mem_append, List.mem_singleton] at hfolder
    obtain hfolder | rfl := hfolder
    · exact .inr ⟨folder, hfolder, rfl, rfl⟩
    · exact .inl rfl
  | updateFolder folderId projectId parentFolderId =>
    cases parentFolderId with
    | none =>
      cases hwrite
      exact ⟨h, fun folder hfolder => .inr ⟨folder, hfolder, rfl, rfl⟩⟩
    | some p =>
      refine ⟨h.setParent hwrite (fun t ht folder hfolder hwhich => ?_)
        fun t ht parent hparent hparentId folder hfolder hwhich => ?_,
        keepsProjects_setParent hwrite⟩
      · obtain rfl : folder.id = folderId := of_decide_eq_true hwhich
        exact hbelow.not_above rfl ht hfolder rfl
      · exact hproject folderId rfl t ht parent hparent hparentId folder hfolder
          (of_decide_eq_true hwhich)
  | deleteFolder folderId projectId transferToFolderId =>
    cases transferToFolderId with
    | none =>
      cases hwrite
      exact ⟨h.deleteCascade folderId, fun folder hfolder =>
        .inr ⟨folder, mem_of_deleteCascade hfolder, rfl, rfl⟩⟩
    | some p =>
      refine ⟨h.transferAndDelete hwrite (fun t ht folder hfolder hfolderId =>
        hbelow.not_above rfl ht hfolder hfolderId) fun t ht parent hparent hparentId =>
        hproject folderId rfl t ht parent hparent hparentId, fun folder hfolder => ?_⟩
      obtain ⟨moved, hmoved, hdeleted⟩ := bind_eq_ok.mp hwrite
      cases hdeleted
      exact keepsProjects_setParent hmoved folder (mem_of_deleteCascade hfolder)

end Requests

section Runs

theorem Inv.goTo (h : Inv s) (hnew : Found s.folders s.used request phase) :
    Inv (s.goTo i request phase) := by
  refine ⟨h.forest, h.used, fun j pending hpending => ?_⟩
  by_cases hji : j = i
  · obtain rfl : { request, phase } = pending := by simpa [State.goTo, hji] using hpending
    exact hnew
  · exact h.found j pending (by simpa [State.goTo, hji] using hpending)

theorem Inv.write (h : Inv s) (hfound : Found s.folders s.used request .write)
    (hbelow : NotBelow s.folders request) (hwrite : s.write i request id = some s') : Inv s' := by
  unfold State.write at hwrite
  split at hwrite
  · cases hwrite
  · rename_i hid
    cases hresult : request.write s.folders id with
    | error error =>
      simp only [hresult, Option.some.injEq] at hwrite
      rw [← hwrite]
      exact h.goTo (.done (some error))
    | ok folders =>
      simp only [hresult, Option.some.injEq] at hwrite
      rw [← hwrite]
      obtain ⟨hforest, hprojects⟩ := h.forest.write h.used hfound hbelow hid hresult
      refine ⟨hforest, fun folder hfolder => ?_, fun j pending hpending => ?_⟩
      · obtain heq | ⟨old, hold, holdId, -⟩ := hprojects folder hfolder
        · rw [heq]
          exact List.mem_cons_self
        · rw [← holdId]
          exact List.mem_cons_of_mem id (h.used old hold)
      · exact ((h.goTo (.done none)).found j pending hpending).mono hprojects hid

theorem Inv.step (h : Inv s) {e : Event} (hallowed : allowed s e) (hstep : step s e = some s') :
    Inv s' := by
  cases e with
  | request i request =>
    cases hnone : s.requests i with
    | some pending => simp [Folders.step, hnone] at hstep
    | none =>
      simp only [Folders.step, hnone, Option.some.injEq] at hstep
      rw [← hstep]
      exact h.goTo (found_at_start request)
  | read i =>
    obtain ⟨pending, hpending, hstep⟩ := Option.bind_eq_some_iff.mp hstep
    obtain ⟨phase, hphase, hstep⟩ := Option.bind_eq_some_iff.mp hstep
    cases hstep
    exact h.goTo ((h.found i pending hpending).read h.used hphase)
  | write i id =>
    obtain ⟨pending, hpending, hstep⟩ := Option.bind_eq_some_iff.mp hstep
    split at hstep
    · rename_i hphase
      have hfound := h.found i pending hpending
      rw [hphase] at hfound
      exact h.write hfound (hallowed pending hpending) hstep
    · cases hstep
  | fail i =>
    obtain ⟨pending, hpending, hstep⟩ := Option.bind_eq_some_iff.mp hstep
    have hdone : Inv (s.goTo i pending.request (.done (some .databaseError))) :=
      h.goTo (.done (some .databaseError))
    cases hphase : pending.phase with
    | done error => simp [hphase] at hstep
    | _ =>
      simp only [hphase, Option.some.injEq] at hstep
      exact hstep ▸ hdone

/-- In every run whose requests do not move something to their own folder or below it at their
write, the folders stay a forest. -/
theorem folders_stay_forest (hforest : Forest folders)
    (h : Reachable step allowed (started folders) s) : Forest s.folders := by
  have hstarted : Inv (started folders) :=
    ⟨hforest, fun folder hfolder => List.mem_map_of_mem hfolder, fun _ _ hnone => nomatch hnone⟩
  exact (h.keeps Inv hstarted fun _ _ _ hinv => hinv.step).forest

instance (folders : Table Folder.id) (request : Request) : Decidable (NotBelow folders request) :=
  inferInstanceAs (Decidable (∀ id ∈ request.ownFolder, ∀ t ∈ request.newParent, ∀ folder ∈ _, _))

instance (s : State) (e : Event) : Decidable (allowed s e) :=
  match e with
  | .write i _ =>
    inferInstanceAs (Decidable (∀ pending ∈ s.requests i, NotBelow s.folders pending.request))
  | .request _ _ | .read _ | .fail _ => isTrue trivial

/-- Two folders in the root of a project. -/
def twoFolders : Table Folder.id where
  rows := [{ id := "a", homeProject := "p", parentFolder := none },
    { id := "b", homeProject := "p", parentFolder := none }]
  unique := by decide +kernel

theorem twoFolders_forest : Forest twoFolders := by
  refine ⟨fun folder hfolder => ?_, fun child hchild parent _ hlink => ?_⟩
  · have hroot : ∀ folder ∈ twoFolders.rows, folder.parentFolder = none := by decide +kernel
    exact .root ⟨folder, hfolder, rfl, hroot folder hfolder⟩
  · have hroot : ∀ folder ∈ twoFolders.rows, folder.parentFolder = none := by decide +kernel
    rw [hroot child hchild] at hlink
    cases hlink

/-- One of two folders is moved into the other, which is then deleted with a transfer to the
root. -/
theorem move_and_delete_stay_forest :
    ∃ s, Reachable step allowed (started twoFolders) s ∧
      s.folders.rows = [{ id := "a", homeProject := "p", parentFolder := none }] ∧
      Forest s.folders := by
  have hrun : (runAllowed step allowed (started twoFolders)
      [.request 0 (.updateFolder "a" "p" (some "b")), .read 0, .read 0, .read 0, .read 0,
        .write 0 "c", .request 1 (.deleteFolder "b" "p" (some projectRoot)), .read 1,
        .write 1 "d"]).map (·.folders.rows) =
          some [{ id := "a", homeProject := "p", parentFolder := none }] := by
    decide +kernel
  obtain ⟨s, hs, hrows⟩ := Option.map_eq_some_iff.mp hrun
  have hreachable := reachable_of_runAllowed .start hs
  exact ⟨s, hreachable, hrows, folders_stay_forest twoFolders_forest hreachable⟩

/-- Two folders that are moved into each other at the same time become a cycle. -/
theorem crossing_moves_break :
    ¬ ∀ (folders : Table Folder.id) (s : State), Forest folders →
      Reachable step (fun _ _ => True) (started folders) s → Forest s.folders := by
  intro hall
  have hrun : (run step (started twoFolders)
      [.request 0 (.updateFolder "a" "p" (some "b")), .request 1 (.updateFolder "b" "p" (some "a")),
        .read 0, .read 0, .read 0, .read 0, .read 1, .read 1, .read 1, .read 1,
        .write 0 "c", .write 1 "d"]).map (·.folders.rows) =
          some [{ id := "a", homeProject := "p", parentFolder := some "b" },
            { id := "b", homeProject := "p", parentFolder := some "a" }] := by
    decide +kernel
  obtain ⟨s, hs, hrows⟩ := Option.map_eq_some_iff.mp hrun
  have hforest := hall twoFolders s twoFolders_forest (reachable_of_run hs)
  have hlink : ∀ folder ∈ s.folders.rows, link s.folders folder.id folder.parentFolder :=
    fun folder hfolder => ⟨folder, hfolder, rfl, rfl⟩
  rw [hrows] at hlink
  have ha := hlink _ List.mem_cons_self
  have hb := hlink _ (List.mem_cons_of_mem _ List.mem_cons_self)
  obtain ⟨row, hrow, hid, -⟩ := id ha
  have hends := hforest.ends row hrow
  rw [hid] at hends
  exact hends.not_above_parent (link_functional s.folders) ha (.single hb)

end Runs

end N8n.Folders
