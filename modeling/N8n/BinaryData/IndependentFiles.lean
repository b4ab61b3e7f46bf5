import N8n.BinaryData.FileSystemManager

/-!
# Files that do not disturb each other

Every file id has a path of its own, apart from the paths of metadata and, unless its execution is
deleted, outside every directory that `deleteMany` removes. Only the directory `temp` that `rename`
removes may hold files of other ids. `reads_back` says that files keep their contents while it does
not.
-/

namespace N8n.BinaryData

open Collections Transition

namespace StorageConfig

variable (cfg : StorageConfig) {id id' : FileId}

theorem path_eq_iff (dir dir' : Path) (name name' : List Char) :
    cfg.resolvePath (dir ++ [name]) = cfg.resolvePath (dir' ++ [name']) ↔
      dir = dir' ∧ name = name' := by
  rw [resolvePath, resolvePath, List.append_cancel_left_eq]
  constructor
  · intro h
    obtain ⟨hdir, hname⟩ := List.append_inj' h rfl
    exact ⟨hdir, by simpa using hname⟩
  · rintro ⟨rfl, rfl⟩
    rfl

theorem file_path_inj : cfg.filePath id = cfg.filePath id' ↔ id = id' := by
  constructor
  · intro h
    obtain ⟨hdir, hname⟩ := (cfg.path_eq_iff _ _ _ _).mp h
    cases id with
    | nested workflowId executionId uuid =>
      cases id' with
      | nested workflowId' executionId' uuid' =>
        obtain ⟨hworkflow, hexecution⟩ : workflowId.text = workflowId'.text ∧
            executionId.text = executionId'.text := by
          simpa [FileId.directory, executionDir] using hdir
        have huuid : uuid = uuid' := BaseName.ext hname
        rw [Segment.ext hworkflow, Segment.ext hexecution, huuid]
      | legacy name' => cases hdir
    | legacy name =>
      cases id' with
      | nested workflowId' executionId' uuid' => cases hdir
      | legacy name' =>
        have hlegacy : name = name' := BaseName.ext hname
        rw [hlegacy]
  · rintro rfl
    rfl

theorem file_path_ne_metadata (dir : Path) (name : List Char) :
    cfg.filePath id ≠ cfg.resolvePath (dir ++ [name ++ ".metadata".toList]) := by
  intro h
  have hname := ((cfg.path_eq_iff _ _ _ _).mp h).2
  refine id.name.noDot ?_
  rw [hname]
  exact List.mem_append_right name (by decide)

theorem file_path_ne_metadata_path : cfg.filePath id ≠ cfg.metadataPath id' :=
  cfg.file_path_ne_metadata id'.directory id'.name.text

theorem legacy_of_file_path {name : List Char} (h : cfg.filePath id = cfg.resolvePath [name]) :
    ∃ baseName : BaseName, id = .legacy baseName ∧ baseName.text = name := by
  obtain ⟨hdir, hname⟩ := (cfg.path_eq_iff id.directory [] id.name.text name).mp h
  cases id with
  | nested workflowId executionId uuid => cases hdir
  | legacy baseName => exact ⟨baseName, rfl, hname⟩

theorem nested_of_prefix {workflowId executionId : Segment}
    (h : cfg.resolvePath (executionDir workflowId executionId) <+: cfg.filePath id) :
    ∃ uuid, id = .nested workflowId executionId uuid := by
  rw [filePath, resolvePath, resolvePath, List.prefix_append_right_inj] at h
  cases id with
  | nested workflowId' executionId' uuid =>
    obtain ⟨hworkflow, hexecution⟩ : workflowId.text = workflowId'.text ∧
        executionId.text = executionId'.text := by
      simpa [FileId.path, FileId.directory, executionDir, List.cons_prefix_cons] using h
    rw [Segment.ext hworkflow, Segment.ext hexecution]
    exact ⟨uuid, rfl⟩
  | legacy name =>
    have hlength := h.length_le
    simp [FileId.path, FileId.directory, executionDir] at hlength

end StorageConfig

/-- The requests under way for a deletion name files and directories of deleted executions, and a
rename whose metadata are not yet moved has not moved its file after a failure. -/
def Call.Consistent (cfg : StorageConfig) (deleted : List ExecutionRef) : Call → Prop
  | .moving _ _ file metadata moved failed =>
    (file = true → moved = none ∧ (metadata = true → failed = false)) ∧
      (metadata = true → failed = true → moved = none)
  | .readingDir ids => ids ⊆ deleted
  | .removingLegacy fileName _ _ _ fileNames ids =>
    (∀ name ∈ fileName :: fileNames,
      ∃ ref ∈ deleted, executionIdOf name = some ref.executionId.text) ∧ ids ⊆ deleted
  | .removingDirs dirs =>
    ∀ dir ∈ dirs, ∃ ref ∈ deleted,
      dir = cfg.resolvePath (executionDir ref.workflowId ref.executionId)
  | _ => True

theorem Job.start_consistent (job : Job) (cfg : StorageConfig) (deleted : List ExecutionRef) :
    job.start.Consistent cfg deleted := by
  cases job with
  | write target source => trivial
  | rename oldFileId newFileId => exact ⟨fun _ => ⟨rfl, fun _ => rfl⟩, fun _ _ => rfl⟩

namespace Storage

variable (cfg : StorageConfig)

/-- Every file whose execution was not deleted reads back the content last written, copied or
renamed to it. -/
def ReadsBack (s : Storage) : Prop :=
  ∀ id content, s.written.get? id = some content → ¬ s.Deleted id →
    s.getAsBuffer cfg id = some content

/-- A rename that has moved the file does not fail, and the directory that it removes holds no
other file whose execution was not deleted. -/
def harmless (s : Storage) : StorageEvent → Prop
  | .goOn (.moving oldFileId newFileId _ _ _ failed) .file answer =>
    s.Deleted oldFileId ∨ failed = false ∨
      s.moved answer (cfg.filePath oldFileId) (cfg.filePath newFileId) = none
  | .goOn (.moving oldFileId newFileId _ _ moved _) .metadata answer =>
    s.Deleted oldFileId ∨ moved = none ∨
      s.moved answer (cfg.metadataPath oldFileId) (cfg.metadataPath newFileId) ≠ none
  | .goOn (.removingTemp oldFileId _ _) _ answer =>
    if s.withoutTemp cfg oldFileId answer = none then s.Deleted oldFileId
    else ∀ entry ∈ s.written.entries,
      s.Deleted entry.1 ∨ ¬ cfg.tempDir (cfg.filePath oldFileId) <+: cfg.filePath entry.1
  | _ => True

instance (s : Storage) : ∀ e, Decidable (s.harmless cfg e)
  | .store .. | .copyByFilePath .. | .copyByFileId .. | .rename .. | .deleteMany _ => isTrue trivial
  | .goOn (.moving ..) .file _ => inferInstanceAs (Decidable (_ ∨ _ ∨ _))
  | .goOn (.moving ..) .metadata _ => inferInstanceAs (Decidable (_ ∨ _ ∨ _))
  | .goOn (.moving ..) (.dir _) _ => isTrue trivial
  | .goOn (.removingTemp oldFileId _ _) _ answer =>
    inferInstanceAs (Decidable (if s.withoutTemp cfg oldFileId answer = none then
      s.Deleted oldFileId
    else ∀ entry ∈ s.written.entries,
      s.Deleted entry.1 ∨ ¬ cfg.tempDir (cfg.filePath oldFileId) <+: cfg.filePath entry.1))
  | .goOn (.readingMetadata ..) _ _ | .goOn (.accessing _) _ _ | .goOn (.makingDir _) _ _
  | .goOn (.writing ..) _ _ | .goOn (.gettingSize ..) _ _ | .goOn (.storingMetadata ..) _ _
  | .goOn (.readingDir _) _ _ | .goOn (.removingLegacy ..) _ _ | .goOn (.removingDirs _) _ _ =>
    isTrue trivial

/-- The files read back, and the calls are consistent. -/
structure Inv (s : Storage) : Prop where
  reads : s.ReadsBack cfg
  calls : ∀ call ∈ s.calls, call.Consistent cfg s.deleted

variable {cfg} {s : Storage} {target oldFileId newFileId : FileId} {call : Call}
  {tree : FileTree (List Char) Bytes}

theorem Inv.suspend (h : Inv cfg s) (hcall : call.Consistent cfg s.deleted) :
    Inv cfg (s.suspend call) := by
  refine ⟨h.reads, fun other hother => ?_⟩
  cases List.mem_append.mp hother with
  | inl hold => exact h.calls other hold
  | inr hnew =>
    cases List.mem_singleton.mp hnew
    exact hcall

theorem Inv.withTree (h : Inv cfg s)
    (hsame : ∀ id content, s.written.get? id = some content → ¬ s.Deleted id →
      tree.get? (cfg.filePath id) = s.tree.get? (cfg.filePath id)) :
    Inv cfg { s with tree := tree } :=
  ⟨fun id content hwritten hdeleted =>
    (hsame id content hwritten hdeleted).trans (h.reads id content hwritten hdeleted), h.calls⟩

theorem Inv.forget (h : Inv cfg s) : Inv cfg (s.forget target) := by
  refine ⟨fun id content hwritten => ?_, h.calls⟩
  rw [Storage.forget, InsertionMap.get_delete] at hwritten
  split at hwritten
  · cases hwritten
  · exact h.reads id content hwritten

theorem Inv.leave (h : Inv cfg s) {path : Path} (answer : Answer)
    (hpath : ∀ id content, s.written.get? id = some content → cfg.filePath id ≠ path) :
    Inv cfg (s.leave path answer) := by
  unfold Storage.leave
  cases answer with
  | done => exact h
  | copied content => exact h
  | failed left =>
    cases left with
    | none => exact h
    | some left =>
      refine h.withTree fun id content hwritten _ => ?_
      cases hwrite : s.tree.write path left with
      | none => rfl
      | some tree =>
        rw [Option.getD_some, FileTree.get_write hwrite, if_neg (hpath id content hwritten)]

theorem ne_path_of_forgotten {id : FileId} {content : Bytes}
    (h : (s.forget target).written.get? id = some content) :
    cfg.filePath id ≠ cfg.filePath target := by
  rw [Storage.forget, InsertionMap.get_delete] at h
  split at h
  · cases h
  · rename_i hne
    exact fun heq => hne (cfg.file_path_inj.mp heq)

theorem Inv.writeFile (h : Inv cfg s) (source : Source) (answer : Answer) :
    Inv cfg (s.writeFile cfg target source answer) := by
  unfold Storage.writeFile
  cases s.content cfg answer source with
  | none => exact h.forget.leave answer fun id content => ne_path_of_forgotten
  | some content =>
    dsimp only
    cases hwrite : s.tree.write (cfg.filePath target) content with
    | none => exact h.forget
    | some tree =>
      have hnew : Inv cfg { s with tree, written := s.written.set target content } := by
        refine ⟨fun id content' hwritten hdeleted => ?_, h.calls⟩
        show tree.get? (cfg.filePath id) = some content'
        rw [FileTree.get_write hwrite]
        dsimp only at hwritten
        rw [InsertionMap.get_set] at hwritten
        split at hwritten
        · rename_i hid
          rw [hid, if_pos rfl, ← hwritten]
        · rename_i hid
          rw [if_neg fun heq => hid (cfg.file_path_inj.mp heq)]
          exact h.reads id content' hwritten hdeleted
      cases source with
      | buffer content metadata => exact hnew.suspend trivial
      | filePath metadata => exact hnew.suspend trivial
      | fileId sourceFileId sourceMetadata => exact hnew.suspend trivial

theorem Inv.getSize (h : Inv cfg s) (metadata : PreWriteMetadata) (answer : Answer) :
    Inv cfg (s.getSize cfg target metadata answer) := by
  unfold Storage.getSize
  split
  · exact h.suspend trivial
  · exact h.forget

theorem Inv.storeMetadata (h : Inv cfg s) (metadata : Metadata) (answer : Answer) :
    Inv cfg (s.storeMetadata cfg target metadata answer) := by
  unfold Storage.storeMetadata
  split
  · cases hwrite : s.tree.write (cfg.metadataPath target) (cfg.stringify metadata) with
    | none => exact h.forget
    | some tree =>
      refine h.withTree fun id content _ _ => ?_
      rw [FileTree.get_write hwrite, if_neg cfg.file_path_ne_metadata_path]
  · exact h.forget.leave answer fun id content _ => cfg.file_path_ne_metadata_path

theorem Inv.restore (h : Inv cfg s) {moved : Option Bytes}
    (hmoved : moved = none ∨ s.Deleted oldFileId) : Inv cfg (s.restore oldFileId moved) := by
  cases moved with
  | none => exact h
  | some content =>
    have hold : s.Deleted oldFileId := by simpa using hmoved
    refine ⟨fun id content' hwritten hdeleted => ?_, h.calls⟩
    dsimp only [Storage.restore] at hwritten
    rw [InsertionMap.get_set] at hwritten
    split at hwritten
    · rename_i hid
      exact absurd hold (hid ▸ hdeleted)
    · exact h.reads id content' hwritten hdeleted

variable {file metadata failed : Bool}

theorem Inv.joinRename (h : Inv cfg s) {moved : Option Bytes}
    (hcall : (Call.moving oldFileId newFileId file metadata moved failed).Consistent cfg s.deleted)
    (hend : moved = none ∨ failed = false ∨ s.Deleted oldFileId) :
    Inv cfg (s.joinRename oldFileId newFileId file metadata moved failed) := by
  unfold Storage.joinRename
  split
  · exact h.suspend hcall
  · cases moved with
    | none => exact h.restore (.inl rfl)
    | some content =>
      cases failed with
      | false => exact h.suspend trivial
      | true => exact h.restore (.inr (by simpa using hend))

theorem Inv.renameFile (h : Inv cfg s) (answer : Answer)
    (hfailed : metadata = true → failed = false) (hharmless : s.Deleted oldFileId ∨ failed = false ∨
      s.moved answer (cfg.filePath oldFileId) (cfg.filePath newFileId) = none) :
    Inv cfg (s.renameFile cfg oldFileId newFileId metadata failed answer) := by
  have hnone : Inv cfg (s.joinRename oldFileId newFileId false metadata none true) :=
    h.joinRename ⟨(fun h => by cases h), fun _ _ => rfl⟩ (.inl rfl)
  unfold Storage.renameFile
  cases hmoved : s.moved answer (cfg.filePath oldFileId) (cfg.filePath newFileId) with
  | none => exact hnone
  | some tree =>
    cases hcontent : s.getAsBuffer cfg oldFileId with
    | none => exact hnone
    | some content =>
      have hmove : s.tree.move (cfg.filePath oldFileId) (cfg.filePath newFileId) =
          some tree := by
        unfold Storage.moved at hmoved
        split at hmoved
        · exact hmoved
        · cases hmoved
      have hnew : Inv cfg { s with
          tree := tree
          written := (s.written.delete oldFileId).set newFileId content } := by
        refine ⟨fun id content' hwritten hdeleted => ?_, h.calls⟩
        show tree.get? (cfg.filePath id) = some content'
        obtain ⟨file, hfile, hget⟩ := FileTree.get_move hmove (cfg.filePath id)
        rw [hget]
        dsimp only at hwritten
        rw [InsertionMap.get_set, InsertionMap.get_delete] at hwritten
        split at hwritten
        · rename_i hnew
          rw [if_pos (by rw [hnew]), ← hwritten, ← hcontent]
          exact hfile.symm
        · rename_i hnew
          rw [if_neg fun heq => hnew (cfg.file_path_inj.mp heq)]
          split at hwritten
          · cases hwritten
          · rename_i hold
            rw [if_neg fun heq => hold (cfg.file_path_inj.mp heq)]
            exact h.reads id content' hwritten hdeleted
      refine hnew.joinRename ⟨(fun h => by cases h), fun hmetadata htrue => ?_⟩ (.inr ?_)
      · rw [hfailed hmetadata] at htrue
        cases htrue
      · rw [hmoved] at hharmless
        simp only [reduceCtorEq, or_false] at hharmless
        exact hharmless.symm

theorem Inv.renameMetadata (h : Inv cfg s) {moved : Option Bytes} (answer : Answer)
    (hcall : (Call.moving oldFileId newFileId file true moved failed).Consistent cfg s.deleted)
    (hharmless : s.Deleted oldFileId ∨ moved = none ∨
      s.moved answer (cfg.metadataPath oldFileId) (cfg.metadataPath newFileId) ≠ none) :
    Inv cfg (s.renameMetadata cfg oldFileId newFileId file moved failed answer) := by
  obtain ⟨hfile, hfailed⟩ := hcall
  unfold Storage.renameMetadata
  cases hmoved : s.moved answer (cfg.metadataPath oldFileId) (cfg.metadataPath newFileId) with
  | none =>
    rw [hmoved] at hharmless
    refine h.joinRename ⟨fun hpending => ⟨(hfile hpending).1, fun h => by cases h⟩,
      fun h => by cases h⟩ ?_
    cases hharmless with
    | inl hdeleted => exact .inr (.inr hdeleted)
    | inr hrest => exact .inl (by simpa using hrest)
  | some tree =>
    have hmove : s.tree.move (cfg.metadataPath oldFileId) (cfg.metadataPath newFileId) =
        some tree := by
      unfold Storage.moved at hmoved
      split at hmoved
      · exact hmoved
      · cases hmoved
    refine Inv.joinRename (h.withTree fun id content _ _ => ?_)
      ⟨fun hpending => ⟨(hfile hpending).1, fun h => by cases h⟩, fun h => by cases h⟩ ?_
    · obtain ⟨file, -, hget⟩ := FileTree.get_move hmove (cfg.filePath id)
      rw [hget, if_neg cfg.file_path_ne_metadata_path, if_neg cfg.file_path_ne_metadata_path]
    · cases failed with
      | false => exact .inr (.inl rfl)
      | true => exact .inl (hfailed rfl rfl)

variable {fileNames : List (List Char)} {ids : List ExecutionRef}

theorem Inv.removeNext (h : Inv cfg s) (hnames : ∀ name ∈ fileNames,
      ∃ ref ∈ s.deleted, executionIdOf name = some ref.executionId.text) (hids : ids ⊆ s.deleted) :
    Inv cfg (s.removeNext cfg fileNames ids) := by
  cases fileNames with
  | nil =>
    refine h.suspend fun dir hdir => ?_
    obtain ⟨ref, href, rfl⟩ := List.mem_map.mp hdir
    exact ⟨ref, hids href, rfl⟩
  | cons fileName fileNames => exact h.suspend ⟨hnames, hids⟩

variable {fileName : List Char}

theorem Inv.joinRemoval (h : Inv cfg s)
    (hcall : (Call.removingLegacy fileName file metadata failed fileNames ids).Consistent cfg
      s.deleted) : Inv cfg (s.joinRemoval cfg fileName file metadata failed fileNames ids) := by
  unfold Storage.joinRemoval
  split
  · exact h.suspend hcall
  · split
    · exact h
    · exact h.removeNext (fun name hname => hcall.1 name (List.mem_cons_of_mem fileName hname))
        hcall.2

theorem Inv.removed (h : Inv cfg s) {answer : Answer} {path : Path}
    (htree : s.removed answer path = some tree)
    (hpath : ∀ id, ¬ s.Deleted id → cfg.filePath id ≠ path) :
    Inv cfg { s with tree := tree } := by
  unfold Storage.removed at htree
  split at htree
  · refine h.withTree fun id content _ hdeleted => ?_
    rw [FileTree.get_remove htree, if_neg (hpath id hdeleted)]
  · cases htree

theorem deleted_of_legacy
    (hname : ∃ ref ∈ s.deleted, executionIdOf fileName = some ref.executionId.text) (id : FileId)
    (hid : ¬ s.Deleted id) : cfg.filePath id ≠ cfg.resolvePath [fileName] := by
  intro hpath
  obtain ⟨baseName, rfl, rfl⟩ := cfg.legacy_of_file_path hpath
  exact hid hname

variable {part : Part} {answer : Answer} {s' : Storage}

theorem Inv.removeTemp (h : Inv cfg s) {content : Bytes}
    (hharmless : s.harmless cfg (.goOn (.removingTemp oldFileId newFileId content) part answer))
    (hs : s.resume cfg (.removingTemp oldFileId newFileId content) part answer = some s') :
    Inv cfg s' := by
  simp only [Storage.harmless] at hharmless
  simp only [Storage.resume] at hs
  cases htemp : s.withoutTemp cfg oldFileId answer with
  | none =>
    rw [htemp] at hharmless hs
    cases hs
    exact h.restore (.inr hharmless)
  | some tree =>
    rw [htemp] at hharmless hs
    cases hs
    refine h.withTree fun id content hwritten hdeleted => ?_
    have hmem := InsertionMap.get_eq_some_iff.mp hwritten
    have hout := (hharmless _ hmem).resolve_left hdeleted
    dsimp only [Storage.withoutTemp] at htemp
    split at htemp
    · cases htemp
      exact FileTree.get_removeAll hout
    · cases htemp

theorem Inv.removeLegacy (h : Inv cfg s)
    (hcall : (Call.removingLegacy fileName file metadata failed fileNames
      ids).Consistent cfg s.deleted)
    (hs : s.resume cfg (.removingLegacy fileName file metadata failed fileNames ids) part answer =
      some s') : Inv cfg s' := by
  cases part with
  | file =>
    cases file with
    | false => cases metadata <;> cases hs
    | true =>
      simp only [Storage.resume] at hs
      split at hs
      · rename_i tree htree
        cases hs
        exact (h.removed htree (deleted_of_legacy (hcall.1 fileName (by simp)))).joinRemoval
          hcall
      · cases hs
        exact h.joinRemoval hcall
  | metadata =>
    cases metadata with
    | false => cases file <;> cases hs
    | true =>
      have hmetadata (id : FileId) (_ : ¬ s.Deleted id) : cfg.filePath id ≠
          cfg.resolvePath [fileName ++ ".metadata".toList] :=
        cfg.file_path_ne_metadata [] fileName
      cases file with
      | false =>
        simp only [Storage.resume] at hs
        split at hs
        · rename_i tree htree
          cases hs
          exact (h.removed htree hmetadata).joinRemoval hcall
        · cases hs
          exact h.joinRemoval hcall
      | true =>
        simp only [Storage.resume] at hs
        split at hs
        · rename_i tree htree
          cases hs
          exact (h.removed htree hmetadata).joinRemoval hcall
        · cases hs
          exact h.joinRemoval hcall
  | dir path => cases file <;> cases metadata <;> cases hs

theorem Inv.removeDirs (h : Inv cfg s) {dirs : List Path}
    (hcall : (Call.removingDirs dirs).Consistent cfg s.deleted)
    (hs : s.resume cfg (.removingDirs dirs) part answer = some s') : Inv cfg s' := by
  cases part with
  | file => cases hs
  | metadata => cases hs
  | dir path =>
    simp only [Storage.resume] at hs
    split at hs
    · rename_i hpath
      obtain ⟨ref, href, rfl⟩ := hcall path hpath
      have hremoved : Inv cfg (if answer.ok then
          { s with tree := s.tree.removeAll (cfg.resolvePath
            (executionDir ref.workflowId ref.executionId)) } else s) := by
        split
        · refine h.withTree fun id content _ hdeleted =>
            FileTree.get_removeAll fun hbelow => ?_
          obtain ⟨uuid, rfl⟩ := cfg.nested_of_prefix hbelow
          exact hdeleted href
        · exact h
      split at hs
      · cases hs
        exact hremoved
      · cases hs
        refine hremoved.suspend fun dir hdir => ?_
        have hold := hcall dir (List.mem_of_mem_erase hdir)
        cases answer.ok <;> exact hold
    · cases hs

theorem Inv.resume (h : Inv cfg s) {part : Part} {answer : Answer} {s' : Storage}
    (hcall : call.Consistent cfg s.deleted) (hharmless : s.harmless cfg (.goOn call part answer))
    (hs : s.resume cfg call part answer = some s') : Inv cfg s' := by
  cases call with
  | readingMetadata target sourceFileId =>
    simp only [Storage.resume] at hs
    split at hs
    · cases hs
      exact h.suspend trivial
    · cases hs
      exact h
  | accessing job =>
    simp only [Storage.resume] at hs
    split at hs
    · cases hs
      exact h.suspend (job.start_consistent cfg s.deleted)
    · cases hs
      exact h.suspend trivial
  | makingDir job =>
    simp only [Storage.resume] at hs
    split at hs
    · rename_i tree hdir hok
      cases hs
      refine Inv.suspend (h.withTree fun id content _ _ => ?_)
        (job.start_consistent cfg s.deleted)
      exact FileTree.get_makeDir hdir
    · cases hs
      exact h
  | writing target source =>
    cases hs
    exact h.writeFile source answer
  | gettingSize target metadata =>
    cases hs
    exact h.getSize metadata answer
  | storingMetadata target metadata =>
    cases hs
    exact h.storeMetadata metadata answer
  | moving oldFileId newFileId file metadata moved failed =>
    cases part with
    | file =>
      cases file with
      | false => cases metadata <;> cases hs
      | true =>
        cases hs
        exact h.renameFile answer (hcall.1 rfl).2 hharmless
    | metadata =>
      cases metadata with
      | false => cases file <;> cases hs
      | true =>
        cases file <;> cases hs <;> exact h.renameMetadata answer hcall hharmless
    | dir path => cases file <;> cases metadata <;> cases hs
  | removingTemp oldFileId newFileId content => exact h.removeTemp hharmless hs
  | readingDir ids =>
    simp only [Storage.resume] at hs
    split at hs
    · cases hs
      refine h.removeNext (fun name hname => ?_) hcall
      obtain ⟨-, hname⟩ := List.mem_filter.mp hname
      obtain ⟨ref, href, heq⟩ := List.any_eq_true.mp hname
      exact ⟨ref, hcall href, by simpa using heq⟩
    · cases hs
      exact h
  | removingLegacy fileName file metadata failed fileNames ids => exact h.removeLegacy hcall hs
  | removingDirs dirs => exact h.removeDirs hcall hs

section Untouched

variable {id : FileId}

@[simp] theorem written_leave (s : Storage) (path : Path) (answer : Answer) :
    (s.leave path answer).written = s.written := by
  unfold Storage.leave
  split <;> rfl

theorem written_forget (h : id ≠ target) :
    (s.forget target).written.get? id = s.written.get? id := by
  rw [Storage.forget, InsertionMap.get_delete, if_neg h]

theorem written_restore (h : id ≠ oldFileId) (moved : Option Bytes) :
    (s.restore oldFileId moved).written.get? id = s.written.get? id := by
  cases moved with
  | none => rfl
  | some content => exact s.written.get_set_other content h

theorem written_joinRename (h : id ≠ oldFileId) (file metadata failed : Bool)
    (moved : Option Bytes) :
    (s.joinRename oldFileId newFileId file metadata moved failed).written.get? id =
      s.written.get? id := by
  unfold Storage.joinRename
  split
  · rfl
  · split
    · rfl
    · exact written_restore h moved

@[simp] theorem written_removeNext (fileNames : List (List Char)) (ids : List ExecutionRef) :
    (s.removeNext cfg fileNames ids).written = s.written := by
  cases fileNames <;> rfl

@[simp] theorem written_joinRemoval (fileName : List Char) (file metadata failed : Bool)
    (fileNames : List (List Char)) (ids : List ExecutionRef) :
    (s.joinRemoval cfg fileName file metadata failed fileNames ids).written = s.written := by
  unfold Storage.joinRemoval
  split
  · rfl
  · split
    · rfl
    · exact written_removeNext fileNames ids

theorem written_writeFile (h : id ≠ target) (source : Source) (answer : Answer) :
    (s.writeFile cfg target source answer).written.get? id = s.written.get? id := by
  unfold Storage.writeFile
  split
  · rw [written_leave, written_forget h]
  · split
    · exact written_forget h
    · cases source <;> exact s.written.get_set_other _ h

theorem written_storeMetadata (h : id ≠ target) (metadata : Metadata) (answer : Answer) :
    (s.storeMetadata cfg target metadata answer).written.get? id = s.written.get? id := by
  unfold Storage.storeMetadata
  split
  · split
    · rfl
    · exact written_forget h
  · rw [written_leave, written_forget h]

theorem written_renameFile (hold : id ≠ oldFileId) (hnew : id ≠ newFileId)
    (metadata failed : Bool) (answer : Answer) :
    (s.renameFile cfg oldFileId newFileId metadata failed answer).written.get? id =
      s.written.get? id := by
  unfold Storage.renameFile
  split
  · rw [written_joinRename hold]
    show ((s.written.delete oldFileId).set newFileId _).get? id = _
    rw [InsertionMap.get_set_other _ _ hnew, InsertionMap.get_delete, if_neg hold]
  · exact written_joinRename hold _ _ _ _

theorem written_resume {part : Part} {answer : Answer} {s' : Storage}
    (hs : s.resume cfg call part answer = some s') (hid : id ∉ call.ids) :
    s'.written.get? id = s.written.get? id := by
  cases call with
  | readingMetadata target sourceFileId =>
    simp only [Storage.resume] at hs
    split at hs <;> cases hs <;> rfl
  | accessing job =>
    simp only [Storage.resume] at hs
    split at hs <;> cases hs <;> rfl
  | makingDir job =>
    simp only [Storage.resume] at hs
    split at hs <;> cases hs <;> rfl
  | writing target source =>
    cases hs
    exact written_writeFile (by simpa [Call.ids] using hid) source answer
  | gettingSize target metadata =>
    cases hs
    unfold Storage.getSize
    split
    · rfl
    · exact written_forget (by simpa [Call.ids] using hid)
  | storingMetadata target metadata =>
    cases hs
    exact written_storeMetadata (by simpa [Call.ids] using hid) metadata answer
  | moving oldFileId newFileId file metadata moved failed =>
    obtain ⟨hold, hnew⟩ : id ≠ oldFileId ∧ id ≠ newFileId := by simpa [Call.ids] using hid
    cases part with
    | file =>
      cases file with
      | false => cases metadata <;> cases hs
      | true =>
        cases hs
        exact written_renameFile hold hnew metadata failed answer
    | metadata =>
      cases metadata with
      | false => cases file <;> cases hs
      | true =>
        have hrename : (s.renameMetadata cfg oldFileId newFileId file moved failed
            answer).written.get? id = s.written.get? id := by
          unfold Storage.renameMetadata
          split <;> exact written_joinRename hold _ _ _ _
        cases file <;> cases hs <;> exact hrename
    | dir path => cases file <;> cases metadata <;> cases hs
  | removingTemp oldFileId newFileId content =>
    have hold : id ≠ oldFileId := fun h => hid (by simp [Call.ids, h])
    simp only [Storage.resume] at hs
    split at hs
    · cases hs
      rfl
    · cases hs
      exact written_restore hold (some content)
  | readingDir ids =>
    simp only [Storage.resume] at hs
    split at hs <;> cases hs <;> simp
  | removingLegacy fileName file metadata failed fileNames ids =>
    cases part with
    | file =>
      cases file with
      | false => cases metadata <;> cases hs
      | true =>
        simp only [Storage.resume] at hs
        split at hs <;> cases hs <;> simp
    | metadata =>
      cases metadata with
      | false => cases file <;> cases hs
      | true =>
        cases file <;> simp only [Storage.resume] at hs <;> split at hs <;> cases hs <;> simp
    | dir path => cases file <;> cases metadata <;> cases hs
  | removingDirs dirs =>
    cases part with
    | file => cases hs
    | metadata => cases hs
    | dir path =>
      simp only [Storage.resume] at hs
      split at hs
      · split at hs <;> cases hs <;> cases answer.ok <;> rfl
      · cases hs

end Untouched

theorem create_eq_some (h : s.create cfg target call = some s') : s' = s.suspend call := by
  unfold Storage.create at h
  split at h
  · cases h
    rfl
  · cases h

theorem deletedWith_mono {deleted deleted' : List ExecutionRef} (h : deleted ⊆ deleted')
    {id : FileId} (hid : id.DeletedWith deleted) : id.DeletedWith deleted' := by
  cases id with
  | nested workflowId executionId uuid => exact h hid
  | legacy name =>
    obtain ⟨ref, href, heq⟩ := hid
    exact ⟨ref, h href, heq⟩

theorem consistent_mono {deleted deleted' : List ExecutionRef} (h : deleted ⊆ deleted')
    (hcall : call.Consistent cfg deleted) : call.Consistent cfg deleted' := by
  cases call with
  | readingDir ids => exact fun ref href => h (hcall href)
  | removingLegacy fileName file metadata failed fileNames ids =>
    refine ⟨fun name hname => ?_, fun ref href => h (hcall.2 href)⟩
    obtain ⟨ref, href, heq⟩ := hcall.1 name hname
    exact ⟨ref, h href, heq⟩
  | removingDirs dirs =>
    intro dir hdir
    obtain ⟨ref, href, heq⟩ := hcall dir hdir
    exact ⟨ref, h href, heq⟩
  | _ => exact hcall

theorem Inv.step (h : Inv cfg s) {e : StorageEvent} {s' : Storage} (hharmless : s.harmless cfg e)
    (hs : s.step cfg e = some s') : Inv cfg s' := by
  cases e with
  | store workflowId executionId uuid content metadata =>
    rw [create_eq_some hs]
    exact h.suspend trivial
  | copyByFilePath workflowId executionId uuid metadata =>
    rw [create_eq_some hs]
    exact h.suspend trivial
  | copyByFileId workflowId executionId uuid sourceFileId =>
    rw [create_eq_some hs]
    exact h.suspend trivial
  | rename oldFileId newFileId =>
    cases hs
    exact h.suspend trivial
  | deleteMany ids =>
    simp only [Storage.step] at hs
    split at hs
    · cases hs
      exact h
    · cases hs
      have hsub : s.deleted ⊆ s.deleted ++ ids := List.subset_append_left s.deleted ids
      refine Inv.suspend ⟨fun id content hwritten hdeleted => ?_, fun call hcall => ?_⟩
        (List.subset_append_right s.deleted ids)
      · exact h.reads id content hwritten fun hid => hdeleted (deletedWith_mono hsub hid)
      · exact consistent_mono hsub (h.calls call hcall)
  | goOn call part answer =>
    simp only [Storage.step] at hs
    split at hs
    · rename_i hcall
      have herase : Inv cfg { s with calls := s.calls.erase call } :=
        ⟨h.reads, fun other hother => h.calls other (List.mem_of_mem_erase hother)⟩
      exact herase.resume (h.calls call hcall) hharmless hs
    · cases hs

theorem written_step {e : StorageEvent} (hs : s.step cfg e = some s') {id : FileId}
    (hid : id ∉ e.ids) : s'.written.get? id = s.written.get? id := by
  cases e with
  | store | copyByFilePath | copyByFileId =>
    rw [create_eq_some hs]
    rfl
  | rename oldFileId newFileId =>
    cases hs
    rfl
  | deleteMany ids =>
    simp only [Storage.step] at hs
    split at hs <;> cases hs <;> rfl
  | goOn call part answer =>
    simp only [Storage.step] at hs
    split at hs
    · exact (written_resume hs hid).trans rfl
    · cases hs

/-- A storage to start from: no call is under way, and the files that were written read back. -/
structure Settled (cfg : StorageConfig) (s : Storage) : Prop where
  reads : s.ReadsBack cfg
  calls : s.calls = []

/-- In every run of calls that interleave in any way, as long as the events are harmless, every file
whose execution was not deleted reads back the content last written, copied or renamed to it, and a
harmless event changes the content of no other file than those it writes or renames. -/
theorem reads_back {start : Storage} (hstart : Settled cfg start)
    (h : Reachable (Storage.step cfg) (Storage.harmless cfg) start s) :
    s.ReadsBack cfg ∧
      ∀ e s', s.harmless cfg e → s.step cfg e = some s' →
        ∀ id content, id ∉ e.ids → s.written.get? id = some content → ¬ s'.Deleted id →
          s'.getAsBuffer cfg id = some content := by
  have hinv : Inv cfg s := by
    refine Reachable.keeps (Inv cfg) ⟨hstart.reads, fun call hcall => ?_⟩ ?_ h
    · rw [hstart.calls] at hcall
      cases hcall
    · exact fun s e s' hs hharmless hstep => hs.step hharmless hstep
  refine ⟨hinv.reads, fun e s' hharmless hstep id content hid hwritten hdeleted => ?_⟩
  exact (hinv.step hharmless hstep).reads id content ((written_step hstep hid).trans hwritten)
    hdeleted

theorem removed_temp_breaks {oldFileId newFileId id : FileId} {moved content : Bytes} {part : Part}
    {answer : Answer} {s' : Storage}
    (hs : s.step cfg (.goOn (.removingTemp oldFileId newFileId moved) part answer) = some s')
    (hremoves : s.withoutTemp cfg oldFileId answer ≠ none)
    (hwritten : s.written.get? id = some content) (hdeleted : ¬ s.Deleted id)
    (hbelow : cfg.tempDir (cfg.filePath oldFileId) <+: cfg.filePath id) : ¬ s'.ReadsBack cfg := by
  obtain ⟨tree, htree⟩ := Option.ne_none_iff_exists'.mp hremoves
  simp only [Storage.step, Storage.resume] at hs
  split at hs
  · have hsame : ({ s with calls := s.calls.erase (.removingTemp oldFileId newFileId moved) } :
        Storage).withoutTemp cfg oldFileId answer = some tree := htree
    rw [hsame] at hs
    cases hs
    intro hreads
    have hread : tree.get? (cfg.filePath id) = some content := hreads id content hwritten hdeleted
    dsimp only [Storage.withoutTemp] at htree
    split at htree
    · cases htree
      rw [FileTree.get_removeAll_below hbelow] at hread
      cases hread
    · cases htree
  · cases hs

end Storage

/-- A storage in the directory `data`, for metadata without a name and a type. -/
def dataConfig : StorageConfig where
  storagePath := ["data".toList]
  cwd := []
  stringify metadata :=
    ("\x7b\"fileSize\":".toList ++ (Nat.repr metadata.fileSize).toList ++ ['}']).map fun c =>
      c.toNat.toUInt8
  parse _ := none

/-- The storage after `init`. -/
def emptyStorage : Storage := ⟨⟨.empty, [[], ["data".toList]]⟩, [], .empty, []⟩

theorem emptyStorage_settled : Storage.Settled dataConfig emptyStorage :=
  ⟨fun _ _ hwritten => (by cases hwritten), rfl⟩

def sampleWorkflow : Segment := ⟨['w'], by decide⟩

def sampleExecution : Segment := ⟨"390".toList, by decide⟩

/-- The name of a file, for the random part of its id. -/
def firstName : BaseName := ⟨⟨['a'], by decide⟩, by decide⟩

def secondName : BaseName := ⟨⟨['b'], by decide⟩, by decide⟩

/-- Binary data is stored before its execution has an id, request by request. -/
def storeTemp (name : BaseName) (content : Bytes) (makes : Bool) : List StorageEvent :=
  let target := toFileId sampleWorkflow none name
  let job := Job.write target (.buffer content ⟨none, none⟩)
  [.store sampleWorkflow none name content ⟨none, none⟩, .goOn (.accessing job) .file .done] ++
    (if makes then [.goOn (.makingDir job) .file .done] else []) ++
    [.goOn job.start .file .done, .goOn (.gettingSize target ⟨none, none⟩) .file .done,
      .goOn (.storingMetadata target ⟨none, none, content.length⟩) .file .done]

/-- The file of a webhook gets the id of its execution. -/
def restoreId (name : BaseName) (content : Bytes) : List StorageEvent :=
  let oldFileId := toFileId sampleWorkflow none name
  let newFileId := toFileId sampleWorkflow (some sampleExecution) name
  let job := Job.rename oldFileId newFileId
  [.rename oldFileId newFileId, .goOn (.accessing job) .file .done,
    .goOn (.makingDir job) .file .done, .goOn job.start .file .done,
    .goOn (.moving oldFileId newFileId false true (some content) false) .metadata .done,
    .goOn (.removingTemp oldFileId newFileId content) .file .done]

/-- A file that is alone in the temporary directory is read back under its new id. -/
theorem restored_file_reads_back : ∃ s,
    Reachable (Storage.step dataConfig) (Storage.harmless dataConfig) emptyStorage s ∧
      s.ReadsBack dataConfig ∧
      s.getAsBuffer dataConfig (toFileId sampleWorkflow (some sampleExecution) firstName) =
        some [1, 2] := by
  obtain ⟨s, hs, hread⟩ : ∃ s,
      runAllowed (Storage.step dataConfig) (Storage.harmless dataConfig) emptyStorage
        (storeTemp firstName [1, 2] true ++ restoreId firstName [1, 2]) = some s ∧
      s.getAsBuffer dataConfig (toFileId sampleWorkflow (some sampleExecution) firstName) =
        some [1, 2] := by
    refine Option.map_eq_some_iff.mp ?_
    decide +kernel
  have hreach := reachable_of_runAllowed .start hs
  exact ⟨s, hreach, (Storage.reads_back emptyStorage_settled hreach).1, hread⟩

/-- When two files are in the temporary directory, renaming one of them removes the other. -/
theorem rename_removes_other :
    ¬ ∀ (cfg : StorageConfig) (start s : Storage), Storage.Settled cfg start →
      Reachable (Storage.step cfg) (fun _ _ => True) start s → s.ReadsBack cfg := by
  intro h
  obtain ⟨s, hs, hlost⟩ : ∃ s,
      run (Storage.step dataConfig) emptyStorage
        (storeTemp firstName [1, 2] true ++ storeTemp secondName [3] false ++
          restoreId firstName [1, 2]) = some s ∧
      (s.written.get? (toFileId sampleWorkflow none secondName),
        s.getAsBuffer dataConfig (toFileId sampleWorkflow none secondName), s.deleted) =
          (some [3], none, []) := by
    refine Option.map_eq_some_iff.mp ?_
    decide +kernel
  simp only [Prod.mk.injEq] at hlost
  obtain ⟨hwritten, hread, hdeleted⟩ := hlost
  have hreads := h dataConfig emptyStorage s emptyStorage_settled (reachable_of_run hs)
    (toFileId sampleWorkflow none secondName) [3] hwritten
    (by
      show ¬ FileId.DeletedWith s.deleted _
      rw [hdeleted]
      exact List.not_mem_nil)
  rw [hread] at hreads
  cases hreads

end N8n.BinaryData
