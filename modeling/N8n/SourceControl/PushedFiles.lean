import N8n.SourceControl.PushWorkfolder

/-!
# What a push takes from the client

The entries of a request are checked by their ids and types. Their conflict flags, their statuses
and their files are taken as the client sent them: the flags let a push through, and the files are
deleted and staged. `pushWorkfolder` keeps resources in conflict out, and to the files of allowed
resources, exactly when the entries that take part are verified.
-/

namespace N8n.SourceControl

open Collections Text

namespace PushOutcome

/-- The files that were staged or deleted. -/
def files (outcome : PushOutcome) : List Path := outcome.staged ++ outcome.deleted

/-- The results that are reported as pushed. -/
def results (outcome : PushOutcome) : List SourceControlledFile :=
  match outcome.answer with
  | .pushed statusResult => statusResult
  | _ => []

end PushOutcome

namespace PushContext

variable (p : PushContext)

/-- The paths are those of one file. -/
def SameFile (path path' : Path) : Prop := resolve p.cwd path = resolve p.cwd path'

/-- Each file that was staged or deleted is that of an allowed resource, and no resource in conflict
was pushed: its file was neither staged nor deleted, and no result is its. -/
structure TrustsStatus (outcome : PushOutcome) : Prop where
  allowed : ∀ path ∈ outcome.files, ∃ resource ∈ p.resources, p.SameFile path resource.file
  conflicts : ∀ resource ∈ p.resources, resource.conflict = true →
    (∀ path ∈ outcome.files, ¬ p.SameFile path resource.file) ∧
      ∀ result ∈ outcome.results, ¬ (result.type = resource.type ∧ result.id = resource.id)

/-- The path is that of an allowed resource, and of none in conflict. -/
def Verified (path : Path) : Prop :=
  (∃ resource ∈ p.resources, p.SameFile path resource.file) ∧
    ∀ resource ∈ p.resources, p.SameFile path resource.file → resource.conflict = false

/-- The entry is one for a resource in conflict. -/
def InConflict (e : SourceControlledFile) : Prop :=
  ∃ resource ∈ p.resources, resource.conflict = true ∧ e.type = resource.type ∧ e.id = resource.id

/-- A workflow or a credential to be deleted. -/
def IsDeleted (e : SourceControlledFile) : Prop :=
  isWorkflowOrCredential e ∧ e.status = .deleted

/-- The types whose resources are kept in one file, with their exports. -/
def sharedFileTypes : List (FileType × PushOperation) :=
  [(.tags, .exportTags), (.folders, .exportFolders), (.vars, .exportVariables)]

/-- An entry is staged if it is a workflow or a credential that is not deleted, unless its path is
that of a missing credential, or the first of a type that is kept in one file. -/
def IsStaged (files : List SourceControlledFile) (missing : List Path) (e : SourceControlledFile) :
    Prop :=
  (isWorkflowOrCredential e ∧ e.status ≠ .deleted ∧ e.file ∉ missing) ∨
    ∃ shared ∈ sharedFileTypes, files.find? (fun e => e.type = shared.1) = some e

/-- The exports of the entries do not throw, and the paths are those of missing credentials. -/
structure Exports (files : List SourceControlledFile) (missing : List Path) : Prop where
  workflows : p.throws .exportWorkflows = false
  credentials : p.throws .exportCredentials = false
  missing : p.missingPaths files = .ok missing
  shared : ∀ shared ∈ sharedFileTypes, (∃ e ∈ files, e.type = shared.1) → p.throws shared.2 = false

/-- The entries that take part in the push are verified: those that are deleted, those that are
staged if nothing throws before, and those that are reported if nothing throws at all. -/
structure EntriesVerified (files : List SourceControlledFile) : Prop where
  deleted : ∀ e ∈ files, IsDeleted e → p.Verified e.file
  staged : ∀ missing, p.Exports files missing → p.throws .stage = false →
    ∀ e ∈ files, IsStaged files missing e → p.Verified e.file
  reported : ∀ missing, p.Exports files missing → p.throws .stage = false →
    p.throws .commit = false → p.throws .push = false →
      ∀ e ∈ files, e.file ∉ missing → ¬ p.InConflict e

/-- The request is let through with the entries, whose paths have been made absolute. -/
structure Accepts (fileNames files : List SourceControlledFile) : Prop where
  isSetUp : p.isSetUp = true
  isFetched : p.isFetched = true
  writable : p.isBranchReadOnly = false
  nonempty : fileNames ≠ []
  normalized : p.normalizedFiles fileNames = .ok files
  allowed : ∀ e ∈ files, p.isAllowed e = true
  unflagged : ∀ e ∈ files, e.conflict = false

section Sets

variable {files : List SourceControlledFile} {path : Path}

theorem mem_addFile {paths : List Path} {file : Path} :
    path ∈ addFile paths file ↔ path ∈ paths ∨ file = path := by
  unfold addFile
  split
  · exact ⟨Or.inl, fun h => h.elim id fun heq => heq ▸ ‹_›⟩
  · rw [List.mem_append, List.mem_singleton, eq_comm (a := path)]

variable {sets : StagedFiles}

theorem mem_pushed_addEntry {e : SourceControlledFile} :
    path ∈ (addEntry sets e).filesToBePushed ↔
      path ∈ sets.filesToBePushed ∨ (e.status ≠ .deleted ∧ e.file = path) := by
  unfold addEntry
  split
  · simp_all [mem_addFile]
  · simp_all

theorem mem_deleted_addEntry {e : SourceControlledFile} :
    path ∈ (addEntry sets e).filesToBeDeleted ↔
      path ∈ sets.filesToBeDeleted ∨ (e.status = .deleted ∧ e.file = path) := by
  unfold addEntry
  split
  · simp_all
  · simp_all [mem_addFile]

theorem mem_foldl_addEntry {set : StagedFiles → List Path} {S : SourceControlledFile → Prop}
    (hadd : ∀ sets e, path ∈ set (addEntry sets e) ↔ path ∈ set sets ∨ (S e ∧ e.file = path)) :
    path ∈ set (files.foldl addEntry sets) ↔
      path ∈ set sets ∨ ∃ e ∈ files, S e ∧ e.file = path := by
  induction files generalizing sets with
  | nil => simp
  | cons e rest ih =>
    simp only [List.foldl_cons, ih, hadd, List.mem_cons, exists_eq_or_imp, or_assoc]

theorem mem_filesToBePushed :
    path ∈ (partitionFiles files).filesToBePushed ↔
      ∃ e ∈ files, isWorkflowOrCredential e ∧ e.status ≠ .deleted ∧ e.file = path := by
  refine (mem_foldl_addEntry fun _ _ => mem_pushed_addEntry).trans ?_
  simp [and_assoc]

theorem mem_filesToBeDeleted :
    path ∈ (partitionFiles files).filesToBeDeleted ↔
      ∃ e ∈ files, IsDeleted e ∧ e.file = path := by
  refine (mem_foldl_addEntry fun _ _ => mem_deleted_addEntry).trans ?_
  simp [IsDeleted, and_assoc]

end Sets

theorem trustsStatus_iff {p : PushContext} {outcome : PushOutcome} :
    p.TrustsStatus outcome ↔
      (∀ path ∈ outcome.files, p.Verified path) ∧
        ∀ result ∈ outcome.results, ¬ p.InConflict result := by
  constructor
  · intro h
    refine ⟨fun path hpath => ⟨h.allowed path hpath, fun resource hresource hsame => ?_⟩, ?_⟩
    · by_contra hconflict
      exact (h.conflicts resource hresource (Bool.not_eq_false _ ▸ hconflict)).1 path hpath hsame
    · rintro result hresult ⟨resource, hresource, hconflict, hkey⟩
      exact (h.conflicts resource hresource hconflict).2 result hresult hkey
  · rintro ⟨hfiles, hresults⟩
    refine ⟨fun path hpath => (hfiles path hpath).1, fun resource hresource hconflict => ⟨?_, ?_⟩⟩
    · intro path hpath hsame
      have hfree := (hfiles path hpath).2 resource hresource hsame
      rw [hconflict] at hfree
      cases hfree
    · exact fun result hresult hkey =>
        hresults result hresult ⟨resource, hresource, hconflict, hkey⟩

section Exporting

variable {p} {files : List SourceControlledFile} {missing : List Path}

variable {operation : PushOperation}

theorem perform_eq_ok {u : Unit} : p.perform operation = .ok u ↔ p.throws operation = false := by
  unfold perform
  cases p.throws operation
  · exact iff_of_true rfl rfl
  · exact iff_of_false (fun h => by cases h) (by simp)

theorem perform_of_not_throws (h : p.throws operation = false) : p.perform operation = .ok () :=
  perform_eq_ok.mpr h

theorem perform_of_throws (h : p.throws operation = true) :
    p.perform operation = .error (.operation operation) :=
  if_pos h

/-- The export of a type that is kept in one file: it throws only if there is a change, and adds the
file of the first. -/
theorem exportChanges_eq_ok {type : FileType} {paths paths' : List Path} :
    p.exportChanges type operation files paths = .ok paths' ↔
      ((∃ e ∈ files, e.type = type) → p.throws operation = false) ∧
        paths' = match files.find? fun e => e.type = type with
          | some changes => addFile paths changes.file
          | none => paths := by
  unfold exportChanges
  cases hfind : files.find? fun e => e.type = type with
  | none =>
    have hnone : ¬ ∃ e ∈ files, e.type = type := by simpa using hfind
    simp only [hnone, false_imp_iff, true_and]
    exact ⟨fun h => by cases h; rfl, fun h => h ▸ rfl⟩
  | some changes =>
    have hmem : ∃ e ∈ files, e.type = type :=
      ⟨changes, List.mem_of_find?_eq_some hfind, by simpa using List.find?_some hfind⟩
    simp only [hmem, true_imp_iff, bind_eq_ok, perform_eq_ok]
    constructor
    · rintro ⟨-, hperform, h⟩
      cases h
      exact ⟨hperform, rfl⟩
    · rintro ⟨hperform, rfl⟩
      exact ⟨(), hperform, rfl⟩

theorem mem_exportChanges {type : FileType} {paths paths' : List Path}
    (h : p.exportChanges type operation files paths = .ok paths') {path : Path} :
    path ∈ paths' ↔ path ∈ paths ∨
      ∃ e ∈ files, files.find? (fun e => e.type = type) = some e ∧ e.file = path := by
  obtain ⟨-, rfl⟩ := exportChanges_eq_ok.mp h
  cases hfind : files.find? fun e => e.type = type with
  | none => simp
  | some changes =>
    simp only [mem_addFile, Option.some.injEq]
    refine or_congr_right
      ⟨fun hfile => ⟨changes, List.mem_of_find?_eq_some hfind, rfl, hfile⟩, ?_⟩
    rintro ⟨e, -, rfl, hfile⟩
    exact hfile

theorem exists_isStaged_iff {path : Path} :
    (∃ e ∈ files, IsStaged files missing e ∧ e.file = path) ↔
      path ∈ (partitionFiles files).filesToBePushed.filter (· ∉ missing) ∨
        ∃ shared ∈ sharedFileTypes,
          ∃ e ∈ files, files.find? (fun e => e.type = shared.1) = some e ∧ e.file = path := by
  rw [List.mem_filter, mem_filesToBePushed, decide_eq_true_eq]
  constructor
  · rintro ⟨e, hmem, ⟨htype, hstatus, hmissing⟩ | ⟨shared, hshared, hfind⟩, rfl⟩
    · exact Or.inl ⟨⟨e, hmem, htype, hstatus, rfl⟩, hmissing⟩
    · exact Or.inr ⟨shared, hshared, e, hmem, hfind, rfl⟩
  · rintro (⟨⟨e, hmem, htype, hstatus, rfl⟩, hmissing⟩ | ⟨shared, hshared, e, hmem, hfind, rfl⟩)
    · exact ⟨e, hmem, Or.inl ⟨htype, hstatus, hmissing⟩, rfl⟩
    · exact ⟨e, hmem, Or.inr ⟨shared, hshared, hfind⟩, rfl⟩

theorem exportFiles_of_exports (h : p.Exports files missing) :
    ∃ paths, p.exportFiles files = .ok (paths, files.filter fun e => e.file ∉ missing) ∧
      ∀ path, path ∈ paths ↔ ∃ e ∈ files, IsStaged files missing e ∧ e.file = path := by
  -- the three exports run one after the other, whatever has been staged before
  have hchanges : ∀ shared ∈ sharedFileTypes, ∀ paths,
      ∃ paths', p.exportChanges shared.1 shared.2 files paths = .ok paths' :=
    fun shared hshared paths => ⟨_, exportChanges_eq_ok.mpr ⟨h.shared shared hshared, rfl⟩⟩
  obtain ⟨tags, htags⟩ := hchanges (.tags, .exportTags) (by simp [sharedFileTypes])
    ((partitionFiles files).filesToBePushed.filter (· ∉ missing))
  obtain ⟨folders, hfolders⟩ := hchanges (.folders, .exportFolders) (by simp [sharedFileTypes]) tags
  obtain ⟨paths, hpaths⟩ := hchanges (.vars, .exportVariables) (by simp [sharedFileTypes]) folders
  refine ⟨paths, ?_, fun path => ?_⟩
  · simp only [exportFiles, bind_eq_ok]
    exact ⟨(), perform_eq_ok.mpr h.workflows, (), perform_eq_ok.mpr h.credentials, missing,
      h.missing, tags, htags, folders, hfolders, paths, hpaths, rfl⟩
  · rw [mem_exportChanges hpaths, mem_exportChanges hfolders, mem_exportChanges htags,
      exists_isStaged_iff]
    simp [sharedFileTypes, or_assoc]

theorem exports_of_exportFiles {exported : List Path × List SourceControlledFile}
    (h : p.exportFiles files = .ok exported) : ∃ missing, p.Exports files missing := by
  simp only [exportFiles, bind_eq_ok, perform_eq_ok] at h
  obtain ⟨-, hworkflows, -, hcredentials, missing, hmissing, tags, htags, folders, hfolders, paths,
    hpaths, -⟩ := h
  refine ⟨missing, hworkflows, hcredentials, hmissing, fun shared hshared => ?_⟩
  simp only [sharedFileTypes, List.mem_cons, List.not_mem_nil, or_false] at hshared
  obtain rfl | rfl | rfl := hshared
  · exact (exportChanges_eq_ok.mp htags).1
  · exact (exportChanges_eq_ok.mp hfolders).1
  · exact (exportChanges_eq_ok.mp hpaths).1

theorem exists_exports_iff (h : p.Exports files missing) {S : List Path → Prop} :
    (∃ missing, p.Exports files missing ∧ S missing) ↔ S missing := by
  refine ⟨?_, fun hS => ⟨missing, h, hS⟩⟩
  rintro ⟨missing', h', hS⟩
  cases h.missing.symm.trans h'.missing
  exact hS

end Exporting

section Pushing

variable {p} {files : List SourceControlledFile}

theorem pushFiles_of_error (h : ¬ ∃ missing, p.Exports files missing) :
    ∃ error, p.pushFiles files =
      { answer := .error error, deleted := (partitionFiles files).filesToBeDeleted } := by
  cases hexport : p.exportFiles files with
  | error error => exact ⟨error, by simp only [pushFiles, hexport]⟩
  | ok exported => exact absurd (exports_of_exportFiles hexport) h

/-- If the exports succeed, the staged entries are staged unless that throws, and the others are
reported if the commit and the push of the branch do not throw either. -/
theorem pushFiles_of_exports {missing : List Path} (h : p.Exports files missing) :
    ∃ paths, (∀ path, path ∈ paths ↔ ∃ e ∈ files, IsStaged files missing e ∧ e.file = path) ∧
      (p.pushFiles files).files =
        (if p.throws .stage then [] else paths) ++ (partitionFiles files).filesToBeDeleted ∧
      (p.pushFiles files).results =
        if p.throws .stage || p.throws .commit || p.throws .push then []
        else (files.filter fun e => e.file ∉ missing).map
          fun result => { result with pushed := some true } := by
  obtain ⟨paths, hexport, hpaths⟩ := exportFiles_of_exports h
  refine ⟨paths, hpaths, ?_⟩
  simp only [pushFiles, hexport]
  cases hstage : p.throws .stage with
  | true =>
    rw [perform_of_throws hstage]
    exact ⟨rfl, rfl⟩
  | false =>
    rw [perform_of_not_throws hstage]
    cases hcommit : p.throws .commit with
    | true =>
      rw [perform_of_throws hcommit]
      exact ⟨rfl, rfl⟩
    | false =>
      rw [perform_of_not_throws hcommit]
      cases hpush : p.throws .push with
      | true =>
        rw [perform_of_throws hpush]
        exact ⟨rfl, rfl⟩
      | false =>
        rw [perform_of_not_throws hpush]
        exact ⟨rfl, rfl⟩

theorem mem_files_pushFiles {path : Path} :
    path ∈ (p.pushFiles files).files ↔
      (∃ e ∈ files, IsDeleted e ∧ e.file = path) ∨
        ∃ missing, p.Exports files missing ∧ p.throws .stage = false ∧
          ∃ e ∈ files, IsStaged files missing e ∧ e.file = path := by
  rw [← mem_filesToBeDeleted]
  by_cases hexports : ∃ missing, p.Exports files missing
  · obtain ⟨missing, hexports⟩ := hexports
    obtain ⟨paths, hpaths, hfiles, -⟩ := pushFiles_of_exports hexports
    rw [hfiles, exists_exports_iff hexports, List.mem_append, or_comm, ← hpaths]
    cases p.throws .stage <;> simp
  · obtain ⟨error, heq⟩ := pushFiles_of_error hexports
    have hnone : ¬ ∃ missing, p.Exports files missing ∧ p.throws .stage = false ∧
        ∃ e ∈ files, IsStaged files missing e ∧ e.file = path :=
      fun ⟨missing, h, _⟩ => hexports ⟨missing, h⟩
    rw [heq, or_iff_left hnone]
    rfl

theorem mem_results_pushFiles {result : SourceControlledFile} :
    result ∈ (p.pushFiles files).results ↔
      ∃ missing, p.Exports files missing ∧ p.throws .stage = false ∧ p.throws .commit = false ∧
        p.throws .push = false ∧
          ∃ e ∈ files, e.file ∉ missing ∧ { e with pushed := some true } = result := by
  by_cases hexports : ∃ missing, p.Exports files missing
  · obtain ⟨missing, hexports⟩ := hexports
    obtain ⟨paths, -, -, hresults⟩ := pushFiles_of_exports hexports
    rw [hresults, exists_exports_iff hexports]
    cases p.throws .stage <;> cases p.throws .commit <;> cases p.throws .push <;>
      simp [and_assoc]
  · obtain ⟨error, heq⟩ := pushFiles_of_error hexports
    rw [heq]
    exact iff_of_false List.not_mem_nil fun ⟨missing, h, _⟩ => hexports ⟨missing, h⟩

theorem trustsStatus_pushFiles :
    p.TrustsStatus (p.pushFiles files) ↔ p.EntriesVerified files := by
  rw [trustsStatus_iff]
  constructor
  · rintro ⟨hfiles, hresults⟩
    refine ⟨fun e hmem hdeleted => ?_, fun missing hexports hstage e hmem hstaged => ?_,
      fun missing hexports hstage hcommit hpush e hmem hmissing => ?_⟩
    · exact hfiles e.file (mem_files_pushFiles.mpr (Or.inl ⟨e, hmem, hdeleted, rfl⟩))
    · exact hfiles e.file
        (mem_files_pushFiles.mpr (Or.inr ⟨missing, hexports, hstage, e, hmem, hstaged, rfl⟩))
    · exact hresults { e with pushed := some true } (mem_results_pushFiles.mpr
        ⟨missing, hexports, hstage, hcommit, hpush, e, hmem, hmissing, rfl⟩)
  · intro h
    refine ⟨fun path hpath => ?_, fun result hresult => ?_⟩
    · obtain ⟨e, hmem, hdeleted, rfl⟩ | ⟨missing, hexports, hstage, e, hmem, hstaged, rfl⟩ :=
        mem_files_pushFiles.mp hpath
      · exact h.deleted e hmem hdeleted
      · exact h.staged missing hexports hstage e hmem hstaged
    · obtain ⟨missing, hexports, hstage, hcommit, hpush, e, hmem, hmissing, rfl⟩ :=
        mem_results_pushFiles.mp hresult
      exact h.reported missing hexports hstage hcommit hpush e hmem hmissing

end Pushing

section Selecting

variable {p} {fileNames files : List SourceControlledFile}

theorem getStatus_push_eq_ok {resources : List SourceControlledFile} :
    (getStatus { direction := .push, preferLocalVersion := true } p.toStatusContext).mapError
        PushError.sourceControl = .ok resources ↔
      p.isSetUp = true ∧ p.isFetched = true ∧ resources = p.resources := by
  unfold getStatus
  cases p.isSetUp with
  | false => exact iff_of_false (fun h => by cases h) (by simp)
  | true =>
    cases p.isFetched with
    | false => exact iff_of_false (fun h => by cases h) (by simp)
    | true =>
      refine ⟨fun h => ?_, ?_⟩
      · cases h
        exact ⟨rfl, rfl, rfl⟩
      · rintro ⟨-, -, rfl⟩
        rfl

theorem filesToPush_eq_ok :
    p.filesToPush fileNames = .ok files ↔
      p.isSetUp = true ∧ p.isFetched = true ∧ p.isBranchReadOnly = false ∧
        ((fileNames = [] ∧ files = p.resources) ∨
          (fileNames ≠ [] ∧ p.normalizedFiles fileNames = .ok files ∧
            ∀ e ∈ files, p.isAllowed e = true)) := by
  unfold filesToPush
  cases hsetUp : p.isSetUp with
  | false => exact iff_of_false (fun h => by cases h) (by simp)
  | true =>
    cases hreadOnly : p.isBranchReadOnly with
    | true => exact iff_of_false (fun h => by cases h) (by simp)
    | false =>
      simp only [Bool.not_true, Bool.false_eq_true, if_false, bind_eq_ok, getStatus_push_eq_ok]
      constructor
      · rintro ⟨normalized, hnormalized, resources, ⟨-, hfetched, rfl⟩, h⟩
        refine ⟨trivial, hfetched, trivial, ?_⟩
        by_cases hempty : normalized = []
        · subst hempty
          cases h
          exact Or.inl ⟨eq_nil_of_mapM_eq_nil hnormalized, rfl⟩
        · rw [if_neg (by simpa using hempty)] at h
          split at h
          · cases h
          · rename_i hallowed
            cases h
            refine Or.inr ⟨?_, hnormalized, by simpa using hallowed⟩
            rintro rfl
            cases hnormalized
            exact hempty rfl
      · rintro ⟨-, hfetched, -, ⟨rfl, rfl⟩ | ⟨hne, hnormalized, hallowed⟩⟩
        · exact ⟨[], rfl, p.resources, ⟨hsetUp, hfetched, rfl⟩, rfl⟩
        · have hempty : files ≠ [] := fun h => hne (eq_nil_of_mapM_eq_nil (h ▸ hnormalized))
          refine ⟨files, hnormalized, p.resources, ⟨hsetUp, hfetched, rfl⟩, ?_⟩
          rw [if_neg (by simpa using hempty), if_neg (by simpa using hallowed)]
          rfl

end Selecting

section GitFolder

variable {p}

theorem contained_of_safeJoinPath {parentPath path candidate : Path}
    (h : p.safeJoinPath parentPath path = .ok candidate) :
    candidate = join parentPath path ∧ p.isContainedWithin parentPath candidate = true := by
  simp only [safeJoinPath] at h
  split at h
  · rename_i hcontained
    cases h
    exact ⟨rfl, hcontained⟩
  · cases h

/-- A path that passes the check is absolute and in the git folder, also where the path of the
client was relative. -/
theorem contained_of_normalized {gitFolderPath filePath path : Path}
    (h : p.normalizeAndValidateSourceControlledFilePath gitFolderPath filePath = .ok path) :
    isAbsolute path = true ∧ p.isContainedWithin gitFolderPath path = true := by
  unfold normalizeAndValidateSourceControlledFilePath at h
  cases hfolder : isAbsolute gitFolderPath with
  | false =>
    rw [hfolder] at h
    cases h
  | true =>
    rw [hfolder] at h
    obtain ⟨normalizedPath, hnormalized, h⟩ := bind_eq_ok.mp h
    cases hcontained : p.isContainedWithin gitFolderPath filePath with
    | false =>
      rw [hcontained] at h
      cases h
    | true =>
      rw [hcontained] at h
      cases h
      -- an absolute path is kept as it is, and a joined one is checked by the join
      cases habsolute : isAbsolute filePath with
      | true =>
        rw [habsolute] at hnormalized
        cases hnormalized
        exact ⟨habsolute, hcontained⟩
      | false =>
        rw [habsolute] at hnormalized
        obtain ⟨rfl, hjoined⟩ := contained_of_safeJoinPath hnormalized
        exact ⟨isAbsolute_join hfolder, hjoined⟩

/-- What a client lets a push stage and delete is in the git folder. -/
theorem files_in_gitFolder {options : PushWorkFolderRequest} (hne : options.fileNames ≠ []) :
    ∀ path ∈ (p.pushWorkfolder options).files,
      isAbsolute path = true ∧ p.isContainedWithin p.gitFolder path = true := by
  intro path hpath
  unfold pushWorkfolder at hpath
  cases hfiles : p.filesToPush options.fileNames with
  | error error =>
    rw [hfiles] at hpath
    exact absurd hpath List.not_mem_nil
  | ok files =>
    simp only [hfiles] at hpath
    split at hpath
    · exact absurd hpath List.not_mem_nil
    · obtain ⟨-, -, -, ⟨hempty, -⟩ | ⟨-, hnormalized, -⟩⟩ := filesToPush_eq_ok.mp hfiles
      · exact absurd hempty hne
      · have hmem : ∃ e ∈ files, e.file = path := by
          obtain ⟨e, hmem, -, hfile⟩ | ⟨-, -, -, e, hmem, -, hfile⟩ :=
            mem_files_pushFiles.mp hpath
          · exact ⟨e, hmem, hfile⟩
          · exact ⟨e, hmem, hfile⟩
        obtain ⟨e, hmem, rfl⟩ := hmem
        obtain ⟨file, -, hfile⟩ := exists_of_mem_mapM hnormalized hmem
        cases hpath' :
            p.normalizeAndValidateSourceControlledFilePath p.gitFolder file.file with
        | error error =>
          rw [hpath'] at hfile
          cases hfile
        | ok normalizedPath =>
          rw [hpath'] at hfile
          cases hfile
          exact contained_of_normalized hpath'

end GitFolder

section Client

variable {p} {fileNames files : List SourceControlledFile}

theorem filesToPush_of_accepts (h : p.Accepts fileNames files) :
    p.filesToPush fileNames = .ok files :=
  filesToPush_eq_ok.mpr ⟨h.isSetUp, h.isFetched, h.writable,
    Or.inr ⟨h.nonempty, h.normalized, h.allowed⟩⟩

theorem trustsStatus_of_untouched {outcome : PushOutcome} (hfiles : outcome.files = [])
    (hresults : outcome.results = []) : p.TrustsStatus outcome := by
  rw [trustsStatus_iff, hfiles, hresults]
  exact ⟨fun _ h => absurd h List.not_mem_nil, fun _ h => absurd h List.not_mem_nil⟩

theorem entriesVerified_resources (h : ∀ resource ∈ p.resources, resource.conflict = false) :
    p.EntriesVerified p.resources := by
  have hverified : ∀ e ∈ p.resources, p.Verified e.file :=
    fun e hmem => ⟨⟨e, hmem, rfl⟩, fun resource hresource _ => h resource hresource⟩
  refine ⟨fun e hmem _ => hverified e hmem, fun _ _ _ e hmem _ => hverified e hmem, ?_⟩
  rintro - - - - - - - - ⟨resource, hresource, hconflict, -⟩
  rw [h resource hresource] at hconflict
  cases hconflict

/-- Without force, a push keeps resources in conflict out, and stages and deletes the files of
allowed resources only, exactly when the entries of a request that is let through are verified. -/
theorem push_trusts_status :
    p.TrustsStatus (p.pushWorkfolder { force := false, fileNames := fileNames }) ↔
      ∀ files, p.Accepts fileNames files → p.EntriesVerified files := by
  unfold pushWorkfolder
  cases hfiles : p.filesToPush fileNames with
  | error error =>
    refine iff_of_true (trustsStatus_of_untouched rfl rfl) fun files haccepts => ?_
    cases hfiles.symm.trans (filesToPush_of_accepts haccepts)
  | ok files =>
    have hunique : ∀ files', p.Accepts fileNames files' → files' = files := fun files' haccepts =>
      Except.ok.inj ((filesToPush_of_accepts haccepts).symm.trans hfiles)
    cases hflags : files.any (·.conflict) with
    | true =>
      -- a flagged entry sends the request back, and nothing is touched
      obtain ⟨e, hmem, hconflict⟩ := List.any_eq_true.mp hflags
      refine iff_of_true (trustsStatus_of_untouched ?_ ?_) fun files' haccepts => ?_
      · simp only [hflags]
        rfl
      · simp only [hflags]
        rfl
      · cases hunique files' haccepts
        rw [haccepts.unflagged e hmem] at hconflict
        cases hconflict
    | false =>
      have hunflagged : ∀ e ∈ files, e.conflict = false := by simpa using hflags
      simp only [hflags, Bool.not_false, Bool.and_false, Bool.false_eq_true, if_false,
        trustsStatus_pushFiles]
      obtain ⟨hsetUp, hfetched, hreadOnly, ⟨rfl, rfl⟩ | ⟨hne, hnormalized, hallowed⟩⟩ :=
        filesToPush_eq_ok.mp hfiles
      · -- without entries the flags are those of the status
        exact iff_of_true (entriesVerified_resources hunflagged)
          fun files' haccepts => absurd rfl haccepts.nonempty
      · refine ⟨fun h files' haccepts => hunique files' haccepts ▸ h, fun h => ?_⟩
        exact h files ⟨hsetUp, hfetched, hreadOnly, hne, hnormalized, hallowed, hunflagged⟩

/-- One side with workflows and nothing else. -/
def withWorkflows (workflows : List SourceControlWorkflowVersionId)
    (workflows_nodup : (workflows.map (·.id)).Nodup) : Resources where
  workflows := workflows
  workflows_nodup := workflows_nodup
  credentials := []
  credentials_nodup := List.nodup_nil
  vars := []
  vars_nodup := List.nodup_nil
  tags := []
  tags_nodup := List.nodup_nil
  mappings := []
  folders := []
  folders_nodup := List.nodup_nil

/-- A version of a workflow, with its file in the git folder. -/
def workflowVersion (id versionId : List Char) : SourceControlWorkflowVersionId where
  id := id
  versionId := versionId
  filename := "/home/node/.n8n/git/workflows/".toList ++ id ++ ".json".toList
  name := some id
  parentFolderId := some none

/-- The user has the workflows `A`, which was changed on both sides, and `B`, which is new. The
workflow `C` belongs to another user. -/
def changedOnBothSides : PushContext where
  isSetUp := true
  isFetched := true
  hasAccessToAllProjects := false
  hasPullScope := true
  ours := withWorkflows [workflowVersion ['A'] ['2'], workflowVersion ['B'] ['1']] (by decide)
  theirs := withWorkflows [workflowVersion ['A'] ['1']] (by decide)
  allLocalWorkflows :=
    [workflowVersion ['A'] ['2'], workflowVersion ['B'] ['1'], workflowVersion ['C'] ['1']]
  variablesPath := "/home/node/.n8n/git/variable_stubs.json".toList
  tagsPath := "/home/node/.n8n/git/tags.json".toList
  foldersPath := "/home/node/.n8n/git/folders.json".toList
  gitFolder := "/home/node/.n8n/git".toList
  cwd := "/home/node".toList
  cwd_isAbsolute := by decide
  isBranchReadOnly := false
  ownedCredentials := []
  throws := fun _ => false

/-- An entry that is not flagged. -/
def unflaggedEntry (id fileId : List Char) (status : FileStatus) : SourceControlledFile where
  file := "/home/node/.n8n/git/workflows/".toList ++ fileId ++ ".json".toList
  id := id
  name := id
  type := .workflow
  status := status
  location := .localSide
  conflict := false

/-- The client does not flag `A`, and sends `B` as deleted, with the file of `C`: the file of `A` is
staged, and that of `C` is deleted. -/
theorem client_fields_trusted :
    ¬ changedOnBothSides.TrustsStatus (changedOnBothSides.pushWorkfolder
      { force := false
        fileNames := [unflaggedEntry ['A'] ['A'] .modified,
          unflaggedEntry ['B'] ['C'] .deleted] }) := by
  intro h
  have hfiles : (changedOnBothSides.pushWorkfolder
      { force := false
        fileNames := [unflaggedEntry ['A'] ['A'] .modified,
          unflaggedEntry ['B'] ['C'] .deleted] }).files =
      ["/home/node/.n8n/git/workflows/A.json".toList,
        "/home/node/.n8n/git/workflows/C.json".toList] := by decide +kernel
  have hconflict : ∃ resource ∈ changedOnBothSides.resources, resource.conflict = true ∧
      resource.file = "/home/node/.n8n/git/workflows/A.json".toList := by decide +kernel
  obtain ⟨resource, hresource, hconflict, hfile⟩ := hconflict
  refine (h.conflicts resource hresource hconflict).1 resource.file ?_ rfl
  rw [hfiles, hfile]
  exact List.mem_cons_self

/-- The file of another user that is deleted with `B` is in the git folder as well. -/
theorem files_in_gitFolder_deleted : (changedOnBothSides.pushWorkfolder
      { force := false, fileNames := [unflaggedEntry ['B'] ['C'] .deleted] }).files.all fun path =>
    isAbsolute path = true ∧
      changedOnBothSides.isContainedWithin changedOnBothSides.gitFolder path = true :=
  List.all_eq_true.mpr fun path hpath =>
    decide_eq_true (files_in_gitFolder (List.cons_ne_nil _ _) path hpath)

end Client

end PushContext

end N8n.SourceControl
