import Mathlib.Data.List.Pairwise
import N8n.SourceControl.Status
import N8n.Text.Equality

/-!
# What the status lists

A status lists the workflows, credentials and folders that differ, each once. A variable that has
one key under two ids is compared with the wrong variable, and a tag whose mappings differ is not
listed, although they are compared.
-/

namespace N8n.SourceControl

open Collections

variable {options : SourceControlGetStatus} {s : StatusContext}

section Differences

/-- The workflows of the work folder that are not hidden from the user. -/
def visibleWorkflows (s : StatusContext) : List SourceControlWorkflowVersionId :=
  missingFrom (·.id) s.theirs.workflows (outOfScopeWF s)

def credentialChanged (ours theirs : StatusExportableCredential) : Bool :=
  theirs.name ≠ ours.name || theirs.type ≠ ours.type

def variableChanged (ours theirs : Variable) : Bool := theirs.key ≠ ours.key

def tagNameChanged (ours theirs : Tag) : Bool := theirs.name ≠ ours.name

def folderChanged (ours theirs : ExportableFolder) : Bool :=
  theirs.name ≠ ours.name || theirs.parentFolderId ≠ ours.parentFolderId

/-- The workflows that a tag is mapped to. -/
def mappedTo (resources : Resources) (tagId : ResourceId) : List ResourceId :=
  (resources.mappings.filter (·.tagId = tagId)).map (·.workflowId)

/-- Is the tag mapped to the same workflows on both sides? -/
def mappingsAgree (s : StatusContext) (tagId : ResourceId) : Bool :=
  (mappedTo s.ours tagId).all (· ∈ mappedTo s.theirs tagId) &&
    (mappedTo s.theirs tagId).all (· ∈ mappedTo s.ours tagId)

/-- A tag is compared by its name and its mappings. -/
def tagChanged (s : StatusContext) (ours theirs : Tag) : Bool :=
  tagNameChanged ours theirs || !mappingsAgree s ours.id

/-- Does a resource differ on the two sides: is it missing on one, or different in what is
compared? -/
def Differs (s : StatusContext) : FileType → ResourceId → Prop
  | .workflow => DiffersAt (·.id) isWorkflowModified s.ours.workflows (visibleWorkflows s)
  | .credential => DiffersAt (·.id) credentialChanged s.ours.credentials s.theirs.credentials
  | .vars => DiffersAt (·.id) variableChanged s.ours.vars s.theirs.vars
  | .tags => DiffersAt (·.id) (tagChanged s) s.ours.tags s.theirs.tags
  | .folders => DiffersAt (·.id) folderChanged s.ours.folders s.theirs.folders
  | .file => fun _ => False

end Differences

section Parts

/-- The files of a status of one type. -/
def filesOf (options : SourceControlGetStatus) (s : StatusContext) :
    FileType → List SourceControlledFile
  | .workflow => getStatusWorkflows options s
  | .credential => getStatusCredentials options s
  | .vars => getStatusVariables options s
  | .tags => getStatusTagsMappings options s
  | .folders => getStatusFoldersMapping options s
  | .file => []

/-- The resources of a type are listed exactly. -/
def ListsExactly (options : SourceControlGetStatus) (s : StatusContext) (type : FileType) : Prop :=
  ((filesOf options s type).map (·.id)).Nodup ∧
    ∀ id, id ∈ (filesOf options s type).map (·.id) ↔ Differs s type id

theorem type_of_mem_filesOf {type : FileType} {file : SourceControlledFile}
    (h : file ∈ filesOf options s type) : file.type = type := by
  have hlist : ∀ {α : Type} {l : List α} {f : α → SourceControlledFile},
      (∀ a, (f a).type = type) → file ∈ l.map f → file.type = type := by
    intro α l f hf hmem
    obtain ⟨a, -, rfl⟩ := List.mem_map.mp hmem
    exact hf a
  cases type with
  | file => exact absurd h List.not_mem_nil
  | _ =>
    obtain h | h := List.mem_append.mp h
    · obtain h | h := List.mem_append.mp h
      · exact hlist (fun _ => rfl) h
      · exact hlist (fun _ => rfl) h
    · exact hlist (fun _ => rfl) h

/-- The types in the order of a status. -/
def fileTypes : List FileType := [.workflow, .credential, .vars, .tags, .folders, .file]

theorem mem_fileTypes (type : FileType) : type ∈ fileTypes := by
  cases type <;> decide

theorem sourceControlledFiles_eq (options : SourceControlGetStatus) (s : StatusContext) :
    sourceControlledFiles options s = fileTypes.flatMap (filesOf options s) := by
  simp [sourceControlledFiles, fileTypes, filesOf]

theorem listed_iff {type : FileType} {id : ResourceId} :
    (∃ file ∈ sourceControlledFiles options s, file.type = type ∧ file.id = id) ↔
      id ∈ (filesOf options s type).map (·.id) := by
  rw [sourceControlledFiles_eq]
  constructor
  · rintro ⟨file, hmem, rfl, rfl⟩
    obtain ⟨type, -, hmem⟩ := List.mem_flatMap.mp hmem
    cases type_of_mem_filesOf hmem
    exact List.mem_map_of_mem hmem
  · intro h
    obtain ⟨file, hmem, rfl⟩ := List.mem_map.mp h
    exact ⟨file, List.mem_flatMap.mpr ⟨type, mem_fileTypes type, hmem⟩, type_of_mem_filesOf hmem,
      rfl⟩

theorem nodup_iff :
    ((sourceControlledFiles options s).map fun file => (file.type, file.id)).Nodup ↔
      ∀ type, ((filesOf options s type).map (·.id)).Nodup := by
  have hpair : ∀ type, ((filesOf options s type).map fun file => (file.type, file.id)) =
      ((filesOf options s type).map (·.id)).map (Prod.mk type) := by
    intro type
    rw [List.map_map]
    refine List.map_congr_left fun file hmem => ?_
    rw [Function.comp_apply, type_of_mem_filesOf hmem]
  have hinj : ∀ type : FileType, Function.Injective (Prod.mk (β := ResourceId) type) :=
    fun _ _ _ heq => (Prod.mk.inj heq).2
  rw [sourceControlledFiles_eq, List.map_flatMap, List.nodup_flatMap]
  constructor
  · rintro ⟨hparts, -⟩ type
    have hnodup := hparts type (mem_fileTypes type)
    rw [hpair] at hnodup
    exact hnodup.of_map _
  · intro h
    refine ⟨fun type _ => ?_, ?_⟩
    · rw [hpair]
      exact (h type).map (hinj type)
    · have hdistinct : fileTypes.Pairwise (· ≠ ·) := by decide
      refine hdistinct.imp fun hne pair hmem hmem' => hne ?_
      dsimp only at hmem hmem'
      rw [hpair] at hmem hmem'
      obtain ⟨_, -, rfl⟩ := List.mem_map.mp hmem
      obtain ⟨_, -, heq⟩ := List.mem_map.mp hmem'
      exact (Prod.mk.inj heq).1.symm

end Parts

section Listings

theorem map_id_files {α : Type} {key : α → ResourceId} {ours theirs modified : List α}
    {missing created changed : α → SourceControlledFile} (hmissing : ∀ a, (missing a).id = key a)
    (hcreated : ∀ a, (created a).id = key a) (hchanged : ∀ a, (changed a).id = key a) :
    ((missingFrom key theirs ours).map missing ++ (missingFrom key ours theirs).map created ++
        modified.map changed).map (·.id) =
      listing key ours theirs (modified.map key) := by
  rw [List.map_append, List.map_append, List.map_map, List.map_map, List.map_map, listing]
  congr 1
  · congr 1
    · exact List.map_congr_left fun a _ => hmissing a
    · exact List.map_congr_left fun a _ => hcreated a
  · exact List.map_congr_left fun a _ => hchanged a

theorem listsExactly_of_changedKeys {α : Type} {key : α → ResourceId} {changed : α → α → Bool}
    {ours theirs : List α} (hours : (ours.map key).Nodup) (htheirs : (theirs.map key).Nodup) :
    (listing key ours theirs (changedKeys key changed ours theirs)).Nodup ∧
      ∀ k, k ∈ listing key ours theirs (changedKeys key changed ours theirs) ↔
        DiffersAt key changed ours theirs k :=
  (listing_exact_iff hours htheirs _).mpr (changedKeys_exact hours)

theorem credentials_exact : ListsExactly options s .credential := by
  have hmodified : (credModifiedInEither options s).map (·.id) =
      changedKeys (·.id) credentialChanged s.ours.credentials s.theirs.credentials := by
    refine map_filterMap_eq_changedKeys (fun _ _ => Option.isSome_map) fun ours _ listed h => ?_
    obtain ⟨theirs, -, rfl⟩ := Option.map_eq_some_iff.mp h
    rfl
  have hids : (filesOf options s .credential).map (·.id) =
      listing (·.id) s.ours.credentials s.theirs.credentials
        (changedKeys (·.id) credentialChanged s.ours.credentials s.theirs.credentials) := by
    rw [← hmodified]
    exact map_id_files (fun _ => rfl) (fun _ => rfl) (fun _ => rfl)
  rw [ListsExactly, hids]
  exact listsExactly_of_changedKeys s.ours.credentials_nodup s.theirs.credentials_nodup

theorem folders_exact : ListsExactly options s .folders := by
  have hmodified : (foldersModifiedInEither options s).map (·.id) =
      changedKeys (·.id) folderChanged s.ours.folders s.theirs.folders := by
    refine map_filterMap_eq_changedKeys (fun _ _ => Option.isSome_map) fun ours _ listed h => ?_
    obtain ⟨theirs, hfind, rfl⟩ := Option.map_eq_some_iff.mp h
    have hfound := List.find?_some hfind
    rw [Bool.and_eq_true, decide_eq_true_iff] at hfound
    split
    · rfl
    · exact hfound.1
  have hids : (filesOf options s .folders).map (·.id) =
      listing (·.id) s.ours.folders s.theirs.folders
        (changedKeys (·.id) folderChanged s.ours.folders s.theirs.folders) := by
    rw [← hmodified]
    exact map_id_files (fun _ => rfl) (fun _ => rfl) (fun _ => rfl)
  rw [ListsExactly, hids]
  exact listsExactly_of_changedKeys s.ours.folders_nodup s.theirs.folders_nodup

theorem ours_not_outOfScope {workflow : SourceControlWorkflowVersionId}
    (h : workflow ∈ s.ours.workflows) : workflow.id ∉ (outOfScopeWF s).map (·.id) := by
  unfold outOfScopeWF
  split
  · exact List.not_mem_nil
  · intro hmem
    exact (mem_map_missingFrom.mp hmem).2 (List.mem_map_of_mem h)

theorem mem_visibleWorkflows {workflow : SourceControlWorkflowVersionId} :
    workflow ∈ visibleWorkflows s ↔
      workflow ∈ s.theirs.workflows ∧ workflow.id ∉ (outOfScopeWF s).map (·.id) := by
  rw [visibleWorkflows, missingFrom, List.mem_filter, Option.isNone_iff_eq_none, List.find?_eq_none,
    List.mem_map]
  simp only [decide_eq_true_eq, not_exists, not_and]

theorem visibleWorkflows_nodup : ((visibleWorkflows s).map (·.id)).Nodup :=
  nodup_missingFrom s.theirs.workflows_nodup

theorem workflow_parts (options : SourceControlGetStatus) (s : StatusContext) :
    missingFrom (·.id) (missingFrom (·.id) s.theirs.workflows s.ours.workflows) (outOfScopeWF s) =
        missingFrom (·.id) (visibleWorkflows s) s.ours.workflows ∧
      missingFrom (·.id) s.ours.workflows s.theirs.workflows =
        missingFrom (·.id) s.ours.workflows (visibleWorkflows s) ∧
      (wfModifiedInEither options s).map (·.id) =
        changedKeys (·.id) isWorkflowModified s.ours.workflows (visibleWorkflows s) := by
  refine ⟨?_, ?_, ?_⟩
  · rw [visibleWorkflows, missingFrom, missingFrom, missingFrom, missingFrom, List.filter_filter,
      List.filter_filter]
    exact List.filter_congr fun _ _ => Bool.and_comm _ _
  · refine List.filter_congr fun workflow hmem => ?_
    rw [Bool.eq_iff_iff, Option.isNone_iff_eq_none, Option.isNone_iff_eq_none, List.find?_eq_none,
      List.find?_eq_none]
    simp only [decide_eq_true_eq]
    constructor
    · exact fun h theirs htheirs => h theirs (mem_visibleWorkflows.mp htheirs).1
    · intro h theirs htheirs heq
      refine h theirs (mem_visibleWorkflows.mpr ⟨htheirs, ?_⟩) heq
      rw [heq]
      exact ours_not_outOfScope hmem
  · refine map_filterMap_eq_changedKeys (fun ours hours => ?_) fun ours hours listed h => ?_
    · rw [Bool.eq_iff_iff, List.find?_isSome]
      simp only [Bool.and_eq_true, decide_eq_true_eq]
      constructor
      · intro h
        split at h
        · cases h
        · rename_i theirs hfind
          have hid : theirs.id = ours.id := by simpa using List.find?_some hfind
          refine ⟨theirs, mem_visibleWorkflows.mpr ⟨List.mem_of_find?_eq_some hfind, ?_⟩, hid, ?_⟩
          · rw [hid]
            exact ours_not_outOfScope hours
          · by_contra hsame
            rw [if_neg hsame] at h
            cases h
      · rintro ⟨theirs, htheirs, hid, hmodified⟩
        have hmem := (mem_visibleWorkflows.mp htheirs).1
        split
        · rename_i hnone
          exact absurd hid (by simpa using List.find?_eq_none.mp hnone theirs hmem)
        · rename_i found hfind
          have hsame : found.id = ours.id := by simpa using List.find?_some hfind
          -- ids are distinct there, so the workflow that is found is the visible one
          cases List.inj_on_of_nodup_map s.theirs.workflows_nodup hmem
            (List.mem_of_find?_eq_some hfind) (hid.trans hsame.symm)
          rw [if_pos hmodified]
          rfl
    · split at h
      · cases h
      · obtain ⟨-, h⟩ := Option.ite_none_right_eq_some.mp h
        cases h
        rfl

theorem workflows_exact : ListsExactly options s .workflow := by
  obtain ⟨hmissing, hcreated, hmodified⟩ := workflow_parts options s
  have hids : (filesOf options s .workflow).map (·.id) =
      listing (·.id) s.ours.workflows (visibleWorkflows s)
        (changedKeys (·.id) isWorkflowModified s.ours.workflows (visibleWorkflows s)) := by
    rw [filesOf, getStatusWorkflows, hmissing, hcreated, ← hmodified]
    exact map_id_files (fun _ => rfl) (fun _ => rfl) (fun _ => rfl)
  rw [ListsExactly, hids]
  exact listsExactly_of_changedKeys s.ours.workflows_nodup visibleWorkflows_nodup

end Listings

section Tags

/-- The mappings of a tag are the same on both sides where its name is. -/
def MappingsAgree (s : StatusContext) : Prop :=
  ∀ ours ∈ s.ours.tags, ∀ theirs ∈ s.theirs.tags, theirs.id = ours.id →
    theirs.name = ours.name → mappingsAgree s ours.id = true

theorem tags_exact_iff : ListsExactly options s .tags ↔ MappingsAgree s := by
  have hmodified : (tagsModifiedInEither options s).map (·.id) =
      changedKeys (·.id) tagNameChanged s.ours.tags s.theirs.tags := by
    refine map_filterMap_eq_changedKeys (fun _ _ => Option.isSome_map) fun ours _ listed h => ?_
    obtain ⟨theirs, hfind, rfl⟩ := Option.map_eq_some_iff.mp h
    have hfound := List.find?_some hfind
    rw [Bool.and_eq_true, decide_eq_true_iff] at hfound
    split
    · rfl
    · exact hfound.1
  have hids : (filesOf options s .tags).map (·.id) =
      listing (·.id) s.ours.tags s.theirs.tags
        (changedKeys (·.id) tagNameChanged s.ours.tags s.theirs.tags) := by
    rw [← hmodified]
    exact map_id_files (fun _ => rfl) (fun _ => rfl) (fun _ => rfl)
  have hexact : (changedKeys (·.id) tagNameChanged s.ours.tags s.theirs.tags).Nodup ∧
      ∀ id, id ∈ changedKeys (·.id) tagNameChanged s.ours.tags s.theirs.tags ↔
        ChangedAt (·.id) tagNameChanged s.ours.tags s.theirs.tags id :=
    changedKeys_exact s.ours.tags_nodup
  obtain ⟨hnodup, hkeys⟩ := hexact
  rw [ListsExactly, hids]
  refine (listing_exact_iff s.ours.tags_nodup s.theirs.tags_nodup _).trans ?_
  simp only [hkeys]
  constructor
  · rintro ⟨-, hiff⟩ ours hours theirs htheirs hid hname
    by_contra hdisagree
    have hchanged : tagChanged s ours theirs = true := by
      rw [tagChanged, Bool.eq_false_iff.mpr hdisagree, Bool.not_false, Bool.or_true]
    obtain ⟨ours', hours', theirs', htheirs', hid', hid'', hnames⟩ :=
      (hiff ours.id).mpr ⟨ours, hours, theirs, htheirs, rfl, hid, hchanged⟩
    cases List.inj_on_of_nodup_map s.ours.tags_nodup hours' hours hid'
    cases List.inj_on_of_nodup_map s.theirs.tags_nodup htheirs' htheirs (hid''.trans hid.symm)
    simp [tagNameChanged, hname] at hnames
  · intro hagree
    refine ⟨hnodup, fun id => ⟨?_, ?_⟩⟩
    · rintro ⟨ours, hours, theirs, htheirs, hid, hid', hname⟩
      exact ⟨ours, hours, theirs, htheirs, hid, hid', by simp [tagChanged, hname]⟩
    · rintro ⟨ours, hours, theirs, htheirs, rfl, hid, hchanged⟩
      refine ⟨ours, hours, theirs, htheirs, rfl, hid, ?_⟩
      rw [tagNameChanged, decide_eq_true_iff]
      intro hname
      simp [tagChanged, tagNameChanged, hname, hagree ours hours theirs htheirs hid hname]
        at hchanged

end Tags

section Vars

/-- The first variable of the work folder that mismatches one here has its id. -/
def MismatchesOwn (s : StatusContext) : Prop :=
  ∀ ours ∈ s.ours.vars, ∀ theirs ∈ s.theirs.vars.find? (variablesMismatch ours),
    theirs.id = ours.id

theorem variablesMismatch_of_id {ours theirs : Variable} (hid : theirs.id = ours.id) :
    variablesMismatch ours theirs = true ↔ variableChanged ours theirs = true := by
  simp [variablesMismatch, variableChanged, hid]

theorem vars_ids (options : SourceControlGetStatus) (s : StatusContext) :
    (filesOf options s .vars).map (·.id) =
      listing (·.id) s.ours.vars s.theirs.vars ((varModifiedInEither options s).map (·.id)) :=
  map_id_files (fun _ => rfl) (fun _ => rfl) (fun _ => rfl)

theorem vars_exact (h : MismatchesOwn s) : ListsExactly options s .vars := by
  have hmodified : (varModifiedInEither options s).map (·.id) =
      changedKeys (·.id) variableChanged s.ours.vars s.theirs.vars := by
    refine map_filterMap_eq_changedKeys (fun ours hours => ?_) fun ours hours listed hlisted => ?_
    · rw [Option.isSome_map, Bool.eq_iff_iff]
      constructor
      · intro hsome
        obtain ⟨theirs, hfind⟩ := Option.isSome_iff_exists.mp hsome
        have hid := h ours hours theirs hfind
        have hchanged := (variablesMismatch_of_id hid).mp (List.find?_some hfind)
        exact List.find?_isSome.mpr ⟨theirs, List.mem_of_find?_eq_some hfind,
          Bool.and_eq_true_iff.mpr ⟨decide_eq_true hid, hchanged⟩⟩
      · intro hsome
        obtain ⟨theirs, htheirs, hfound⟩ := List.find?_isSome.mp hsome
        obtain ⟨hid, hchanged⟩ := Bool.and_eq_true_iff.mp hfound
        exact List.find?_isSome.mpr
          ⟨theirs, htheirs, (variablesMismatch_of_id (of_decide_eq_true hid)).mpr hchanged⟩
    · obtain ⟨theirs, hfind, rfl⟩ := Option.map_eq_some_iff.mp hlisted
      split
      · rfl
      · exact h ours hours theirs hfind
  rw [ListsExactly, vars_ids, hmodified]
  exact listsExactly_of_changedKeys s.ours.vars_nodup s.theirs.vars_nodup

/-- Two variables first mismatch different ones. -/
def FindApart (s : StatusContext) (ours ours' : Variable) : Prop :=
  ∀ theirs, s.theirs.vars.find? (variablesMismatch ours) = some theirs →
    s.theirs.vars.find? (variablesMismatch ours') ≠ some theirs

instance : Std.Symm (FindApart s) := ⟨fun _ _ h theirs hfind hfind' => h theirs hfind' hfind⟩

/-- A variable here that first mismatches a variable of another id in the work folder leaves a
variable that is listed twice: the one that it mismatches has an earlier mismatch of its own. -/
theorem mismatchesOwn_of_exact (h : ListsExactly ⟨.push, false⟩ s .vars) : MismatchesOwn s := by
  rw [ListsExactly, vars_ids] at h
  obtain ⟨hnodup, hkeys⟩ := (listing_exact_iff s.ours.vars_nodup s.theirs.vars_nodup _).mp h
  have hlisted : ∀ ours ∈ s.ours.vars, ∀ theirs,
      s.theirs.vars.find? (variablesMismatch ours) = some theirs →
      theirs.id ∈ (varModifiedInEither ⟨.push, false⟩ s).map (·.id) := by
    intro ours hours theirs hfind
    refine List.mem_map_of_mem (List.mem_filterMap.mpr ⟨ours, hours, ?_⟩)
    rw [hfind]
    rfl
  have hapart : s.ours.vars.Pairwise (FindApart s) := by
    have hpairwise := List.pairwise_filterMap.mp hnodup.of_map
    refine hpairwise.imp fun hne theirs hfind hfind' => ?_
    exact hne theirs (by rw [hfind]; rfl) theirs (by rw [hfind']; rfl) rfl
  -- by induction on how many variables stand before the first mismatch
  have hown : ∀ position, ∀ ours ∈ s.ours.vars, ∀ before theirs after,
      s.theirs.vars = before ++ theirs :: after → before.length = position →
      s.theirs.vars.find? (variablesMismatch ours) = some theirs → theirs.id = ours.id := by
    intro position
    induction position using Nat.strongRecOn with
    | ind position ih =>
      intro ours hours before theirs after hsplit hlength hfind
      by_contra hother
      obtain ⟨ours', hours', theirs', htheirs', hid, hid', hchanged⟩ :=
        (hkeys theirs.id).mp (hlisted ours hours theirs hfind)
      have htheirs := List.mem_of_find?_eq_some hfind
      cases List.inj_on_of_nodup_map s.theirs.vars_nodup htheirs' htheirs hid'
      have hmismatch := (variablesMismatch_of_id hid.symm).mpr hchanged
      cases hearlier : before.find? (variablesMismatch ours') with
      | some found =>
        obtain ⟨-, front, back, hfront, -⟩ := List.find?_eq_some_iff_append.mp hearlier
        have hfound : s.theirs.vars.find? (variablesMismatch ours') = some found := by
          rw [hsplit, List.find?_append, hearlier]
          rfl
        have hshorter : front.length < position := by
          rw [← hlength, hfront, List.length_append, List.length_cons]
          omega
        have hsame : found.id = theirs.id :=
          (ih front.length hshorter ours' hours' front found (back ++ theirs :: after)
            (by rw [hsplit, hfront]; simp) rfl hfound).trans hid
        have hids := s.theirs.vars_nodup
        rw [hsplit, List.map_append] at hids
        exact (List.nodup_append'.mp hids).2.2
          (List.mem_map_of_mem (List.mem_of_find?_eq_some hearlier))
          (hsame ▸ List.mem_map_of_mem List.mem_cons_self)
      | none =>
        have hfind' : s.theirs.vars.find? (variablesMismatch ours') = some theirs := by
          rw [hsplit, List.find?_append, hearlier, Option.none_or,
            List.find?_cons_of_pos hmismatch]
        have hne : ours ≠ ours' := fun heq => hother (heq ▸ hid.symm)
        exact hapart.forall hours hours' hne theirs hfind hfind'
  intro ours hours theirs hfind
  obtain ⟨-, before, after, hsplit, -⟩ := List.find?_eq_some_iff_append.mp hfind
  exact hown before.length ours hours before theirs after hsplit rfl hfind

end Vars

theorem getStatus_eq_ok {files : List SourceControlledFile} (h : getStatus options s = .ok files) :
    files = sourceControlledFiles options s := by
  unfold getStatus at h
  split_ifs at h
  cases h
  rfl

theorem getStatus_push (hsetup : s.isSetUp = true) (hfetched : s.isFetched = true)
    (preferLocalVersion : Bool) :
    getStatus ⟨.push, preferLocalVersion⟩ s =
      .ok (sourceControlledFiles ⟨.push, preferLocalVersion⟩ s) := by
  simp [getStatus, hsetup, hfetched]

/-- Every status lists the resources that differ, each of them once, and the same ones in both
directions, exactly when the variables here first mismatch their own in the work folder and no tag
differs in its mappings alone. -/
theorem status_exact (s : StatusContext) (hsetup : s.isSetUp = true)
    (hfetched : s.isFetched = true) :
    ((∀ options files, getStatus options s = .ok files →
        (∀ type id, (∃ file ∈ files, file.type = type ∧ file.id = id) ↔ Differs s type id) ∧
          (files.map fun file => (file.type, file.id)).Nodup) ∧
      ∀ options options' files files', getStatus options s = .ok files →
        getStatus options' s = .ok files' →
        ∀ type id, (∃ file ∈ files, file.type = type ∧ file.id = id) ↔
          ∃ file ∈ files', file.type = type ∧ file.id = id) ↔
      MismatchesOwn s ∧ MappingsAgree s := by
  have hexact : ∀ options,
      (∀ type id, (∃ file ∈ sourceControlledFiles options s, file.type = type ∧ file.id = id) ↔
          Differs s type id) ∧
        ((sourceControlledFiles options s).map fun file => (file.type, file.id)).Nodup ↔
      ∀ type, ListsExactly options s type := by
    intro options
    simp only [listed_iff, nodup_iff, ListsExactly]
    exact ⟨fun h type => ⟨h.2 type, h.1 type⟩,
      fun h => ⟨fun type => (h type).2, fun type => (h type).1⟩⟩
  constructor
  · rintro ⟨hlists, -⟩
    have hparts := (hexact ⟨.push, false⟩).mp (hlists _ _ (getStatus_push hsetup hfetched false))
    exact ⟨mismatchesOwn_of_exact (hparts .vars), tags_exact_iff.mp (hparts .tags)⟩
  · rintro ⟨hvars, htags⟩
    have hparts : ∀ options type, ListsExactly options s type := by
      intro options type
      cases type with
      | workflow => exact workflows_exact
      | credential => exact credentials_exact
      | vars => exact vars_exact hvars
      | tags => exact tags_exact_iff.mpr htags
      | folders => exact folders_exact
      | file => exact ⟨List.nodup_nil, fun _ => ⟨fun h => absurd h List.not_mem_nil, False.elim⟩⟩
    refine ⟨fun options files h => ?_, fun options options' files files' h h' type id => ?_⟩
    · cases getStatus_eq_ok h
      exact (hexact options).mpr (hparts options)
    · cases getStatus_eq_ok h
      cases getStatus_eq_ok h'
      exact (((hexact options).mpr (hparts options)).1 type id).trans
        (((hexact options').mpr (hparts options')).1 type id).symm

instance (s : StatusContext) : Decidable (MismatchesOwn s) :=
  inferInstanceAs (Decidable (∀ _ ∈ _, ∀ _ ∈ _, _))

instance (s : StatusContext) : Decidable (MappingsAgree s) :=
  inferInstanceAs (Decidable (∀ _ ∈ _, ∀ _ ∈ _, _ → _ → _))

/-- One side with a variable and nothing else. -/
def withVariable (id key : List Char) : Resources where
  workflows := []
  workflows_nodup := List.nodup_nil
  credentials := []
  credentials_nodup := List.nodup_nil
  vars := [⟨id, key⟩]
  vars_nodup := List.nodup_singleton _
  tags := []
  tags_nodup := List.nodup_nil
  mappings := []
  folders := []
  folders_nodup := List.nodup_nil

/-- An administrator compares the two sides. -/
def comparing (ours theirs : Resources) : StatusContext where
  isSetUp := true
  isFetched := true
  hasAccessToAllProjects := true
  hasPullScope := true
  ours := ours
  theirs := theirs
  allLocalWorkflows := []
  variablesPath := "/git/variable_stubs.json".toList
  tagsPath := "/git/tags.json".toList
  foldersPath := "/git/folders.json".toList

/-- A variable with another key in the work folder is listed once. -/
theorem status_exact_renamed :
    MismatchesOwn (comparing (withVariable ['1'] ['A']) (withVariable ['1'] ['B'])) ∧
      ∀ options files,
        getStatus options (comparing (withVariable ['1'] ['A']) (withVariable ['1'] ['B'])) =
          .ok files →
        (∀ type id, (∃ file ∈ files, file.type = type ∧ file.id = id) ↔
          Differs (comparing (withVariable ['1'] ['A']) (withVariable ['1'] ['B'])) type id) ∧
          (files.map fun file => (file.type, file.id)).Nodup :=
  ⟨by decide +kernel,
    ((status_exact (comparing (withVariable ['1'] ['A']) (withVariable ['1'] ['B'])) rfl rfl).mpr
      (by decide +kernel)).1⟩

/-- A variable that was created on both sides with one key is listed twice. -/
theorem variable_listed_twice :
    ¬ ∀ s : StatusContext, s.isSetUp = true → s.isFetched = true →
      (∀ options files, getStatus options s = .ok files →
        (∀ type id, (∃ file ∈ files, file.type = type ∧ file.id = id) ↔ Differs s type id) ∧
          (files.map fun file => (file.type, file.id)).Nodup) ∧
      ∀ options options' files files', getStatus options s = .ok files →
        getStatus options' s = .ok files' →
        ∀ type id, (∃ file ∈ files, file.type = type ∧ file.id = id) ↔
          ∃ file ∈ files', file.type = type ∧ file.id = id := by
  intro hall
  have hlists := (hall (comparing (withVariable ['1'] ['A']) (withVariable ['2'] ['A'])) rfl rfl).1
  have hnodup := (hlists ⟨.push, true⟩ _ (getStatus_push rfl rfl true)).2
  exact absurd hnodup (by decide +kernel)

end N8n.SourceControl
