import N8n.Collections.Table

/-!
# Transferring all resources of a project

The rows that share credentials and workflows with projects, one for each pair of a project and a
resource, and `transferAll`, which moves everything that one project owns or shares to another; see
`packages/cli/src/credentials/credentials.service.ts`,
`packages/cli/src/workflows/workflow.service.ts` and the two repositories of the rows in
`packages/@n8n/db`.

The statements run in one transaction. The rows to move are read before the first of them, which is
why no inserted pair can exist: a row that was read with another role than the owner's belongs to a
resource that the first statement did not touch.
-/

namespace N8n.Sharing

open Collections

/-- A row that shares a resource with a project. The resource id is `credentialsId` or
`workflowId`. -/
structure SharedResource (Role : Type) where
  resourceId : String
  projectId : String
  role : Role
  deriving DecidableEq, Repr

variable {Role : Type}

/-- The primary key. -/
def SharedResource.key (row : SharedResource Role) : String × String :=
  (row.projectId, row.resourceId)

/-- The rows of one kind of resource. -/
abbrev Sharings (Role : Type) := Table (@SharedResource.key Role)

/-- `CredentialSharingRole`. -/
inductive CredentialSharingRole where
  | owner
  | user
  deriving DecidableEq, Repr

/-- `WorkflowSharingRole`. -/
inductive WorkflowSharingRole where
  | owner
  | editor
  deriving DecidableEq, Repr

/-- The rows of `SharedCredentials`. -/
abbrev SharedCredentials := Sharings CredentialSharingRole

/-- The rows of `SharedWorkflow`. -/
abbrev SharedWorkflow := Sharings WorkflowSharingRole

/-- Make a project the owner of resources, whatever relationship it has to them. -/
def makeOwner (ownerRole : Role) (trx : Sharings Role) (resourceIds : List String)
    (projectId : String) : Sharings Role :=
  trx.upsert (resourceIds.map fun resourceId => { resourceId, projectId, role := ownerRole })

/-- Delete the rows of a project for resources. -/
def deleteByIds (trx : Sharings Role) (resourceIds : List String) (projectId : String) :
    Sharings Role :=
  trx.delete fun row => row.projectId == projectId && resourceIds.contains row.resourceId

/-- The resources of a list of rows that are owned. -/
def ownedIds [DecidableEq Role] (ownerRole : Role) (rows : List (SharedResource Role)) :
    List String :=
  (rows.filter (·.role = ownerRole)).map (·.resourceId)

/-- Transfer everything that a project owns or shares to another project. The role `ownerRole`
marks the owner of a resource of this kind. -/
def transferAll [DecidableEq Role] (ownerRole : Role) (trx : Sharings Role)
    (fromProjectId toProjectId : String) :
    Except (UniqueViolation (String × String)) (Sharings Role) :=
  let allShared := trx.findBy fun row => [fromProjectId, toProjectId].contains row.projectId
  let sharedOfFromProject := allShared.filter (·.projectId = fromProjectId)
  let owned := ownedIds ownerRole sharedOfFromProject
  let trx := makeOwner ownerRole trx owned toProjectId
  let trx := deleteByIds trx owned fromProjectId
  let sharedIdsOfTransferee := (allShared.filter (·.projectId = toProjectId)).map (·.resourceId)
  let sharedToTransfer := sharedOfFromProject.filter fun row =>
    row.role ≠ ownerRole && !sharedIdsOfTransferee.contains row.resourceId
  trx.insert (sharedToTransfer.map fun row => { row with projectId := toProjectId })

/-- `CredentialsService.transferAll`. -/
def CredentialsService.transferAll (trx : SharedCredentials) (fromProjectId toProjectId : String) :
    Except (UniqueViolation (String × String)) SharedCredentials :=
  Sharing.transferAll .owner trx fromProjectId toProjectId

/-- `WorkflowService.transferAll`. -/
def WorkflowService.transferAll (trx : SharedWorkflow) (fromProjectId toProjectId : String) :
    Except (UniqueViolation (String × String)) SharedWorkflow :=
  Sharing.transferAll .owner trx fromProjectId toProjectId

/-! ## Ownership -/

/-- The project owns the resource. -/
def Owns (ownerRole : Role) (t : Sharings Role) (projectId resourceId : String) : Prop :=
  { resourceId, projectId, role := ownerRole } ∈ t.rows

/-- The project has access to the resource. -/
def HasAccess (t : Sharings Role) (projectId resourceId : String) : Prop :=
  ∃ role, { resourceId, projectId, role } ∈ t.rows

/-- Each resource has exactly one owner. -/
def OneOwner (ownerRole : Role) (t : Sharings Role) : Prop :=
  ∀ row ∈ t.rows, ∃! projectId, Owns ownerRole t projectId row.resourceId

/-- What a transfer makes of the rows `t`. -/
structure OwnershipTransferred (ownerRole : Role) (fromProjectId toProjectId : String)
    (t t' : Sharings Role) : Prop where
  unique : (t'.rows.map SharedResource.key).Nodup
  oneOwner : OneOwner ownerRole t'
  owner : ∀ projectId resourceId, Owns ownerRole t projectId resourceId →
    Owns ownerRole t' (if projectId = fromProjectId then toProjectId else projectId) resourceId
  access : ∀ resourceId, HasAccess t fromProjectId resourceId ∨ HasAccess t toProjectId resourceId →
    HasAccess t' toProjectId resourceId
  others : ∀ row : SharedResource Role, row.projectId ≠ fromProjectId →
    row.projectId ≠ toProjectId → (row ∈ t'.rows ↔ row ∈ t.rows)

/-! ## The statements -/

variable {t : Sharings Role} {fromProjectId toProjectId projectId : String}
  {row : SharedResource Role}

theorem mem_shared_of (hmem : projectId ∈ [fromProjectId, toProjectId]) :
    row ∈ (t.findBy fun row => [fromProjectId, toProjectId].contains row.projectId).filter
        (·.projectId = projectId) ↔ row ∈ t.rows ∧ row.projectId = projectId := by
  rw [List.mem_filter, Table.mem_findBy, decide_eq_true_eq, List.contains_iff_mem, and_assoc]
  exact and_congr_right fun _ => and_iff_right_of_imp fun h => h ▸ hmem

theorem resourceIds_unique {rows : List (SharedResource Role)} (projectId : String)
    (hunique : (rows.map SharedResource.key).Nodup) (h : ∀ row ∈ rows, row.projectId = projectId) :
    (rows.map (·.resourceId)).Nodup := by
  have hkeys : rows.map SharedResource.key = (rows.map (·.resourceId)).map (projectId, ·) := by
    rw [List.map_map]
    exact List.map_congr_left fun row hrow => Prod.ext (h row hrow) rfl
  exact List.Nodup.of_map _ (hkeys ▸ hunique)

variable {resourceIds : List String}

theorem pairs_unique (projectId : String) (h : resourceIds.Nodup) :
    (resourceIds.map (projectId, ·)).Nodup :=
  h.map fun _ _ heq => (Prod.mk.inj heq).2

variable {ownerRole : Role}

theorem mem_makeOwner (hids : resourceIds.Nodup) :
    row ∈ (makeOwner ownerRole t resourceIds projectId).rows ↔
      (row.projectId = projectId ∧ row.resourceId ∈ resourceIds) ∧ row.role = ownerRole ∨
        ¬ (row.projectId = projectId ∧ row.resourceId ∈ resourceIds) ∧ row ∈ t.rows := by
  have hkeys : (resourceIds.map fun resourceId : String =>
      ({ resourceId, projectId, role := ownerRole } : SharedResource Role)).map
        SharedResource.key = resourceIds.map (projectId, ·) := by
    rw [List.map_map]
    rfl
  have hkey : row.key ∈ resourceIds.map (projectId, ·) ↔
      row.projectId = projectId ∧ row.resourceId ∈ resourceIds := by
    rw [List.mem_map]
    constructor
    · intro h
      obtain ⟨resourceId, hmem, heq⟩ := h
      obtain ⟨hproject, hresource⟩ := Prod.mk.inj heq
      exact ⟨hproject.symm, hresource ▸ hmem⟩
    · intro h
      exact ⟨row.resourceId, h.2, Prod.ext h.1.symm rfl⟩
  rw [makeOwner, Table.mem_upsert (hkeys ▸ pairs_unique projectId hids), hkeys, hkey,
    and_comm (a := row ∈ t.rows), List.mem_map]
  refine or_congr_left ⟨fun h => ?_, fun h => ?_⟩
  · obtain ⟨resourceId, hmem, rfl⟩ := h
    exact ⟨⟨rfl, hmem⟩, rfl⟩
  · obtain ⟨⟨rfl, hmem⟩, rfl⟩ := h
    exact ⟨row.resourceId, hmem, rfl⟩

theorem mem_deleteByIds :
    row ∈ (deleteByIds t resourceIds projectId).rows ↔
      row ∈ t.rows ∧ ¬ (row.projectId = projectId ∧ row.resourceId ∈ resourceIds) := by
  rw [deleteByIds, Table.mem_delete]
  refine and_congr_right fun _ => ?_
  rw [← Bool.not_eq_true, Bool.and_eq_true, beq_iff_eq, List.contains_iff_mem]

theorem role_iff_owns (hrow : row ∈ t.rows) :
    row.role = ownerRole ↔ Owns ownerRole t row.projectId row.resourceId := by
  constructor
  · rintro rfl
    exact hrow
  · intro h
    exact congrArg (·.role) (t.row_unique hrow h rfl)

theorem mem_moved (hne : fromProjectId ≠ toProjectId) {owned : List String}
    (hunique : owned.Nodup) :
    row ∈ (deleteByIds (makeOwner ownerRole t owned toProjectId) owned fromProjectId).rows ↔
      row.projectId = toProjectId ∧ row.resourceId ∈ owned ∧ row.role = ownerRole ∨
        ¬ ((row.projectId = fromProjectId ∨ row.projectId = toProjectId) ∧
          row.resourceId ∈ owned) ∧ row ∈ t.rows := by
  rw [mem_deleteByIds, mem_makeOwner hunique]
  by_cases hto : row.projectId = toProjectId
  · have hfrom : row.projectId ≠ fromProjectId := fun h => hne (h.symm.trans hto)
    simp [hto, hto ▸ hfrom]
  · simp [hto, and_comm]

/-- The rows of a table after a transfer from one project to another. -/
def Transferred (ownerRole : Role) (fromProjectId toProjectId : String) (t : Sharings Role)
    (row : SharedResource Role) : Prop :=
  (row.projectId ≠ fromProjectId ∧ row.projectId ≠ toProjectId) ∧ row ∈ t.rows ∨
    row.projectId = fromProjectId ∧ row.role ≠ ownerRole ∧ row ∈ t.rows ∨
    row.projectId = toProjectId ∧
      (Owns ownerRole t fromProjectId row.resourceId ∧ row.role = ownerRole ∨
        ¬ Owns ownerRole t fromProjectId row.resourceId ∧ (row ∈ t.rows ∨
          { row with projectId := fromProjectId } ∈ t.rows ∧
            ¬ HasAccess t toProjectId row.resourceId))

theorem transferred_iff (hne : fromProjectId ≠ toProjectId) (row : SharedResource Role) :
    (row.projectId = toProjectId ∧ Owns ownerRole t fromProjectId row.resourceId ∧
        row.role = ownerRole ∨
      ¬ ((row.projectId = fromProjectId ∨ row.projectId = toProjectId) ∧
        Owns ownerRole t fromProjectId row.resourceId) ∧ row ∈ t.rows) ∨
      row.projectId = toProjectId ∧ { row with projectId := fromProjectId } ∈ t.rows ∧
        row.role ≠ ownerRole ∧ ¬ HasAccess t toProjectId row.resourceId ↔
    Transferred ownerRole fromProjectId toProjectId t row := by
  unfold Transferred
  by_cases hto : row.projectId = toProjectId
  · have hfrom : toProjectId ≠ fromProjectId := hne.symm
    -- the row that is moved has the role of an owner exactly if the source owns the resource
    have hsource : { row with projectId := fromProjectId } ∈ t.rows →
        (row.role = ownerRole ↔ Owns ownerRole t fromProjectId row.resourceId) := role_iff_owns
    by_cases howns : Owns ownerRole t fromProjectId row.resourceId
    · simp only [hto, hfrom, howns, ne_eq, not_true_eq_false, not_false_eq_true, true_and, and_true,
        or_true, false_and, false_or, or_false, and_false]
      refine or_iff_left fun h => ?_
      exact h.2.1 ((hsource h.1).mpr howns)
    · simp only [hto, hfrom, howns, ne_eq, not_true_eq_false, not_false_eq_true, true_and,
        and_false, false_and, false_or]
      refine or_congr_right (and_congr_right fun hmem => and_iff_right ?_)
      exact fun hrole => howns ((hsource hmem).mp hrole)
  · by_cases hfrom : row.projectId = fromProjectId
    · have hrow : row ∈ t.rows →
          (row.role = ownerRole ↔ Owns ownerRole t fromProjectId row.resourceId) := by
        rw [← hfrom]
        exact role_iff_owns
      simp only [hfrom, hne, ne_eq, not_true_eq_false, true_and, false_and, false_or, or_false]
      exact and_congr_left fun hmem => (not_congr (hrow hmem)).symm
    · simp only [hto, hfrom, ne_eq, not_false_eq_true, false_and, and_self, or_self, true_and,
        or_false, false_or]

theorem resource_of_transferred (h : Transferred ownerRole fromProjectId toProjectId t row) :
    ∃ row' ∈ t.rows, row'.resourceId = row.resourceId := by
  obtain ⟨-, h⟩ | ⟨-, -, h⟩ | ⟨-, ⟨h, -⟩ | ⟨-, h | ⟨h, -⟩⟩⟩ := h
  · exact ⟨_, h, rfl⟩
  · exact ⟨_, h, rfl⟩
  · exact ⟨_, h, rfl⟩
  · exact ⟨_, h, rfl⟩
  · exact ⟨_, h, rfl⟩

variable {t' : Sharings Role}

theorem owner_transferred
    (hrows : ∀ row, row ∈ t'.rows ↔ Transferred ownerRole fromProjectId toProjectId t row)
    {resourceId : String} (h : Owns ownerRole t projectId resourceId) :
    Owns ownerRole t' (if projectId = fromProjectId then toProjectId else projectId)
      resourceId := by
  refine (hrows _).mpr ?_
  by_cases hfrom : projectId = fromProjectId
  · rw [if_pos hfrom]
    exact .inr (.inr ⟨rfl, .inl ⟨hfrom ▸ h, rfl⟩⟩)
  · rw [if_neg hfrom]
    by_cases hto : projectId = toProjectId
    · refine .inr (.inr ⟨hto, ?_⟩)
      by_cases howns : Owns ownerRole t fromProjectId resourceId
      · exact .inl ⟨howns, rfl⟩
      · exact .inr ⟨howns, .inl h⟩
    · exact .inl ⟨⟨hfrom, hto⟩, h⟩

theorem oneOwner_transferred (hne : fromProjectId ≠ toProjectId)
    (hrows : ∀ row, row ∈ t'.rows ↔ Transferred ownerRole fromProjectId toProjectId t row)
    (hone : OneOwner ownerRole t) : OneOwner ownerRole t' := by
  intro row hrow
  obtain ⟨row', hrow', hresource⟩ := resource_of_transferred ((hrows row).mp hrow)
  obtain ⟨projectId, howns, hunique⟩ := hone row' hrow'
  rw [hresource] at howns
  simp only [hresource] at hunique
  refine ⟨_, owner_transferred hrows howns, fun projectId' howns' => ?_⟩
  rcases (hrows _).mp howns' with ⟨⟨hfrom, -⟩, h⟩ | ⟨-, hrole, -⟩ | ⟨hto, h⟩
  · have hsame := hunique projectId' h
    rw [if_neg (hsame ▸ hfrom)]
    exact hsame
  · exact absurd rfl hrole
  · rcases h with ⟨h, -⟩ | ⟨hnot, h | ⟨h, -⟩⟩
    · rw [if_pos (hunique _ h).symm]
      exact hto
    · have hsame := hunique projectId' h
      have hne' : projectId ≠ fromProjectId := fun heq =>
        hne (heq.symm.trans (hsame.symm.trans hto))
      rw [if_neg hne']
      exact hsame
    · exact absurd h hnot

theorem access_transferred
    (hrows : ∀ row, row ∈ t'.rows ↔ Transferred ownerRole fromProjectId toProjectId t row)
    {resourceId : String}
    (h : HasAccess t fromProjectId resourceId ∨ HasAccess t toProjectId resourceId) :
    HasAccess t' toProjectId resourceId := by
  by_cases howns : Owns ownerRole t fromProjectId resourceId
  · exact ⟨ownerRole, (hrows _).mpr (.inr (.inr ⟨rfl, .inl ⟨howns, rfl⟩⟩))⟩
  · by_cases hto : HasAccess t toProjectId resourceId
    · obtain ⟨role, hrow⟩ := hto
      exact ⟨role, (hrows _).mpr (.inr (.inr ⟨rfl, .inr ⟨howns, .inl hrow⟩⟩))⟩
    · obtain ⟨role, hrow⟩ := h.resolve_right hto
      exact ⟨role, (hrows _).mpr (.inr (.inr ⟨rfl, .inr ⟨howns, .inr ⟨hrow, hto⟩⟩⟩))⟩

section

variable [DecidableEq Role]

theorem mem_ownedIds {ownerRole : Role} {t : Sharings Role} {projectId : String}
    {rows : List (SharedResource Role)}
    (hrows : ∀ row, row ∈ rows ↔ row ∈ t.rows ∧ row.projectId = projectId) {resourceId : String} :
    resourceId ∈ ownedIds ownerRole rows ↔ Owns ownerRole t projectId resourceId := by
  simp only [ownedIds, List.mem_map, List.mem_filter, decide_eq_true_eq]
  constructor
  · intro h
    obtain ⟨row, ⟨hrow, rfl⟩, rfl⟩ := h
    obtain ⟨hmem, rfl⟩ := (hrows row).mp hrow
    exact hmem
  · intro h
    exact ⟨_, ⟨(hrows _).mpr ⟨h, rfl⟩, rfl⟩, rfl⟩

variable {fromProjectId toProjectId : String}

theorem mem_sharedToTransfer {ownerRole : Role} {t : Sharings Role}
    {rows : List (SharedResource Role)} {ids : List String}
    (hrows : ∀ row, row ∈ rows ↔ row ∈ t.rows ∧ row.projectId = fromProjectId)
    (hids : ∀ resourceId, resourceId ∈ ids ↔ HasAccess t toProjectId resourceId)
    {row : SharedResource Role} :
    row ∈ (rows.filter fun row => row.role ≠ ownerRole && !ids.contains row.resourceId).map
        (fun row => { row with projectId := toProjectId }) ↔
      row.projectId = toProjectId ∧ { row with projectId := fromProjectId } ∈ t.rows ∧
        row.role ≠ ownerRole ∧ ¬ HasAccess t toProjectId row.resourceId := by
  simp only [List.mem_map, List.mem_filter, Bool.and_eq_true, decide_eq_true_eq,
    Bool.not_eq_true', List.contains_eq_mem, decide_eq_false_iff_not, hids, hrows]
  constructor
  · intro h
    obtain ⟨source, ⟨⟨hmem, rfl⟩, hrole, hnot⟩, rfl⟩ := h
    exact ⟨rfl, hmem, hrole, hnot⟩
  · intro h
    obtain ⟨rfl, hmem, hrole, hnot⟩ := h
    exact ⟨_, ⟨⟨hmem, rfl⟩, hrole, hnot⟩, rfl⟩

theorem transferAll_eq_ok (ownerRole : Role) (t : Sharings Role)
    (hne : fromProjectId ≠ toProjectId) :
    ∃ t', transferAll ownerRole t fromProjectId toProjectId = .ok t' ∧
      ∀ row, row ∈ t'.rows ↔ Transferred ownerRole fromProjectId toProjectId t row := by
  simp only [transferAll]
  generalize hfrom : (t.findBy fun row => [fromProjectId, toProjectId].contains
    row.projectId).filter (·.projectId = fromProjectId) = sharedOfFrom
  generalize hto : ((t.findBy fun row => [fromProjectId, toProjectId].contains
    row.projectId).filter (·.projectId = toProjectId)).map (·.resourceId) = idsOfTransferee
  have hshared : ∀ row, row ∈ sharedOfFrom ↔ row ∈ t.rows ∧ row.projectId = fromProjectId :=
    fun row => hfrom ▸ mem_shared_of (by simp)
  have hids : ∀ resourceId,
      resourceId ∈ idsOfTransferee ↔ HasAccess t toProjectId resourceId := by
    intro resourceId
    rw [← hto, List.mem_map]
    constructor
    · intro h
      obtain ⟨row, hrow, rfl⟩ := h
      obtain ⟨hmem, rfl⟩ := (mem_shared_of (by simp)).mp hrow
      exact ⟨row.role, hmem⟩
    · intro h
      obtain ⟨role, hmem⟩ := h
      exact ⟨_, (mem_shared_of (by simp)).mpr ⟨hmem, rfl⟩, rfl⟩
  have hunique : (sharedOfFrom.map (·.resourceId)).Nodup := by
    refine resourceIds_unique fromProjectId ?_ fun row hrow => ((hshared row).mp hrow).2
    rw [← hfrom]
    exact (t.findBy_unique _).sublist (List.filter_sublist.map _)
  have howned : ∀ resourceId, resourceId ∈ ownedIds ownerRole sharedOfFrom ↔
      Owns ownerRole t fromProjectId resourceId := fun _ => mem_ownedIds hshared
  have hownedUnique : (ownedIds ownerRole sharedOfFrom).Nodup :=
    hunique.sublist (List.filter_sublist.map _)
  generalize ownedIds ownerRole sharedOfFrom = owned at howned hownedUnique
  -- The inserted pairs are free: the resource is neither owned nor shared with the transferee.
  have hinsert := Table.insert_eq_ok
    (deleteByIds (makeOwner ownerRole t owned toProjectId) owned fromProjectId)
    ((sharedOfFrom.filter fun row => row.role ≠ ownerRole &&
      !idsOfTransferee.contains row.resourceId).map
        fun row => { row with projectId := toProjectId }) ?_ ?_
  · obtain ⟨t', hok, hrows⟩ := hinsert
    refine ⟨t', hok, fun row => ?_⟩
    rw [hrows, List.mem_append, mem_moved hne hownedUnique, mem_sharedToTransfer hshared hids,
      howned, transferred_iff hne]
  · have hkeys : ∀ rows : List (SharedResource Role),
        (rows.map fun row => { row with projectId := toProjectId }).map SharedResource.key =
          (rows.map (·.resourceId)).map (toProjectId, ·) := by
      intro rows
      rw [List.map_map, List.map_map]
      rfl
    rw [hkeys]
    exact pairs_unique toProjectId (hunique.sublist (List.filter_sublist.map _))
  · intro row hrow hmem
    obtain ⟨hproject, hsource, hrole, hnot⟩ := (mem_sharedToTransfer hshared hids).mp hrow
    obtain ⟨taken, htaken, hkey⟩ := List.mem_map.mp hmem
    obtain ⟨hproject', hresource⟩ := Prod.mk.inj hkey
    rcases (mem_moved hne hownedUnique).mp htaken with ⟨-, howner, -⟩ | ⟨-, htaken⟩
    · rw [hresource, howned] at howner
      exact hrole ((role_iff_owns hsource).mpr howner)
    · refine hnot ⟨taken.role, ?_⟩
      rw [← hresource, ← hproject, ← hproject']
      exact htaken

theorem transferAll_transfers (ownerRole : Role) (t : Sharings Role)
    (hne : fromProjectId ≠ toProjectId) (hone : OneOwner ownerRole t) :
    ∃ t', transferAll ownerRole t fromProjectId toProjectId = .ok t' ∧
      OwnershipTransferred ownerRole fromProjectId toProjectId t t' := by
  obtain ⟨t', hok, hrows⟩ := transferAll_eq_ok ownerRole t hne
  refine ⟨t', hok, t'.unique, oneOwner_transferred hne hrows hone,
    fun _ _ => owner_transferred hrows, fun _ => access_transferred hrows, ?_⟩
  intro row hfrom hto
  rw [hrows]
  simp [Transferred, hfrom, hto]

end

/-- Whatever two projects own and share, transferring everything of the one to the other succeeds
and keeps the ownership of credentials and workflows exact. -/
theorem transferAll_keeps_ownership (credentials : SharedCredentials) (workflows : SharedWorkflow)
    (hcredentials : OneOwner .owner credentials) (hworkflows : OneOwner .owner workflows)
    (fromProjectId toProjectId : String) (hne : fromProjectId ≠ toProjectId) :
    (∃ credentials',
      CredentialsService.transferAll credentials fromProjectId toProjectId = .ok credentials' ∧
        OwnershipTransferred .owner fromProjectId toProjectId credentials credentials') ∧
      ∃ workflows',
        WorkflowService.transferAll workflows fromProjectId toProjectId = .ok workflows' ∧
          OwnershipTransferred .owner fromProjectId toProjectId workflows workflows' :=
  ⟨transferAll_transfers CredentialSharingRole.owner credentials hne hcredentials,
    transferAll_transfers WorkflowSharingRole.owner workflows hne hworkflows⟩

/-- A credential that one project owns and shares with the other one. -/
def sharedCredential : SharedCredentials where
  rows := [⟨"credential", "mine", .owner⟩, ⟨"credential", "yours", .user⟩]
  unique := by decide

theorem sharedCredential_oneOwner : OneOwner .owner sharedCredential := by
  intro row hrow
  have hresource : row.resourceId = "credential" := by
    simp only [sharedCredential, List.mem_cons, List.not_mem_nil, or_false] at hrow
    rcases hrow with rfl | rfl <;> rfl
  rw [hresource]
  refine ⟨"mine", by simp [Owns, sharedCredential], fun projectId howns => ?_⟩
  simpa [Owns, sharedCredential] using howns

/-- The transfer of a credential that both projects have access to. -/
theorem sharedCredential_transferred :
    (∃ credentials', CredentialsService.transferAll sharedCredential "mine" "yours" =
        .ok credentials' ∧
        OwnershipTransferred .owner "mine" "yours" sharedCredential credentials') ∧
      ∃ workflows', WorkflowService.transferAll ⟨[], List.nodup_nil⟩ "mine" "yours" =
          .ok workflows' ∧
        OwnershipTransferred .owner "mine" "yours" ⟨[], List.nodup_nil⟩ workflows' :=
  transferAll_keeps_ownership sharedCredential ⟨[], List.nodup_nil⟩ sharedCredential_oneOwner
    (fun _ hrow => by cases hrow) "mine" "yours" (by decide)

end N8n.Sharing
