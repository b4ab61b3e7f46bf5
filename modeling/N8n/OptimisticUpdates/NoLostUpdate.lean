import N8n.Transition.Runs
import N8n.Transition.VersionedCell

/-!
# No two updates are based on the same version

The updates are those that change content, carry a version and do not force the save. When each of
them saves only while the workflow still has the version that the update has read, and never on a
version that has come back after a failed activation, the workflow is a cell with versions that
stays sound: no two updates that write content carry the same version.
-/

namespace N8n.OptimisticUpdates

open Transition

/-! ## Updates of a workflow

An update reads the workflow, checks that its version is the one that the update is based on, saves
the workflow some awaits later, and activates it when it is active. When it cannot be activated, it
is set to inactive and gets the version back that the update has read. Other updates can take steps
at every await. See `update` of `packages/cli/src/workflows/workflow.service.ts`.
-/

/-- The id of a version: the empty one, one from before, or the one that `uuid()` gives in an
update. -/
inductive VersionId where
  | empty
  | earlier (id : Nat)
  | uuid (update : Nat)
  deriving DecidableEq

/-- The workflow in the database. `content` tells the values of its other properties apart. -/
structure Workflow where
  content : Nat
  active : Bool
  versionId : VersionId
  deriving DecidableEq

/-- The arguments of an update. `content` is none when there are no properties besides `id`,
`versionId` and `active`. -/
structure WorkflowUpdateData where
  content : Option Nat
  active : Option Bool
  versionId : VersionId
  forceSave : Bool
  deriving DecidableEq

/-- Where an update is, with what it keeps there: it has been called; it is about to save, after it
has read the workflow and has chosen the version; it has saved; it activates the workflow; it sets
the workflow to inactive again; it has returned or thrown. -/
inductive Phase where
  | called
  | saving (workflow : Workflow) (versionId : VersionId)
  | saved (workflow : Workflow)
  | activating (workflow : Workflow)
  | reverting (workflow : Workflow)
  | done
  deriving DecidableEq

structure Update where
  data : WorkflowUpdateData
  phase : Phase
  deriving DecidableEq

/-- The database and the updates. `written` records the updates that have written content, with the
versions that they carried, and `restored` the versions that came back after a failed activation. -/
structure State where
  stored : Workflow
  updates : Nat → Option Update
  written : List (Nat × VersionId)
  restored : List VersionId

/-- No update has been called. -/
def started (stored : Workflow) : State :=
  { stored, updates := fun _ => none, written := [], restored := [] }

/-- What can happen at the awaits of an update. `fail` is that something awaited throws. -/
inductive Event where
  | update (i : Nat) (data : WorkflowUpdateData)
  | findWorkflowForUser (i : Nat) (found : Bool)
  | fail (i : Nat)
  | save (i : Nat)
  | findOne (i : Nat)
  | add (i : Nat) (activated : Bool)
  | revert (i : Nat)

/-- Does the check refuse the update? -/
def outdated (data : WorkflowUpdateData) (workflow : Workflow) : Bool :=
  !data.forceSave && decide (data.versionId ≠ .empty) &&
    decide (data.versionId ≠ workflow.versionId)

/-- The version that an update saves: a new one when it changes properties. -/
def savedVersion (i : Nat) (data : WorkflowUpdateData) : VersionId :=
  if data.content.isSome then .uuid i else data.versionId

/-- `workflowRepository.update(workflowId, updatePayload)`. -/
def Workflow.update (stored : Workflow) (data : WorkflowUpdateData) (versionId : VersionId) :
    Workflow where
  content := data.content.getD stored.content
  active := data.active.getD stored.active
  versionId := versionId

namespace State

/-- The update goes on to another phase. -/
def goTo (s : State) (i : Nat) (update : Update) (phase : Phase) : State :=
  { s with updates := fun j => if j = i then some { update with phase } else s.updates j }

/-- The workflow has been read. -/
def check (s : State) (i : Nat) (update : Update) : State :=
  if outdated update.data s.stored then s.goTo i update .done
  else s.goTo i update (.saving s.stored (savedVersion i update.data))

/-- The workflow is saved. -/
def save (s : State) (i : Nat) (update : Update) (workflow : Workflow) (versionId : VersionId) :
    State :=
  { s.goTo i update (.saved workflow) with
    stored := s.stored.update update.data versionId
    written :=
      if update.data.content.isSome then (i, update.data.versionId) :: s.written else s.written }

/-- The workflow is set to inactive, and gets the version back that was read. -/
def revert (s : State) (i : Nat) (update : Update) (workflow : Workflow) : State :=
  { s.goTo i update .done with
    stored := { s.stored with active := false, versionId := workflow.versionId }
    restored := workflow.versionId :: s.restored }

/-- The next step of an update. -/
def next (s : State) (i : Nat) (update : Update) : Event → Option State
  | .findWorkflowForUser _ found =>
    match update.phase with
    | .called => some (if found then s.check i update else s.goTo i update .done)
    | _ => none
  | .fail _ =>
    match update.phase with
    | .saving _ _ | .saved _ => some (s.goTo i update .done)
    | _ => none
  | .save _ =>
    match update.phase with
    | .saving workflow versionId => some (s.save i update workflow versionId)
    | _ => none
  | .findOne _ =>
    match update.phase with
    | .saved workflow =>
      some (s.goTo i update (if s.stored.active then .activating workflow else .done))
    | _ => none
  | .add _ activated =>
    match update.phase with
    | .activating workflow =>
      some (s.goTo i update (if activated then .done else .reverting workflow))
    | _ => none
  | .revert _ =>
    match update.phase with
    | .reverting workflow => some (s.revert i update workflow)
    | _ => none
  | .update _ _ => none

end State

/-- The update of an event. -/
def Event.target : Event → Nat
  | .update i _ | .findWorkflowForUser i _ | .fail i | .save i | .findOne i | .add i _
  | .revert i => i

/-- The state after an event. -/
def step (s : State) (e : Event) : Option State :=
  match s.updates e.target, e with
  | none, .update i data => some (s.goTo i { data, phase := .called } .called)
  | some update, e => s.next e.target update e
  | _, _ => none

/-! ## No two updates are based on the same version -/

variable {s s' : State} {i j : Nat} {update : Update} {phase : Phase} {workflow : Workflow}
  {versionId : VersionId}

/-- At most one update writes content for each version. -/
def NoLostUpdate (s : State) : Prop := (s.written.map Prod.snd).Nodup

/-- An update of content that carries a version, and does not force the save. -/
def WorkflowUpdateData.Optimistic (data : WorkflowUpdateData) : Prop :=
  data.forceSave = false ∧ data.versionId ≠ .empty ∧ data.content.isSome

instance (data : WorkflowUpdateData) : Decidable data.Optimistic :=
  inferInstanceAs (Decidable (_ ∧ _))

/-- All updates are optimistic. -/
def optimistic (_ : State) : Event → Prop
  | .update _ data => data.Optimistic
  | _ => True

/-- Has the workflow still the version that an update in this phase has read, and has this version
not come back? -/
def Current (s : State) : Phase → Prop
  | .saving workflow _ =>
    s.stored.versionId = workflow.versionId ∧ workflow.versionId ∉ s.restored
  | _ => True

/-- All updates are optimistic, and save only what is current. -/
def allowed (s : State) : Event → Prop
  | .update _ data => data.Optimistic
  | .save i => ∀ update ∈ s.updates i, Current s update.phase
  | _ => True

/-- The workflow as a cell with versions. -/
def State.cell (s : State) : VersionedCell Nat VersionId :=
  { version := s.stored.versionId, written := s.written, restored := s.restored }

/-- The workflow that an update has read. -/
def Phase.read : Phase → Option Workflow
  | .saving workflow _ | .saved workflow | .activating workflow | .reverting workflow =>
    some workflow
  | .called | .done => none

/-- The update has not saved yet. -/
def Phase.unsaved : Phase → Prop
  | .called | .saving _ _ => True
  | _ => False

/-- What holds of an update in a phase. -/
structure UpdateInv (s : State) (i : Nat) (data : WorkflowUpdateData) (phase : Phase) : Prop where
  optimistic : data.Optimistic
  read : ∀ workflow ∈ phase.read, s.cell.Past .uuid workflow.versionId
  unsaved : phase.unsaved → i ∉ s.cell.writers
  saving : ∀ workflow versionId, phase = .saving workflow versionId →
    versionId = .uuid i ∧ data.versionId = workflow.versionId

/-- The workflow is a sound cell. -/
structure Inv (s : State) : Prop where
  sound : s.cell.Sound .uuid
  absent : ∀ i, s.updates i = none → i ∉ s.cell.writers
  update : ∀ i update, s.updates i = some update → UpdateInv s i update.data update.phase

/-- When one update goes on, the others keep what holds of them, if versions that are past stay so
and no other update becomes a writer. -/
theorem Inv.move (h : Inv s)
    (hupdates : s'.updates = fun j => if j = i then some { update with phase } else s.updates j)
    (hsound : s'.cell.Sound .uuid)
    (hpast : ∀ v, s.cell.Past .uuid v → s'.cell.Past .uuid v)
    (hwriters : ∀ j, j ≠ i → j ∉ s.cell.writers → j ∉ s'.cell.writers)
    (hnew : UpdateInv s' i update.data phase) : Inv s' := by
  refine ⟨hsound, fun j hj => ?_, fun j other hother => ?_⟩
  · by_cases hji : j = i
    · simp [hupdates, hji] at hj
    · exact hwriters j hji (h.absent j (by simpa [hupdates, hji] using hj))
  · by_cases hji : j = i
    · subst hji
      obtain rfl : { update with phase } = other := by simpa [hupdates] using hother
      exact hnew
    · obtain ⟨hoptimistic, hread, hunsaved, hsaving⟩ :=
        h.update j other (by simpa [hupdates, hji] using hother)
      exact ⟨hoptimistic, fun workflow hmem => hpast _ (hread workflow hmem),
        fun hphase => hwriters j hji (hunsaved hphase), hsaving⟩

theorem Inv.goTo (h : Inv s) (hnew : UpdateInv s i update.data phase) :
    Inv (s.goTo i update phase) :=
  h.move rfl h.sound (fun _ hv => hv) (fun _ _ hj => hj)
    ⟨hnew.optimistic, hnew.read, hnew.unsaved, hnew.saving⟩

theorem Inv.goTo_saved (h : Inv s) (hi : s.updates i = some update) (hsaved : ¬ phase.unsaved)
    (hread : ∀ workflow ∈ phase.read, update.phase.read = some workflow) :
    Inv (s.goTo i update phase) := by
  have hupdate := h.update i update hi
  refine h.goTo ⟨hupdate.optimistic, fun workflow hmem => ?_, fun hphase => absurd hphase hsaved,
    fun workflow versionId hphase => ?_⟩
  · exact hupdate.read workflow (hread workflow hmem)
  · subst hphase
    exact absurd trivial hsaved

theorem Inv.check (h : Inv s) (hi : s.updates i = some update) (hcalled : update.phase = .called) :
    Inv (s.check i update) := by
  obtain ⟨hoptimistic, -, hunsaved, -⟩ := h.update i update hi
  unfold State.check
  split
  · exact h.goTo_saved hi (fun hphase => hphase) fun workflow hmem => by cases hmem
  · rename_i hcurrent
    refine h.goTo ⟨hoptimistic, fun workflow hmem => ?_, fun _ => ?_,
      fun workflow versionId hsaving => ?_⟩
    · cases hmem
      exact h.sound.version_past
    · exact hunsaved (by rw [hcalled]; trivial)
    · cases hsaving
      obtain ⟨hforce, hempty, hcontent⟩ := hoptimistic
      refine ⟨if_pos hcontent, ?_⟩
      -- the check has passed
      simpa [outdated, hforce, hempty] using hcurrent

theorem Inv.save (h : Inv s) (hi : s.updates i = some update)
    (hsaving : update.phase = .saving workflow versionId) (hcurrent : Current s update.phase) :
    Inv (s.save i update workflow versionId) := by
  obtain ⟨hoptimistic, hread, hunsaved, hphase⟩ := h.update i update hi
  obtain ⟨rfl, hbase⟩ := hphase workflow versionId hsaving
  rw [hsaving] at hcurrent hread hunsaved
  have hcell : (s.save i update workflow (.uuid i)).cell =
      s.cell.write .uuid i update.data.versionId := by
    simp [State.save, State.cell, State.goTo, VersionedCell.write, Workflow.update,
      hoptimistic.2.2]
  rw [hbase] at hcell
  have hpast : ∀ v, s.cell.Past .uuid v →
      (s.save i update workflow (.uuid i)).cell.Past .uuid v := by
    intro v hv
    rw [hcell]
    exact hv.write
  refine h.move rfl ?_ hpast (fun j hji hj => ?_)
    ⟨hoptimistic, fun workflow hmem => ?_, fun hphase => hphase.elim, fun _ _ hphase => ?_⟩
  · rw [hcell]
    exact h.sound.write (fun _ _ heq => by cases heq; rfl) (hunsaved trivial) hcurrent.1 hcurrent.2
  · rw [hcell]
    exact List.not_mem_cons_of_ne_of_not_mem hji hj
  · cases hmem
    exact hpast _ (hread workflow rfl)
  · cases hphase

theorem Inv.revert (h : Inv s) (hi : s.updates i = some update)
    (hreverting : update.phase = .reverting workflow) : Inv (s.revert i update workflow) := by
  obtain ⟨hoptimistic, hread, -, -⟩ := h.update i update hi
  rw [hreverting] at hread
  exact h.move rfl (h.sound.restore (hread workflow rfl)) (fun _ hv => hv) (fun _ _ hj => hj)
    ⟨hoptimistic, (fun _ hmem => nomatch hmem), fun hphase => hphase.elim,
      fun _ _ hphase => nomatch hphase⟩

theorem Inv.next (h : Inv s) {e : Event} (hi : s.updates i = some update)
    (hcurrent : ∀ j, e = .save j → Current s update.phase) (hnext : s.next i update e = some s') :
    Inv s' := by
  cases e with
  | update j data => cases hnext
  | findWorkflowForUser j found =>
    cases hphase : update.phase with
    | called =>
      simp only [State.next, hphase, Option.some.injEq] at hnext
      subst hnext
      split
      · exact h.check hi hphase
      · exact h.goTo_saved hi (fun hphase => hphase) fun workflow hmem => by cases hmem
    | _ => simp [State.next, hphase] at hnext
  | fail j =>
    have hdone : Inv (s.goTo i update .done) :=
      h.goTo_saved hi (fun hphase => hphase) fun workflow hmem => by cases hmem
    cases hphase : update.phase with
    | saving workflow versionId =>
      simp only [State.next, hphase, Option.some.injEq] at hnext
      exact hnext ▸ hdone
    | saved workflow =>
      simp only [State.next, hphase, Option.some.injEq] at hnext
      exact hnext ▸ hdone
    | _ => simp [State.next, hphase] at hnext
  | save j =>
    cases hphase : update.phase with
    | saving workflow versionId =>
      simp only [State.next, hphase, Option.some.injEq] at hnext
      exact hnext ▸ h.save hi hphase (hcurrent j rfl)
    | _ => simp [State.next, hphase] at hnext
  | findOne j =>
    cases hphase : update.phase with
    | saved workflow =>
      simp only [State.next, hphase, Option.some.injEq] at hnext
      subst hnext
      split
      · refine h.goTo_saved hi (fun hphase => hphase) fun other hmem => ?_
        rw [hphase]
        exact hmem
      · exact h.goTo_saved hi (fun hphase => hphase) fun other hmem => by cases hmem
    | _ => simp [State.next, hphase] at hnext
  | add j activated =>
    cases hphase : update.phase with
    | activating workflow =>
      simp only [State.next, hphase, Option.some.injEq] at hnext
      subst hnext
      split
      · exact h.goTo_saved hi (fun hphase => hphase) fun other hmem => by cases hmem
      · refine h.goTo_saved hi (fun hphase => hphase) fun other hmem => ?_
        rw [hphase]
        exact hmem
    | _ => simp [State.next, hphase] at hnext
  | revert j =>
    cases hphase : update.phase with
    | reverting workflow =>
      simp only [State.next, hphase, Option.some.injEq] at hnext
      exact hnext ▸ h.revert hi hphase
    | _ => simp [State.next, hphase] at hnext

theorem Inv.step (h : Inv s) {e : Event} (hallowed : allowed s e) (hstep : step s e = some s') :
    Inv s' := by
  unfold OptimisticUpdates.step at hstep
  cases hi : s.updates e.target with
  | none =>
    cases e with
    | update i data =>
      simp only [hi, Option.some.injEq] at hstep
      subst hstep
      exact h.goTo ⟨hallowed, (fun _ hmem => nomatch hmem), fun _ => h.absent i hi,
        fun _ _ hphase => nomatch hphase⟩
    | _ => simp [hi] at hstep
  | some update =>
    simp only [hi] at hstep
    refine h.next hi (fun j hj => ?_) hstep
    subst hj
    exact hallowed update hi

theorem started_inv {stored : Workflow} (hstored : ∀ i, stored.versionId ≠ .uuid i) :
    Inv (started stored) := by
  refine ⟨⟨fun i _ => hstored i, ?_, List.nodup_nil, ?_⟩, ?_, ?_⟩
  · exact fun _ hmem => nomatch hmem
  · exact fun hmem => nomatch hmem
  · exact fun _ _ hmem => nomatch hmem
  · exact fun _ _ hupdate => nomatch hupdate

/-- In every run of optimistic updates that save only what is current, from any workflow, at most
one of the updates that carry the same version writes content. -/
theorem no_lost_update {stored : Workflow} (hstored : ∀ i, stored.versionId ≠ .uuid i)
    (h : Reachable step allowed (started stored) s) : NoLostUpdate s := by
  have hinv : Inv s := h.keeps Inv (started_inv hstored) fun _ _ _ hinv => hinv.step
  exact hinv.sound.nodup

instance (s : State) (phase : Phase) : Decidable (Current s phase) :=
  match phase with
  | .saving workflow _ =>
    inferInstanceAs (Decidable (s.stored.versionId = workflow.versionId ∧
      workflow.versionId ∉ s.restored))
  | .called | .saved _ | .activating _ | .reverting _ | .done => isTrue trivial

instance (s : State) (e : Event) : Decidable (allowed s e) :=
  match e with
  | .update _ data => inferInstanceAs (Decidable data.Optimistic)
  | .save i => inferInstanceAs (Decidable (∀ update ∈ s.updates i, Current s update.phase))
  | .findWorkflowForUser _ _ | .fail _ | .findOne _ | .add _ _ | .revert _ => isTrue trivial

instance (s : State) (e : Event) : Decidable (optimistic s e) :=
  match e with
  | .update _ data => inferInstanceAs (Decidable data.Optimistic)
  | .save _ | .findWorkflowForUser _ _ | .fail _ | .findOne _ | .add _ _ | .revert _ =>
    isTrue trivial

/-- An active workflow. -/
def exampleWorkflow : Workflow := { content := 0, active := true, versionId := .earlier 0 }

/-- An update that is based on a version. -/
def basedOn (versionId : VersionId) (content : Nat) : WorkflowUpdateData :=
  { content := some content, active := none, versionId, forceSave := false }

/-- Of two updates that are based on the same version, the second one is refused, and an update that
is based on the new version is saved. -/
theorem second_update_refused :
    ∃ s, Reachable step allowed (started exampleWorkflow) s ∧
      s.written = [(2, .uuid 0), (0, .earlier 0)] ∧ NoLostUpdate s := by
  have hrun : (runAllowed step allowed (started exampleWorkflow)
      [.update 0 (basedOn (.earlier 0) 1), .update 1 (basedOn (.earlier 0) 2),
        .findWorkflowForUser 0 true, .save 0, .findWorkflowForUser 1 true, .findOne 0, .add 0 true,
        .update 2 (basedOn (.uuid 0) 3), .findWorkflowForUser 2 true, .save 2]).map
          State.written = some [(2, .uuid 0), (0, .earlier 0)] := by
    decide +kernel
  obtain ⟨s, hs, hwritten⟩ := Option.map_eq_some_iff.mp hrun
  have hreachable := reachable_of_runAllowed .start hs
  have hstored : ∀ i, exampleWorkflow.versionId ≠ .uuid i := fun _ heq => nomatch heq
  exact ⟨s, hreachable, hwritten, no_lost_update hstored hreachable⟩

/-- Two updates that are based on the same version pass the check before either of them saves, and
both save. -/
theorem both_updates_save :
    ¬ ∀ (stored : Workflow) (s : State), (∀ i, stored.versionId ≠ .uuid i) →
      Reachable step optimistic (started stored) s → NoLostUpdate s := by
  intro hall
  have hrun : (runAllowed step optimistic (started exampleWorkflow)
      [.update 0 (basedOn (.earlier 0) 1), .update 1 (basedOn (.earlier 0) 2),
        .findWorkflowForUser 0 true, .findWorkflowForUser 1 true, .save 0, .save 1]).map
          State.written = some [(1, .earlier 0), (0, .earlier 0)] := by
    decide +kernel
  obtain ⟨s, hs, hwritten⟩ := Option.map_eq_some_iff.mp hrun
  have hnodup := hall exampleWorkflow s (fun _ heq => nomatch heq)
    (reachable_of_runAllowed .start hs)
  rw [NoLostUpdate, hwritten] at hnodup
  exact absurd hnodup (by decide)

end N8n.OptimisticUpdates
