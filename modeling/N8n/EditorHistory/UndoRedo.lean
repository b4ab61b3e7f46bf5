import N8n.EditorHistory.HistoryStore

/-!
# Undo and redo are inverse

As long as a bulk drops no command that changes the workflow, and the user undoes, redoes or starts
a recording only when no commands are pending in a bulk, each entry of the undo stack leads from the
workflow before it was recorded to the workflow that the next entry starts from, and the redo stack
leads on from the current workflow. Then undoing goes back one entry and redoing goes on one entry,
as often as the stacks allow.
-/

namespace N8n.EditorHistory

open Transition

variable {s s' : State} {entry : Entry} {stack rest : List Entry} {w : Workflow} {c : Command}
  {commands : List Command}

/-- The commands of the bulk that is being recorded. -/
def State.pending (s : State) : List Command := s.currentBulkAction.getD []

/-- What the editor promises. When no commands are pending, undoing the last undoable returns the
workflow to the state before it was recorded, and redoing the last one that was undone returns it to
the state after. When nothing is being recorded, redoing as often as the user has undone returns to
the same state, for every depth. -/
structure State.Restores (s : State) : Prop where
  undo : s.pending = [] → ∀ entry ∈ s.undoStack.head?,
    s.workflow = entry.target ∧ s.undo.workflow = entry.source
  redo : s.pending = [] → ∀ entry ∈ s.redoStack.head?,
    s.workflow = entry.target ∧ s.redo.workflow = entry.source
  undoRedo : s.currentBulkAction = none → ∀ n ≤ s.undoStack.length,
    State.redo^[n] (State.undo^[n] s) = s
  redoUndo : s.currentBulkAction = none → ∀ n ≤ s.redoStack.length,
    State.undo^[n] (State.redo^[n] s) = s

/-- A command is recorded truthfully. -/
def truthful (s : State) : Event → Prop
  | .record c => c.Describes s.workflow
  | _ => True

/-- Commands are recorded truthfully, a command that is dropped changes nothing, and only commands
are recorded while there are commands in a bulk. -/
def allowed (s : State) : Event → Prop
  | .record c =>
    c.Describes s.workflow ∧
      (State.alreadyIn s.pending c = true → c.perform s.workflow = s.workflow)
  | .startRecordingUndo | .undo | .redo => s.pending = []
  | .stopRecordingUndo => True

/-- The entries of a stack lead to the workflow, one after the other. -/
def Chain : List Entry → Workflow → Prop
  | [], _ => True
  | entry :: rest, w =>
    entry.target = w ∧
      reversibleCommands.Replays entry.undoable.commands entry.source entry.target ∧
      Chain rest entry.source

/-- The workflow that the undo stack leads to. -/
def State.base (s : State) : Workflow := if s.pending = [] then s.workflow else s.bulkSource

/-- The stacks lead to the workflow, and the pending commands lead on from the undo stack. The redo
stack and the undo stack together are never longer than a stack may be. -/
structure Inv (s : State) : Prop where
  undo : Chain s.undoStack s.base
  redo : Chain s.redoStack s.workflow
  bulk : reversibleCommands.Replays s.pending s.base s.workflow
  undoLimit : s.undoStack.length ≤ stackLimit
  limit : s.redoStack ≠ [] →
    s.undoStack.length + s.redoStack.length + (if s.pending = [] then 0 else 1) ≤ stackLimit

theorem Inv.of_idle (hpending : s.pending = []) (hundo : Chain s.undoStack s.workflow)
    (hredo : Chain s.redoStack s.workflow) (hundoLimit : s.undoStack.length ≤ stackLimit)
    (hlimit : s.redoStack ≠ [] → s.undoStack.length + s.redoStack.length ≤ stackLimit) :
    Inv s := by
  have hbase : s.base = s.workflow := if_pos hpending
  refine ⟨?_, hredo, ?_, hundoLimit, ?_⟩
  · rw [hbase]
    exact hundo
  · rw [hbase, hpending]
    rfl
  · rw [if_pos hpending]
    exact hlimit

theorem Inv.idle (h : Inv s) (hpending : s.pending = []) :
    Chain s.undoStack s.workflow ∧
      (s.redoStack ≠ [] → s.undoStack.length + s.redoStack.length ≤ stackLimit) := by
  have hundo := h.undo
  have hlimit := h.limit
  rw [State.base, if_pos hpending] at hundo
  rw [if_pos hpending] at hlimit
  exact ⟨hundo, hlimit⟩

theorem Chain.dropLast (h : Chain stack w) : Chain stack.dropLast w := by
  induction stack generalizing w with
  | nil => exact h
  | cons entry rest ih =>
    cases rest with
    | nil => trivial
    | cons next rest =>
      obtain ⟨htarget, hreplays, hrest⟩ := h
      exact ⟨htarget, hreplays, ih hrest⟩

section Reverting

theorem revertAll_eq (commands : List Command) (w : Workflow) :
    State.revertAll commands w =
      reversibleCommands.applyAll (reversibleCommands.reverseAll commands) w := by
  rw [State.revertAll, ReversibleCommands.applyAll, ReversibleCommands.reverseAll, List.foldl_map,
    List.foldl_reverse]
  congr 1
  funext c w
  rw [Command.revert_eq_perform]
  rfl

theorem revertAll_of_replays {w' : Workflow}
    (h : reversibleCommands.Replays commands w w') : State.revertAll commands w' = w := by
  rw [revertAll_eq]
  exact h.reverseAll.applyAll_eq

theorem reverseCommands_reverseCommands (commands : List Command) :
    State.reverseCommands (State.reverseCommands commands) = commands := by
  rw [State.reverseCommands, State.reverseCommands, ← List.map_reverse, List.reverse_reverse,
    List.map_map]
  refine (List.map_congr_left fun c _ => ?_).trans (List.map_id commands)
  exact c.getReverseCommand_getReverseCommand

/-- The undoable that takes an undoable back. -/
def Undoable.reversed : Undoable → Undoable
  | .command c => .command c.getReverseCommand
  | .bulk commands => .bulk (State.reverseCommands commands)

/-- The entry for the other stack. -/
def Entry.reversed (entry : Entry) : Entry :=
  { undoable := entry.undoable.reversed, source := entry.target, target := entry.source }

theorem Entry.reversed_reversed (entry : Entry) : entry.reversed.reversed = entry := by
  obtain ⟨undoable, source, target⟩ := entry
  cases undoable with
  | command c => simp [Entry.reversed, Undoable.reversed, c.getReverseCommand_getReverseCommand]
  | bulk commands => simp [Entry.reversed, Undoable.reversed, reverseCommands_reverseCommands]

theorem Undoable.reversed_commands (undoable : Undoable) :
    undoable.reversed.commands = reversibleCommands.reverseAll undoable.commands := by
  cases undoable <;> rfl

theorem replays_reversed
    (h : reversibleCommands.Replays entry.undoable.commands entry.source entry.target) :
    reversibleCommands.Replays entry.reversed.undoable.commands entry.reversed.source
      entry.reversed.target := by
  show reversibleCommands.Replays entry.undoable.reversed.commands entry.target entry.source
  rw [Undoable.reversed_commands]
  exact h.reverseAll

end Reverting

theorem undo_eq (hstack : s.undoStack = entry :: rest) (hroom : s.redoStack.length < stackLimit) :
    s.undo =
      { s with
        undoStack := rest
        redoStack := entry.reversed :: s.redoStack
        workflow := State.revertAll entry.undoable.commands s.workflow } := by
  have hlimit : ∀ t : State, t.redoStack.length ≤ stackLimit → t.checkRedoStackLimit = t :=
    fun t ht => if_neg (Nat.not_lt.mpr ht)
  obtain ⟨undoable, source, target⟩ := entry
  unfold State.undo
  rw [hstack]
  cases undoable with
  | command c => exact hlimit _ hroom
  | bulk commands => exact hlimit _ hroom

/-- What `redo` does when the undo stack is not full, unless it redoes a single command while a
bulk is being recorded. -/
theorem redo_eq (hstack : s.redoStack = entry :: rest)
    (hcase : s.currentBulkAction = none ∨ ∃ commands, entry.undoable = .bulk commands)
    (htarget : entry.target = s.workflow)
    (hsource : entry.source = State.revertAll entry.undoable.commands s.workflow)
    (hroom : s.undoStack.length < stackLimit) :
    s.redo =
      { s with
        undoStack := entry.reversed :: s.undoStack
        redoStack := rest
        workflow := entry.source } := by
  have hlimit : ∀ t : State, t.undoStack.length ≤ stackLimit → t.checkUndoStackLimit = t :=
    fun t ht => if_neg (Nat.not_lt.mpr ht)
  obtain ⟨undoable, source, target⟩ := entry
  change source = State.revertAll undoable.commands s.workflow at hsource
  cases htarget
  subst hsource
  unfold State.redo
  rw [hstack]
  cases undoable with
  | bulk commands => exact hlimit _ hroom
  | command c =>
    obtain hnone | ⟨commands, hbulk⟩ := hcase
    · simp only [State.pushCommandToUndo, hnone]
      exact hlimit _ hroom
    · cases hbulk

theorem redo_eq_open (hstack : s.redoStack = entry :: rest)
    (hopen : s.currentBulkAction = some []) (hcommand : entry.undoable = .command c)
    (hlength : s.undoStack.length ≤ stackLimit) :
    s.redo =
      { s with
        redoStack := rest
        currentBulkAction := some [c.getReverseCommand]
        bulkSource := s.workflow
        workflow := c.revert s.workflow } := by
  have hlimit : ∀ t : State, t.undoStack.length ≤ stackLimit → t.checkUndoStackLimit = t :=
    fun t ht => if_neg (Nat.not_lt.mpr ht)
  obtain ⟨undoable, source, target⟩ := entry
  cases hcommand
  unfold State.redo
  rw [hstack]
  simp only [State.pushCommandToUndo, hopen]
  exact hlimit _ hlength

section Pushing

/-- A stack with one more entry, and without the oldest one when it gets too long. -/
def pushed (stack : List Entry) (entry : Entry) : List Entry :=
  if stackLimit < (entry :: stack).length then (entry :: stack).dropLast else entry :: stack

theorem pushBulkCommandToUndo_eq (s : State) (entry : Entry) :
    s.pushBulkCommandToUndo entry = { s with undoStack := pushed s.undoStack entry } := by
  unfold State.pushBulkCommandToUndo State.checkUndoStackLimit pushed
  split <;> rfl

theorem chain_pushed (hchain : Chain stack entry.source)
    (hreplays : reversibleCommands.Replays entry.undoable.commands entry.source entry.target) :
    Chain (pushed stack entry) entry.target := by
  have hnew : Chain (entry :: stack) entry.target := ⟨rfl, hreplays, hchain⟩
  unfold pushed
  split
  · exact hnew.dropLast
  · exact hnew

theorem pushed_length_le (stack : List Entry) (entry : Entry) :
    (pushed stack entry).length ≤ stack.length + 1 := by
  unfold pushed
  split
  · rw [List.length_dropLast, List.length_cons]
    omega
  · exact Nat.le_refl _

theorem pushed_length_le_stackLimit (hlength : stack.length ≤ stackLimit) (entry : Entry) :
    (pushed stack entry).length ≤ stackLimit := by
  unfold pushed
  split
  · rw [List.length_dropLast, List.length_cons]
    omega
  · rename_i hfull
    exact Nat.not_lt.mp hfull

end Pushing

/-- When no commands are pending and this is not a case of `redo_eq`, a single command is redone
while a bulk without commands is being recorded. -/
theorem single_in_open_bulk (hpending : s.pending = [])
    (hcase : ¬ (s.currentBulkAction = none ∨ ∃ commands, entry.undoable = .bulk commands)) :
    ∃ c, s.currentBulkAction = some [] ∧ entry.undoable = .command c := by
  obtain ⟨hsome, hbulk⟩ := not_or.mp hcase
  cases hcurrent : s.currentBulkAction with
  | none => exact absurd hcurrent hsome
  | some commands =>
    rw [State.pending, hcurrent, Option.getD_some] at hpending
    subst hpending
    cases hundoable : entry.undoable with
    | bulk commands => exact absurd ⟨commands, hundoable⟩ hbulk
    | command c => exact ⟨c, rfl, rfl⟩

section Keeping

variable (h : Inv s)
include h

theorem Inv.undo_top (hpending : s.pending = []) (hstack : s.undoStack = entry :: rest) :
    entry.target = s.workflow ∧ State.revertAll entry.undoable.commands s.workflow = entry.source ∧
      reversibleCommands.Replays entry.undoable.commands entry.source entry.target ∧
      Chain rest entry.source := by
  have hchain := (h.idle hpending).1
  rw [hstack] at hchain
  obtain ⟨htarget, hreplays, hrest⟩ := hchain
  refine ⟨htarget, ?_, hreplays, hrest⟩
  rw [← htarget]
  exact revertAll_of_replays hreplays

theorem Inv.redo_top (hstack : s.redoStack = entry :: rest) :
    entry.target = s.workflow ∧ State.revertAll entry.undoable.commands s.workflow = entry.source ∧
      reversibleCommands.Replays entry.undoable.commands entry.source entry.target ∧
      Chain rest entry.source := by
  have hchain := h.redo
  rw [hstack] at hchain
  obtain ⟨htarget, hreplays, hrest⟩ := hchain
  refine ⟨htarget, ?_, hreplays, hrest⟩
  rw [← htarget]
  exact revertAll_of_replays hreplays

theorem Inv.room_redo (hstack : s.undoStack = entry :: rest) : s.redoStack.length < stackLimit := by
  have hlength : s.undoStack.length = rest.length + 1 := by rw [hstack, List.length_cons]
  by_cases hempty : s.redoStack = []
  · rw [hempty]
    decide
  · have hlimit := h.limit hempty
    omega

theorem Inv.room_undo (hstack : s.redoStack = entry :: rest) : s.undoStack.length < stackLimit := by
  have hlength : s.redoStack.length = rest.length + 1 := by rw [hstack, List.length_cons]
  have hlimit := h.limit (by rw [hstack]; exact List.cons_ne_nil _ _)
  omega

theorem Inv.undo_step (hpending : s.pending = []) : Inv s.undo := by
  cases hstack : s.undoStack with
  | nil =>
    have hsame : s.undo = s := by
      unfold State.undo
      rw [hstack]
    rw [hsame]
    exact h
  | cons entry rest =>
    obtain ⟨htarget, hsource, hreplays, hrest⟩ := h.undo_top hpending hstack
    have hlimit := (h.idle hpending).2
    have hundo := h.undoLimit
    rw [hstack, List.length_cons] at hlimit hundo
    rw [undo_eq hstack (h.room_redo hstack), hsource]
    refine .of_idle hpending hrest ⟨rfl, replays_reversed hreplays, ?_⟩
      (Nat.le_of_succ_le hundo) fun _ => ?_
    · show Chain s.redoStack entry.target
      rw [htarget]
      exact h.redo
    · show rest.length + (s.redoStack.length + 1) ≤ stackLimit
      by_cases hempty : s.redoStack = []
      · rw [hempty, List.length_nil]
        omega
      · have hle := hlimit hempty
        omega

theorem Inv.redo_step (hpending : s.pending = []) : Inv s.redo := by
  cases hstack : s.redoStack with
  | nil =>
    have hsame : s.redo = s := by
      unfold State.redo
      rw [hstack]
    rw [hsame]
    exact h
  | cons entry rest =>
    obtain ⟨htarget, hsource, hreplays, hrest⟩ := h.redo_top hstack
    obtain ⟨hundo, hlimit⟩ := h.idle hpending
    replace hlimit := hlimit (by rw [hstack]; exact List.cons_ne_nil _ _)
    rw [hstack, List.length_cons] at hlimit
    by_cases hcase : s.currentBulkAction = none ∨ ∃ commands, entry.undoable = .bulk commands
    · rw [redo_eq hstack hcase htarget hsource.symm (h.room_undo hstack)]
      refine .of_idle hpending ⟨rfl, replays_reversed hreplays, ?_⟩ hrest ?_ fun _ => ?_
      · show Chain s.undoStack entry.target
        rw [htarget]
        exact hundo
      · show s.undoStack.length + 1 ≤ stackLimit
        omega
      · show s.undoStack.length + 1 + rest.length ≤ stackLimit
        omega
    · -- a single command, while a bulk is being recorded
      obtain ⟨c, hopen, hcommand⟩ := single_in_open_bulk hpending hcase
      rw [hcommand] at hsource
      rw [redo_eq_open hstack hopen hcommand h.undoLimit]
      change c.revert s.workflow = entry.source at hsource
      have hback := replays_reversed hreplays
      change reversibleCommands.Replays entry.undoable.reversed.commands entry.target
        entry.source at hback
      rw [hcommand, htarget] at hback
      rw [hsource]
      refine ⟨hundo, hrest, hback, h.undoLimit, fun _ => ?_⟩
      show s.undoStack.length + rest.length + 1 ≤ stackLimit
      omega

theorem Inv.start_step (hpending : s.pending = []) : Inv s.startRecordingUndo := by
  obtain ⟨hundo, hlimit⟩ := h.idle hpending
  exact .of_idle rfl hundo h.redo h.undoLimit hlimit

theorem Inv.stop_step : Inv s.stopRecordingUndo := by
  obtain hpending | ⟨first, rest, hpending⟩ :
      s.pending = [] ∨ ∃ first rest, s.currentBulkAction = some (first :: rest) := by
    cases hcurrent : s.currentBulkAction with
    | none => exact .inl (by rw [State.pending, hcurrent]; rfl)
    | some commands =>
      cases commands with
      | nil => exact .inl (by rw [State.pending, hcurrent]; rfl)
      | cons first rest => exact .inr ⟨first, rest, rfl⟩
  · have hstop : s.stopRecordingUndo = { s with currentBulkAction := none } := by
      unfold State.stopRecordingUndo
      split
      · rename_i first rest hcurrent
        rw [State.pending, hcurrent] at hpending
        cases hpending
      · rfl
    obtain ⟨hundo, hlimit⟩ := h.idle hpending
    rw [hstop]
    exact .of_idle rfl hundo h.redo h.undoLimit hlimit
  · have hcommands : s.pending = first :: rest := by rw [State.pending, hpending]; rfl
    have hsome : s.pending ≠ [] := by rw [hcommands]; exact List.cons_ne_nil _ _
    have hbase : s.base = s.bulkSource := if_neg hsome
    have hundo := h.undo
    have hbulk := h.bulk
    have hlimit := h.limit
    rw [hbase] at hundo
    rw [hbase, hcommands] at hbulk
    rw [if_neg hsome] at hlimit
    have hstop : s.stopRecordingUndo =
        { s with
          undoStack := pushed s.undoStack
            { undoable := .bulk (first :: rest), source := s.bulkSource, target := s.workflow }
          currentBulkAction := none } := by
      unfold State.stopRecordingUndo
      rw [hpending]
      simp only [pushBulkCommandToUndo_eq]
    rw [hstop]
    refine .of_idle rfl (chain_pushed hundo hbulk) h.redo
      (pushed_length_le_stackLimit h.undoLimit _) fun hredo => ?_
    have hroom := hlimit hredo
    have hle := pushed_length_le s.undoStack
      { undoable := .bulk (first :: rest), source := s.bulkSource, target := s.workflow }
    refine Nat.le_trans (Nat.add_le_add_right hle _) ?_
    show s.undoStack.length + 1 + s.redoStack.length ≤ stackLimit
    omega

theorem Inv.record_step (hdescribes : c.Describes s.workflow)
    (hdropped : State.alreadyIn s.pending c = true → c.perform s.workflow = s.workflow) :
    Inv (s.record c) := by
  have hreplays := ReversibleCommands.replays_single (r := reversibleCommands) hdescribes
  have hroom : ¬ stackLimit < s.undoStack.length := Nat.not_lt.mpr h.undoLimit
  cases hcurrent : s.currentBulkAction with
  | none =>
    have hpending : s.pending = [] := by rw [State.pending, hcurrent]; rfl
    have hundo := (h.idle hpending).1
    have hrecord : s.record c =
        { s with
          undoStack := pushed s.undoStack
            { undoable := .command c, source := s.workflow, target := c.perform s.workflow }
          workflow := c.perform s.workflow
          redoStack := [] } := by
      have hpushed := pushBulkCommandToUndo_eq { s with workflow := c.perform s.workflow }
        { undoable := .command c, source := s.workflow, target := c.perform s.workflow }
      simp only [State.pushBulkCommandToUndo] at hpushed
      simp only [State.record, State.pushCommandToUndo, hcurrent, if_true] at hpushed ⊢
      rw [hpushed]
    rw [hrecord]
    exact .of_idle hpending (chain_pushed hundo hreplays) trivial
      (pushed_length_le_stackLimit h.undoLimit _) fun hredo => absurd rfl hredo
  | some commands =>
    have hpending : s.pending = commands := by rw [State.pending, hcurrent]; rfl
    by_cases hin : State.alreadyIn commands c = true
    · have hsame := hdropped (hpending ▸ hin)
      have hrecord : s.record c = { s with redoStack := [] } := by
        simp [State.record, State.pushCommandToUndo, State.checkUndoStackLimit, hcurrent, hin,
          hsame, hroom]
      rw [hrecord]
      exact ⟨h.undo, trivial, h.bulk, h.undoLimit, fun hredo => absurd rfl hredo⟩
    · have hrecord : s.record c =
          { s with
            currentBulkAction := some (commands ++ [c])
            bulkSource := s.base
            workflow := c.perform s.workflow
            redoStack := [] } := by
        have hsource : (if commands.isEmpty then s.workflow else s.bulkSource) = s.base := by
          rw [State.base, hpending]
          simp only [List.isEmpty_iff]
        simp [State.record, State.pushCommandToUndo, State.checkUndoStackLimit, hcurrent, hin,
          hroom, ← hsource]
      rw [hrecord]
      have hbulk := h.bulk
      rw [hpending] at hbulk
      have hbase : State.base { s with
          currentBulkAction := some (commands ++ [c]), bulkSource := s.base,
          workflow := c.perform s.workflow, redoStack := [] } = s.base :=
        if_neg (List.append_ne_nil_of_right_ne_nil _ (List.cons_ne_nil _ _))
      refine ⟨?_, trivial, ?_, h.undoLimit, fun hredo => absurd rfl hredo⟩
      · rw [hbase]
        exact h.undo
      · rw [hbase]
        exact hbulk.append hreplays

end Keeping

section Depth

theorem undo_redo (h : Inv s) (hnone : s.currentBulkAction = none)
    (hstack : s.undoStack = entry :: rest) :
    s.undo.undoStack = rest ∧ s.undo.currentBulkAction = none ∧ s.undo.redo = s := by
  have hpending : s.pending = [] := by rw [State.pending, hnone]; rfl
  obtain ⟨htarget, hsource, hreplays, -⟩ := h.undo_top hpending hstack
  have hroom := h.undoLimit
  rw [hstack, List.length_cons] at hroom
  have hundo := undo_eq hstack (h.room_redo hstack)
  have hundone := h.undo_step hpending
  rw [hsource] at hundo
  rw [hundo] at hundone ⊢
  refine ⟨rfl, hnone, ?_⟩
  have hback := (hundone.redo_top rfl).2.1
  have hredo := redo_eq (s := { s with
    undoStack := rest, redoStack := entry.reversed :: s.redoStack, workflow := entry.source })
    rfl (.inl hnone) rfl hback.symm hroom
  rw [hredo, Entry.reversed_reversed]
  show State.mk (entry :: rest) s.redoStack s.currentBulkAction s.bulkSource entry.target = s
  rw [← hstack, htarget]

theorem redo_undo (h : Inv s) (hnone : s.currentBulkAction = none)
    (hstack : s.redoStack = entry :: rest) :
    s.redo.redoStack = rest ∧ s.redo.currentBulkAction = none ∧ s.redo.undo = s := by
  have hpending : s.pending = [] := by rw [State.pending, hnone]; rfl
  obtain ⟨htarget, hsource, hreplays, -⟩ := h.redo_top hstack
  have hredo := redo_eq hstack (.inl hnone) htarget hsource.symm (h.room_undo hstack)
  have hredone := h.redo_step hpending
  rw [hredo] at hredone ⊢
  refine ⟨rfl, hnone, ?_⟩
  have hroom := h.limit (by rw [hstack]; exact List.cons_ne_nil _ _)
  rw [hstack, List.length_cons] at hroom
  have hback := (hredone.undo_top hpending rfl).2.1
  have hundo := undo_eq (s := { s with
    undoStack := entry.reversed :: s.undoStack, redoStack := rest, workflow := entry.source })
    rfl (show rest.length < stackLimit by omega)
  rw [hundo, Entry.reversed_reversed]
  show State.mk s.undoStack (entry :: rest) s.currentBulkAction s.bulkSource
    (State.revertAll entry.reversed.undoable.commands entry.source) = s
  rw [hback]
  show State.mk s.undoStack (entry :: rest) s.currentBulkAction s.bulkSource entry.target = s
  rw [← hstack, htarget]

/-- There are `n` entries to undo, and nothing is being recorded. -/
structure CanUndo (n : Nat) (s : State) : Prop where
  inv : Inv s
  idle : s.currentBulkAction = none
  length : n ≤ s.undoStack.length

structure CanRedo (n : Nat) (s : State) : Prop where
  inv : Inv s
  idle : s.currentBulkAction = none
  length : n ≤ s.redoStack.length

theorem CanUndo.step {n : Nat} (h : CanUndo (n + 1) s) : CanUndo n s.undo ∧ s.undo.redo = s := by
  have hpending : s.pending = [] := by rw [State.pending, h.idle]; rfl
  have hlength := h.length
  cases hstack : s.undoStack with
  | nil =>
    rw [hstack, List.length_nil] at hlength
    omega
  | cons entry rest =>
    obtain ⟨hrest, hidle, hback⟩ := undo_redo h.inv h.idle hstack
    rw [hstack, List.length_cons] at hlength
    refine ⟨⟨h.inv.undo_step hpending, hidle, ?_⟩, hback⟩
    rw [hrest]
    omega

theorem CanRedo.step {n : Nat} (h : CanRedo (n + 1) s) : CanRedo n s.redo ∧ s.redo.undo = s := by
  have hpending : s.pending = [] := by rw [State.pending, h.idle]; rfl
  have hlength := h.length
  cases hstack : s.redoStack with
  | nil =>
    rw [hstack, List.length_nil] at hlength
    omega
  | cons entry rest =>
    obtain ⟨hrest, hidle, hback⟩ := redo_undo h.inv h.idle hstack
    rw [hstack, List.length_cons] at hlength
    refine ⟨⟨h.inv.redo_step hpending, hidle, ?_⟩, hback⟩
    rw [hrest]
    omega

end Depth

theorem Inv.restores (h : Inv s) : s.Restores := by
  refine ⟨fun hpending entry hentry => ?_, fun hpending entry hentry => ?_, fun hidle n hn => ?_,
    fun hidle n hn => ?_⟩
  · obtain ⟨rest, hstack⟩ := List.head?_eq_some_iff.mp hentry
    obtain ⟨htarget, hsource, -, -⟩ := h.undo_top hpending hstack
    rw [undo_eq hstack (h.room_redo hstack)]
    exact ⟨htarget.symm, hsource⟩
  · obtain ⟨rest, hstack⟩ := List.head?_eq_some_iff.mp hentry
    obtain ⟨htarget, hsource, -, -⟩ := h.redo_top hstack
    refine ⟨htarget.symm, ?_⟩
    by_cases hcase : s.currentBulkAction = none ∨ ∃ commands, entry.undoable = .bulk commands
    · rw [redo_eq hstack hcase htarget hsource.symm (h.room_undo hstack)]
    · obtain ⟨c, hopen, hcommand⟩ := single_in_open_bulk hpending hcase
      rw [redo_eq_open hstack hopen hcommand h.undoLimit]
      rw [hcommand] at hsource
      exact hsource
  · exact iterate_back CanUndo (fun _ _ hleft => hleft.step) n ⟨h, hidle, hn⟩
  · exact iterate_back CanRedo (fun _ _ hleft => hleft.step) n ⟨h, hidle, hn⟩

theorem Inv.step (h : Inv s) {e : Event} (hallowed : allowed s e) (hstep : step s e = some s') :
    Inv s' := by
  cases e with
  | record c =>
    cases hstep
    exact h.record_step hallowed.1 hallowed.2
  | startRecordingUndo =>
    cases hstep
    exact h.start_step hallowed
  | stopRecordingUndo =>
    cases hstep
    exact h.stop_step
  | undo =>
    cases hstep
    exact h.undo_step hallowed
  | redo =>
    cases hstep
    exact h.redo_step hallowed

/-- In every run whose steps are allowed, from any workflow, undo and redo are inverse. -/
theorem history_restores (workflow : Workflow)
    (h : Reachable step allowed (started workflow) s) : s.Restores := by
  refine Inv.restores (h.keeps Inv ?_ fun _ _ _ hinv => hinv.step)
  exact .of_idle rfl trivial trivial (Nat.zero_le _) fun hredo => absurd rfl hredo

/-- The node with a name, that is otherwise as every new node. -/
def newNode (name : List Char) : INodeUi :=
  { id := name, name, position := (0, 0), disabled := false, parameters := 0 }

/-- Two nodes that are not connected. -/
def twoNodes : Workflow where
  node name := if name = ['a'] ∨ name = ['b'] then some (newNode name) else none
  connected _ := false

/-- Two connections of different types from the first node to the second. -/
def connection (type : List Char) : IConnection × IConnection :=
  ({ node := ['a'], type, index := 0 }, { node := ['b'], type, index := 0 })

/-- A node is added and renamed in a bulk. -/
theorem added_and_renamed :
    ((((started twoNodes).startRecordingUndo.record (.addNode (newNode ['c']))).record
      (.renameNode ['c'] ['d'])).stopRecordingUndo).Restores := by
  refine history_restores twoNodes (.next (e := .stopRecordingUndo) (.next (e := .record _)
    (.next (e := .record _) (.next (e := .startRecordingUndo) .start rfl rfl) ?_ rfl) ?_ rfl)
    trivial rfl)
  · exact ⟨rfl, fun hin => absurd hin (by decide)⟩
  · refine ⟨⟨⟨newNode ['c'], rfl, rfl⟩, rfl, fun _ hconnected => ?_⟩, fun hin => ?_⟩
    · cases hconnected
    · exact absurd hin (by decide)

/-- The second of two connections is dropped from a bulk, and undoing the bulk leaves it. -/
theorem second_connection_stays :
    ¬ ∀ (workflow : Workflow) (s : State), Reachable step truthful (started workflow) s →
      s.Restores := by
  intro hall
  let s := (((started twoNodes).startRecordingUndo.record
    (.addConnection (connection "main".toList))).record
    (.addConnection (connection "ai_tool".toList))).stopRecordingUndo
  have hs : Reachable step truthful (started twoNodes) s := by
    refine .next (e := .stopRecordingUndo) (.next (e := .record _) (.next (e := .record _)
      (.next (e := .startRecordingUndo) .start trivial rfl) ?_ rfl) ?_ rfl) trivial rfl
    · rfl
    · rfl
  have hundone := ((hall twoNodes s hs).undo rfl _ rfl).2
  have hstays : s.undo.workflow.connected (connection "ai_tool".toList) = true := by
    decide +kernel
  rw [hundone] at hstays
  exact absurd hstays (by decide +kernel)

end N8n.EditorHistory
