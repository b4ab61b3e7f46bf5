import N8n.Scaling.LeaderTimers

/-!
# The timers end with the leadership

Stopping the pruning does nothing once the instance is a follower, which is when it is asked to
stop, and what stops a service clears the timers that it knows of, not the ones that a pass in
flight is about to set. When nothing of that kind is there at the end of a leadership, no timer is
live after it.
-/

namespace N8n.Scaling

open Transition

/-- The timer that a pass belongs to. -/
def TimerPass.kind : TimerPass → TimerKind
  | .softDeleting => .softDeletion
  | .findingSoftDeleted => .hardDeletion
  | .deletingBinaryData _ => .hardDeletion
  | .deletingRows _ => .hardDeletion
  | .gettingInProgressIds => .recovery
  | .findingJobs _ => .recovery
  | .markingAsCrashed _ => .recovery

namespace LeaderTimers

variable {config : LeaderConfig} {s s' : LeaderTimers}

/-- After the end of a leadership no timer is live. -/
structure Ended (s : LeaderTimers) : Prop where
  pruning : s.pruningEnded → ∀ timer ∈ s.timers, timer.kind = .recovery
  recovery : s.recoveryEnded → ∀ timer ∈ s.timers, timer.kind ≠ .recovery

/-- No hard deletion is in flight, and the live timers of the pruning are some that are cleared. -/
def pruningReady (s : LeaderTimers) (cleared : List (Option Nat)) : Prop :=
  (∀ pass ∈ s.passes, pass.kind ≠ .hardDeletion) ∧
    ∀ timer ∈ s.timers, timer.kind ≠ .recovery → some timer.id ∈ cleared

/-- No recovery is in flight, and the live timers of the recovery are some that are cleared. -/
def recoveryReady (s : LeaderTimers) (cleared : List (Option Nat)) : Prop :=
  (∀ pass ∈ s.passes, pass.kind ≠ .recovery) ∧
    ∀ timer ∈ s.timers, timer.kind = .recovery → some timer.id ∈ cleared

/-- Does the reply to a call end the leadership, and is `leader-stepdown` emitted then? -/
def stepsDown (s : LeaderTimers) (index : Nat) (reply : LeaderReply) : Option Bool :=
  match s.calls[index]?, reply with
  | some .gettingKey, .other => if s.isLeader then some true else none
  | some .gettingKey, .vacant => some true
  | some .settingKey, .keyTaken => some false
  | _, _ => none

/-- The leadership ends when what is live is cleared by it: at a step-down the recovery timer that
is known, at a shutdown the timers that are known, those of the pruning on a leader only. -/
def endsCleanly (config : LeaderConfig) (s : LeaderTimers) : LeaderEvent → Prop
  | .reply index reply =>
    ∀ emits ∈ s.stepsDown index reply,
      s.pruningReady [] ∧
        s.recoveryReady (if emits ∧ s.handlersRegistered then [s.recoveryTimeout] else [])
  | .shutdownPruning =>
    s.pruningReady
      (if s.isEnabled config then [s.softDeletionInterval, s.hardDeletionTimeout] else [])
  | .stopMain => config.isSingleMain = false → s.recoveryReady [s.recoveryTimeout]
  | .queuePaused => s.recoveryReady [s.recoveryTimeout]
  | _ => True

instance (s : LeaderTimers) (cleared : List (Option Nat)) : Decidable (s.pruningReady cleared) :=
  inferInstanceAs (Decidable (_ ∧ _))

instance (s : LeaderTimers) (cleared : List (Option Nat)) : Decidable (s.recoveryReady cleared) :=
  inferInstanceAs (Decidable (_ ∧ _))

instance (config : LeaderConfig) (s : LeaderTimers) : DecidablePred (s.endsCleanly config)
  | .reply .. => inferInstanceAs (Decidable (∀ _ ∈ _, _))
  | .shutdownPruning => inferInstanceAs (Decidable (pruningReady ..))
  | .stopMain => inferInstanceAs (Decidable (_ → _))
  | .queuePaused => inferInstanceAs (Decidable (recoveryReady ..))
  | .registerEventHandlers => isTrue trivial
  | .initRole => isTrue trivial
  | .setupQueue => isTrue trivial
  | .initPruning => isTrue trivial
  | .checkLeader => isTrue trivial
  | .fire _ => isTrue trivial
  | .resume .. => isTrue trivial

/-- What the events keep: after the end of a leadership nothing is live or in flight that could set
a timer, and the services are not started again. -/
structure Invariant (s : LeaderTimers) : Prop where
  pruning : s.pruningEnded → s.pruningReady []
  recovery : s.recoveryEnded → s.recoveryReady []
  pruningIdle : s.pruningEnded → s.isLeader = false ∨ s.isShuttingDown
  recoveryIdle : s.recoveryEnded → s.isLeader = false ∨ s.stopping
  pausing : s.pausingQueue → s.stopping

theorem Invariant.ended (h : Invariant s) : s.Ended where
  pruning hended timer hmem := by
    by_contra hkind
    exact List.not_mem_nil ((h.pruning hended).2 timer hmem hkind)
  recovery hended timer hmem hkind :=
    List.not_mem_nil ((h.recovery hended).2 timer hmem hkind)

/-- A timer or a pass goes on: what is set or begun belongs to one of the passes or timers there
were, and the role and the stages of the shutdown are the same. -/
structure Continues (s s' : LeaderTimers) : Prop where
  flags :
    (s'.role, s'.pruningEnded, s'.recoveryEnded, s'.isShuttingDown, s'.stopping, s'.pausingQueue) =
      (s.role, s.pruningEnded, s.recoveryEnded, s.isShuttingDown, s.stopping, s.pausingQueue)
  timers : ∀ timer ∈ s'.timers, timer ∈ s.timers ∨
    timer.kind ≠ .softDeletion ∧ ∃ pass ∈ s.passes, pass.kind = timer.kind
  passes : ∀ pass ∈ s'.passes, (∃ old ∈ s.passes, old.kind = pass.kind) ∨
    ∃ timer ∈ s.timers, timer.kind = pass.kind

theorem Invariant.continues (h : Invariant s) (hcontinues : Continues s s') : Invariant s' := by
  obtain ⟨hflags, htimers, hpasses⟩ := hcontinues
  simp only [Prod.mk.injEq] at hflags
  obtain ⟨hrole, hpruning, hrecovery, hshutdown, hstopping, hpausing⟩ := hflags
  refine ⟨fun hended => ?_, fun hended => ?_, fun hended => ?_, fun hended => ?_, ?_⟩
  · -- a hard deletion that is new comes from a pass or a timer of the pruning, and there are none
    rw [hpruning] at hended
    obtain ⟨hnoPass, hnoTimer⟩ := h.pruning hended
    refine ⟨fun pass hmem hkind => ?_, fun timer hmem hkind => ?_⟩
    · obtain ⟨old, hold, heq⟩ | ⟨timer, htimer, heq⟩ := hpasses pass hmem
      · exact hnoPass old hold (heq.trans hkind)
      · refine List.not_mem_nil (hnoTimer timer htimer ?_)
        rw [heq, hkind]
        nofun
    · obtain hold | ⟨hsoft, pass, hpass, heq⟩ := htimers timer hmem
      · exact hnoTimer timer hold hkind
      · refine absurd ?_ (hnoPass pass hpass)
        rw [heq]
        cases hcase : timer.kind with
        | softDeletion => exact absurd hcase hsoft
        | hardDeletion => rfl
        | recovery => exact absurd hcase hkind
  · rw [hrecovery] at hended
    obtain ⟨hnoPass, hnoTimer⟩ := h.recovery hended
    refine ⟨fun pass hmem hkind => ?_, fun timer hmem hkind => ?_⟩
    · obtain ⟨old, hold, heq⟩ | ⟨timer, htimer, heq⟩ := hpasses pass hmem
      · exact hnoPass old hold (heq.trans hkind)
      · exact List.not_mem_nil (hnoTimer timer htimer (heq.trans hkind))
    · obtain hold | ⟨-, pass, hpass, heq⟩ := htimers timer hmem
      · exact hnoTimer timer hold hkind
      · exact absurd (heq.trans hkind) (hnoPass pass hpass)
  · rw [isLeader, hrole, hshutdown]
    exact h.pruningIdle (hpruning ▸ hended)
  · rw [isLeader, hrole, hstopping]
    exact h.recoveryIdle (hrecovery ▸ hended)
  · rw [hpausing, hstopping]
    exact h.pausing

section Passes

theorem mem_clearTimer {timer : LeaderTimer} {id : Option Nat} :
    timer ∈ (s.clearTimer id).timers ↔ timer ∈ s.timers ∧ some timer.id ≠ id := by
  rw [clearTimer, List.mem_filter, decide_eq_true_iff]

theorem onFire_continues {timer : LeaderTimer} (hmem : timer ∈ s.timers) :
    Continues s (s.onFire timer) := by
  have hbegins : ∀ first : TimerPass, first.kind = timer.kind →
      ∀ pass ∈ s.passes ++ [first], (∃ old ∈ s.passes, old.kind = pass.kind) ∨
        ∃ timer ∈ s.timers, timer.kind = pass.kind := by
    intro first hfirst pass hpass
    obtain hpass | hpass := List.mem_append.mp hpass
    · exact .inl ⟨pass, hpass, rfl⟩
    · cases List.mem_singleton.mp hpass
      exact .inr ⟨timer, hmem, hfirst.symm⟩
  unfold onFire
  cases hkind : timer.kind with
  | softDeletion => exact ⟨rfl, fun _ h => .inl h, hbegins .softDeleting hkind.symm⟩
  | hardDeletion =>
    exact ⟨rfl, fun _ h => .inl (mem_clearTimer.mp h).1,
      hbegins .findingSoftDeleted hkind.symm⟩
  | recovery =>
    exact ⟨rfl, fun _ h => .inl (mem_clearTimer.mp h).1,
      hbegins .gettingInProgressIds hkind.symm⟩

variable {pass : TimerPass} {index : Nat}

theorem goesOn_continues {next : TimerPass} (hget : s.passes[index]? = some pass)
    (hkind : next.kind = pass.kind) : Continues s { s with passes := s.passes.set index next } := by
  refine ⟨rfl, fun _ h => .inl h, fun other hmem => .inl ?_⟩
  obtain hmem | rfl := List.mem_or_eq_of_mem_set hmem
  · exact ⟨other, hmem, rfl⟩
  · exact ⟨pass, List.mem_of_getElem? hget, hkind.symm⟩

theorem ends_continues (hget : s.passes[index]? = some pass)
    (hmem : ∀ timer ∈ s'.timers, timer ∈ s.timers ∨
      timer.kind ≠ .softDeletion ∧ pass.kind = timer.kind)
    (hpasses : s'.passes = s.passes.eraseIdx index) (hflags :
      (s'.role, s'.pruningEnded, s'.recoveryEnded, s'.isShuttingDown, s'.stopping,
          s'.pausingQueue) =
        (s.role, s.pruningEnded, s.recoveryEnded, s.isShuttingDown, s.stopping, s.pausingQueue)) :
    Continues s s' := by
  refine ⟨hflags, fun timer htimer => ?_, fun other hother => .inl ?_⟩
  · exact (hmem timer htimer).imp_right fun h => ⟨h.1, pass, List.mem_of_getElem? hget, h.2⟩
  · rw [hpasses] at hother
    exact ⟨other, List.mem_of_mem_eraseIdx hother, rfl⟩

theorem endsWithTimer_continues {kind : TimerKind} {wait : Nat}
    (hget : s.passes[index]? = some pass) (hkind : pass.kind = kind) (hne : kind ≠ .softDeletion)
    (htimers : s'.timers = s.timers ++ [⟨s.nextTimer, kind, wait⟩])
    (hpasses : s'.passes = s.passes.eraseIdx index) (hflags :
      (s'.role, s'.pruningEnded, s'.recoveryEnded, s'.isShuttingDown, s'.stopping,
          s'.pausingQueue) =
        (s.role, s.pruningEnded, s.recoveryEnded, s.isShuttingDown, s.stopping, s.pausingQueue)) :
    Continues s s' := by
  refine ends_continues hget (fun timer hmem => ?_) hpasses hflags
  rw [htimers] at hmem
  obtain hmem | hmem := List.mem_append.mp hmem
  · exact .inl hmem
  · cases List.mem_singleton.mp hmem
    exact .inr ⟨hne, hkind⟩

theorem onPass_continues {reply : PassReply} (hstep : s.onPass config index reply = some s') :
    Continues s s' := by
  unfold onPass at hstep
  -- a pass ends with its next timer, or goes on to await something else
  cases hget : s.passes[index]? with
  | none =>
    rw [hget] at hstep
    cases hstep
  | some pass =>
    rw [hget] at hstep
    cases pass with
    | softDeleting =>
      cases hstep
      exact ends_continues hget (fun _ h => .inl h) rfl rfl
    | findingSoftDeleted =>
      cases reply with
      | done => cases hstep
      | rejected =>
        cases hstep
        exact endsWithTimer_continues hget rfl nofun rfl rfl rfl
      | found executions =>
        cases executions with
        | zero =>
          cases hstep
          exact endsWithTimer_continues hget rfl nofun rfl rfl rfl
        | succ more =>
          cases hstep
          exact goesOn_continues hget rfl
    | deletingBinaryData executions =>
      cases reply with
      | done =>
        cases hstep
        exact goesOn_continues hget rfl
      | rejected =>
        cases hstep
        exact endsWithTimer_continues hget rfl nofun rfl rfl rfl
      | found executions => cases hstep
    | deletingRows executions =>
      cases reply with
      | found executions => cases hstep
      | _ =>
        cases hstep
        exact endsWithTimer_continues hget rfl nofun rfl rfl rfl
    | gettingInProgressIds =>
      cases reply with
      | done => cases hstep
      | rejected =>
        cases hstep
        exact endsWithTimer_continues hget rfl nofun rfl rfl rfl
      | found stored =>
        cases stored with
        | zero =>
          cases hstep
          exact endsWithTimer_continues hget rfl nofun rfl rfl rfl
        | succ more =>
          cases hstep
          exact goesOn_continues hget rfl
    | findingJobs stored =>
      cases reply with
      | done => cases hstep
      | rejected =>
        cases hstep
        exact endsWithTimer_continues hget rfl nofun rfl rfl rfl
      | found jobs =>
        cases jobs with
        | zero =>
          cases hstep
          exact endsWithTimer_continues hget rfl nofun rfl rfl rfl
        | succ more =>
          cases hstep
          exact goesOn_continues hget rfl
    | markingAsCrashed stored =>
      cases reply with
      | found jobs => cases hstep
      | _ =>
        cases hstep
        exact endsWithTimer_continues hget rfl nofun rfl rfl rfl

end Passes

section Leadership

theorem Invariant.withCalls (h : Invariant s) (calls : List LeaderCall) :
    Invariant { s with calls := calls } :=
  h.continues ⟨rfl, fun _ h => .inl h, fun pass h => .inl ⟨pass, h, rfl⟩⟩

theorem Invariant.of_leads (hpruning : s'.pruningEnded = false)
    (hrecovery : s'.recoveryEnded = false)
    (hpausing : s'.pausingQueue → s'.stopping) : Invariant s' where
  pruning hended := absurd hended (by rw [hpruning]; nofun)
  recovery hended := absurd hended (by rw [hrecovery]; nofun)
  pruningIdle hended := absurd hended (by rw [hpruning]; nofun)
  recoveryIdle hended := absurd hended (by rw [hrecovery]; nofun)
  pausing := hpausing

theorem stopPruning_follower (hrole : s.isLeader = false) : s.stopPruning config = s := by
  rw [stopPruning, isEnabled, hrole, Bool.and_false]
  rfl

variable {id : Option Nat}

theorem recoveryReady_clear (h : s.recoveryReady [id]) : (s.clearTimer id).recoveryReady [] := by
  refine ⟨h.1, fun timer hmem hkind => ?_⟩
  obtain ⟨hmem, hid⟩ := mem_clearTimer.mp hmem
  exact absurd (List.mem_singleton.mp (h.2 timer hmem hkind)) hid

variable {cleared : List (Option Nat)}

theorem pruningReady_clear (h : s.pruningReady (id :: cleared)) :
    (s.clearTimer id).pruningReady cleared := by
  refine ⟨h.1, fun timer hmem hkind => ?_⟩
  obtain ⟨hmem, hid⟩ := mem_clearTimer.mp hmem
  exact (List.mem_cons.mp (h.2 timer hmem hkind)).resolve_left hid

theorem recoveryReady_clear_of_ready (h : s.recoveryReady cleared) :
    (s.clearTimer id).recoveryReady cleared :=
  ⟨h.1, fun timer hmem => h.2 timer (mem_clearTimer.mp hmem).1⟩

theorem pruningReady_clear_of_ready (h : s.pruningReady cleared) :
    (s.clearTimer id).pruningReady cleared :=
  ⟨h.1, fun timer hmem => h.2 timer (mem_clearTimer.mp hmem).1⟩

theorem markAsFollower_invariant (h : s.pausingQueue → s.stopping) (hpruning : s.pruningReady [])
    (hrecovery : s.recoveryReady []) : Invariant s.markAsFollower where
  pruning _ := hpruning
  recovery _ := hrecovery
  pruningIdle _ := .inl rfl
  recoveryIdle _ := .inl rfl
  pausing := h

theorem stepdown_invariant (h : s.pausingQueue → s.stopping) (hpruning : s.pruningReady [])
    (hrecovery : s.recoveryReady (if s.handlersRegistered then [s.recoveryTimeout] else [])) :
    Invariant (s.markAsFollower.emitStepdown config) := by
  unfold emitStepdown
  rw [stopPruning_follower rfl, stopQueueRecovery]
  by_cases hregistered : s.handlersRegistered = true
  · rw [if_pos hregistered] at hrecovery
    rw [if_pos (show s.markAsFollower.handlersRegistered = true from hregistered)]
    exact markAsFollower_invariant (s := s.clearTimer s.recoveryTimeout) h
      (pruningReady_clear_of_ready hpruning) (recoveryReady_clear hrecovery)
  · rw [if_neg hregistered] at hrecovery
    rw [if_neg (show ¬ s.markAsFollower.handlersRegistered = true from hregistered)]
    exact markAsFollower_invariant h hpruning hrecovery

theorem startPruning_keeps (config : LeaderConfig) (s : LeaderTimers) :
    (s.startPruning config).pruningEnded = s.pruningEnded ∧
      (s.startPruning config).recoveryEnded = s.recoveryEnded ∧
      (s.startPruning config).isLeader = s.isLeader ∧
      (s.startPruning config).stopping = s.stopping ∧
      (s.startPruning config).pausingQueue = s.pausingQueue ∧
      (s.startPruning config).passes = s.passes ∧
      ∀ timer ∈ (s.startPruning config).timers, timer.kind = .recovery → timer ∈ s.timers := by
  unfold startPruning
  split
  · exact ⟨rfl, rfl, rfl, rfl, rfl, rfl, fun _ h _ => h⟩
  · refine ⟨rfl, rfl, rfl, rfl, rfl, rfl, fun timer hmem hkind => ?_⟩
    obtain hmem | hmem := List.mem_append.mp hmem
    · obtain hmem | hmem := List.mem_append.mp hmem
      · exact hmem
      · cases List.mem_singleton.mp hmem
        exact absurd hkind nofun
    · cases List.mem_singleton.mp hmem
      exact absurd hkind nofun

theorem takeover_invariant (h : s.pausingQueue → s.stopping) :
    Invariant (s.markAsLeader.emitTakeover config) := by
  unfold emitTakeover
  split
  · obtain ⟨hpruning, hrecovery, -, hstopping, hpausing, -⟩ :=
      startPruning_keeps config s.markAsLeader
    refine .of_leads hpruning hrecovery fun hended => ?_
    exact hstopping.trans (h (hpausing.symm.trans hended))
  · exact .of_leads rfl rfl h

/-- On a leader the pruning is started only before the end of the pruning or after a shutdown, when
starting it does nothing. -/
theorem startPruning_invariant (h : Invariant s) (hleader : s.isLeader) :
    Invariant (s.startPruning config) := by
  cases hended : s.pruningEnded with
  | true =>
    have hshutdown : s.isShuttingDown := (h.pruningIdle hended).resolve_left (by simp [hleader])
    rwa [startPruning, hshutdown, Bool.or_true, if_pos rfl]
  | false =>
    obtain ⟨hpruning, hrecovery, hrole, hstopping, hpausing, hpasses, htimers⟩ :=
      startPruning_keeps config s
    refine ⟨fun hends => ?_, fun hends => ⟨?_, fun timer hmem hkind => ?_⟩, fun hends => ?_,
      fun hends => ?_, fun hpauses => ?_⟩
    · exact absurd (hpruning.symm.trans hends) (by rw [hended]; nofun)
    · rw [hpasses]
      exact (h.recovery (hrecovery ▸ hends)).1
    · exact (h.recovery (hrecovery ▸ hends)).2 timer (htimers timer hmem hkind) hkind
    · exact absurd (hpruning.symm.trans hends) (by rw [hended]; nofun)
    · rw [hrole, hstopping]
      exact h.recoveryIdle (hrecovery ▸ hends)
    · exact hstopping.trans (h.pausing (hpausing ▸ hpauses))

theorem onReply_invariant {index : Nat} {reply : LeaderReply} (h : Invariant s)
    (hclean : s.endsCleanly config (.reply index reply))
    (hstep : s.onReply config index reply = some s') : Invariant s' := by
  unfold onReply at hstep
  unfold endsCleanly stepsDown at hclean
  split at hstep
  · cases hstep
    exact h.withCalls _
  · cases hstep
    exact h.withCalls _
  · rename_i hget
    split at hstep
    · rename_i hleader
      cases hstep
      simp only [hget, if_pos hleader] at hclean
      obtain ⟨hpruning, hrecovery⟩ := hclean true rfl
      simp only [true_and] at hrecovery
      exact stepdown_invariant (s := { s with calls := s.calls.eraseIdx index }) h.pausing hpruning
        hrecovery
    · cases hstep
      exact h.withCalls _
  · rename_i hget
    cases hstep
    simp only [hget] at hclean
    obtain ⟨hpruning, hrecovery⟩ := hclean true rfl
    simp only [true_and] at hrecovery
    exact stepdown_invariant (s := { s with calls := s.calls.set index .settingKey }) h.pausing
      hpruning hrecovery
  · cases hstep
    exact h.withCalls _
  · cases hstep
    exact takeover_invariant h.pausing
  · rename_i hget
    cases hstep
    simp only [hget] at hclean
    obtain ⟨hpruning, hrecovery⟩ := hclean false rfl
    rw [if_neg (fun hemits => absurd hemits.1 nofun)] at hrecovery
    exact markAsFollower_invariant (s := { s with calls := s.calls.eraseIdx index }) h.pausing
      hpruning hrecovery
  · cases hstep

end Leadership

section Shutdown

theorem setupQueue_invariant (h : Invariant s) (hstopping : ¬ s.stopping) (hleader : s.isLeader) :
    Invariant ({ s with queueSetUp := true }.scheduleQueueRecovery config.recoveryWait) := by
  have hgoes : ¬ s.recoveryEnded := fun hended =>
    (h.recoveryIdle hended).elim (fun hrole => by simp [hleader] at hrole) hstopping
  refine ⟨fun hended => ⟨(h.pruning hended).1, fun timer hmem hkind => ?_⟩,
    fun hended => absurd hended hgoes, h.pruningIdle, h.recoveryIdle, h.pausing⟩
  obtain hmem | hmem := List.mem_append.mp hmem
  · exact (h.pruning hended).2 timer hmem hkind
  · cases List.mem_singleton.mp hmem
    exact absurd rfl hkind

theorem stopRecovery_invariant (h : Invariant s) (hstopping : s.stopping)
    (hrecovery : s.recoveryReady [s.recoveryTimeout]) : Invariant s.stopRecovery where
  pruning hended := pruningReady_clear_of_ready (h.pruning hended)
  recovery _ := recoveryReady_clear hrecovery
  pruningIdle := h.pruningIdle
  recoveryIdle _ := .inr hstopping
  pausing hpauses := absurd hpauses nofun

theorem shutdownPruning_invariant (h : Invariant s)
    (hclean : s.endsCleanly config .shutdownPruning) :
    Invariant { ({ s with isShuttingDown := true } : LeaderTimers).stopPruning config with
      pruningEnded := true } := by
  unfold endsCleanly at hclean
  unfold stopPruning
  by_cases henabled : s.isEnabled config = true
  · rw [if_pos henabled] at hclean
    rw [if_neg (by simpa [isEnabled, isLeader] using henabled)]
    exact ⟨fun _ => pruningReady_clear (pruningReady_clear hclean), fun hended =>
      recoveryReady_clear_of_ready (recoveryReady_clear_of_ready (h.recovery hended)),
      fun _ => .inr rfl, h.recoveryIdle, h.pausing⟩
  · rw [if_neg henabled] at hclean
    rw [if_pos (by simpa [isEnabled, isLeader, or_iff_not_imp_left] using henabled)]
    exact ⟨fun _ => hclean, h.recovery, fun _ => .inr rfl, h.recoveryIdle, h.pausing⟩

end Shutdown

theorem step_invariant {event : LeaderEvent} (h : Invariant s) (hclean : s.endsCleanly config event)
    (hstep : s.step config event = some s') : Invariant s' := by
  cases event with
  | registerEventHandlers =>
    cases hstep
    exact h.continues ⟨rfl, fun _ h => .inl h, fun pass h => .inl ⟨pass, h, rfl⟩⟩
  | initRole =>
    simp only [step] at hstep
    split_ifs at hstep with hrole hsingle
    · cases hstep
      exact .of_leads rfl rfl h.pausing
    · cases hstep
      exact h.withCalls _
  | setupQueue =>
    simp only [step] at hstep
    split_ifs at hstep with hdone hleader
    · cases hstep
      exact setupQueue_invariant h (fun hstopping => hdone (.inr hstopping)) hleader
    · cases hstep
      exact h.continues ⟨rfl, fun _ h => .inl h, fun pass h => .inl ⟨pass, h, rfl⟩⟩
  | initPruning =>
    simp only [step] at hstep
    split_ifs at hstep with hleader
    · cases hstep
      exact startPruning_invariant h hleader
    · cases hstep
      exact h
  | checkLeader =>
    simp only [step] at hstep
    split_ifs at hstep
    cases hstep
    exact h.withCalls _
  | reply index reply => exact onReply_invariant h hclean hstep
  | fire id =>
    obtain ⟨timer, hfind, rfl⟩ := Option.map_eq_some_iff.mp hstep
    exact h.continues (onFire_continues (List.mem_of_find?_eq_some hfind))
  | resume index reply => exact h.continues (onPass_continues hstep)
  | shutdownPruning =>
    simp only [step] at hstep
    split_ifs at hstep
    cases hstep
    exact shutdownPruning_invariant h hclean
  | stopMain =>
    simp only [step] at hstep
    split_ifs at hstep with hdone hsingle
    · cases hstep
      exact ⟨h.pruning, h.recovery, h.pruningIdle, fun hended => .inr rfl, fun _ => rfl⟩
    · -- without a queue to pause, the recovery is stopped at once
      cases hstep
      have hnext : Invariant { s with stopping := true } :=
        ⟨h.pruning, h.recovery, h.pruningIdle, fun _ => .inr rfl, fun _ => rfl⟩
      exact stopRecovery_invariant hnext rfl (hclean (by simpa using hsingle))
  | queuePaused =>
    simp only [step] at hstep
    split_ifs at hstep with hpauses
    cases hstep
    exact stopRecovery_invariant h (h.pausing hpauses) hclean

/-- After a run in which no leadership ends with more live or in flight than its end clears, no
timer is live once the last leadership has ended. -/
theorem timers_end (h : Reachable (step config) (endsCleanly config) initial s) : s.Ended := by
  refine (h.keeps Invariant ?_ fun _ _ _ hinv hallowed hstep => ?_).ended
  · exact ⟨nofun, nofun, nofun, nofun, nofun⟩
  · exact step_invariant hinv hallowed hstep

/-- A leader with the rates of the defaults, on an instance of a multi-main setup. -/
def prunes : LeaderConfig where
  pruneData := true
  migrated := true
  isSingleMain := false
  softDeletionRate := 3600000
  hardDeletionRate := 900000
  recoveryWait := 180000
  recoveryBatchSize := 100

/-- The instance becomes the leader and starts the pruning and the recovery. -/
def leads : List LeaderEvent :=
  [.initRole, .reply 0 .keySet, .registerEventHandlers, .setupQueue, .initPruning]

/-- A shutdown of the leader while a soft deletion is in flight. -/
theorem timers_end_shutdown :
    ∃ s, Reachable (step prunes) (endsCleanly prunes) initial s ∧
      (s.pruningEnded, s.recoveryEnded) = (true, true) ∧ s.Ended := by
  have hrun : (runAllowed (step prunes) (endsCleanly prunes) initial
      (leads ++ [.fire 1, .shutdownPruning, .stopMain, .resume 0 .done])).map
        (fun s => (s.pruningEnded, s.recoveryEnded)) = some (true, true) := by decide +kernel
  obtain ⟨s, hs, hended⟩ := Option.map_eq_some_iff.mp hrun
  have hreach := reachable_of_runAllowed .start hs
  exact ⟨s, hreach, hended, timers_end hreach⟩

/-- When the key holds another leader, the instance is a follower before the pruning is asked to
stop, and its timers go on. -/
theorem timers_go_on :
    ¬ ∀ config s, Reachable (step config) (fun _ _ => True) initial s → s.Ended := by
  intro hall
  have hrun : (run (step prunes) initial (leads ++ [.checkLeader, .reply 0 .other])).map
      (fun s => (s.pruningEnded, s.timers)) =
        some (true, [⟨1, .softDeletion, 3600000⟩, ⟨2, .hardDeletion, 900000⟩]) := by
    decide +kernel
  obtain ⟨s, hs, hlive⟩ := Option.map_eq_some_iff.mp hrun
  obtain ⟨hended, htimers⟩ := Prod.mk.inj hlive
  have hkind := (hall _ s (reachable_of_run hs)).pruning hended ⟨1, .softDeletion, 3600000⟩
    (htimers ▸ List.mem_cons_self)
  exact absurd hkind nofun

end LeaderTimers

end N8n.Scaling
