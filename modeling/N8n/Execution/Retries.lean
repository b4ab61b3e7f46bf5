import N8n.Execution.NodeRun

/-!
# The bound on the tries of a node

`runNode` is called by two nested loops that share the number of the try: the outer one counts a
call that throws, the inner one a call that returns an item with an error. A call of the inner loop
that throws leaves it before it is counted, so that the outer loop counts it together with the call
before. `calls_bounded_iff` says when no more calls are made than the node has tries.
-/

namespace N8n.Execution

variable {ι : Type} (e : Engine ι) (item : IExecuteData ι) (node : INode)
  (call : Nat → NodeCall ι)

/-- What follows the calls of a try that returned `nodeSuccessData`, with whether it throws. -/
def finishOutput (nodeSuccessData : NodeOutput ι) : NodeOutput ι × Bool :=
  match nodeSuccessData with
  | .data outputs =>
    if node.onError = some .continueErrorOutput then
      let (outputs, threw) := e.handleNodeErrorOutput item outputs
      if threw then (.data outputs, true) else completeOutput e item node (.data outputs)
    else completeOutput e item node (.data outputs)
  | nodeSuccessData => completeOutput e item node nodeSuccessData

/-- The call returns data whose first item reports an error. -/
def reportsError (c : NodeCall ι) : Bool :=
  c.result.any fun nodeSuccessData => (firstItem nodeSuccessData).any e.items.hasJsonError

/-- The call returns data without an error, and the try leaves `nodeSuccessData`. -/
def SucceedsWith (c : NodeCall ι) (nodeSuccessData : NodeOutput ι) : Prop :=
  ∃ returned, c.result = some returned ∧ reportsError e c = false ∧
    finishOutput e item node returned = (nodeSuccessData, false)

/-- None of the first calls succeeds. -/
def NoneSucceeds (n : Nat) : Prop :=
  ∀ k < n, ∀ nodeSuccessData, ¬ SucceedsWith e item node (call k) nodeSuccessData

/-- How many of the first calls throw right after a call that reports an error. -/
def uncounted : Nat → Nat
  | 0 => 0
  | 1 => 0
  | n + 2 => uncounted (n + 1) +
      if reportsError e (call n) && (call (n + 1)).result.isNone then 1 else 0

/-- The tries after some calls: `last + 1` calls were made, none before the last one succeeded, and
with the tries that are left they make up all tries and the calls that are not counted. -/
structure Made (tries last left : Nat) (t : Tries ι) : Prop where
  calls : t.calls = last + 1
  none : NoneSucceeds e item node call last
  left : last + left + 1 = tries + uncounted e call (last + 1)
  lt : last < tries + uncounted e call last

/-- How the loop over the tries ends: with the success of the last call, or after all tries. -/
structure Ended (tries last : Nat) (r : Tries ι × TriesEnd) : Prop where
  calls : r.1.calls = last + 1
  none : NoneSucceeds e item node call last
  lt : last < tries + uncounted e call last
  result : (SucceedsWith e item node (call last) r.1.nodeSuccessData ∧ r.2 ≠ .failure ∧
      r.1.failed = false) ∨
    (NoneSucceeds e item node call (last + 1) ∧ last + 1 = tries + uncounted e call (last + 1))

/-- The claim on the retries of a node: it is not called more often than it has tries, and when one
of these calls succeeds, the first of them is the result. -/
def RetriesAreBounded (runData : IRunData ι) : Prop :=
  (runWithTries e item node call runData).1.calls ≤ maxTries node ∧
    (pinnedData e node = none → ∀ k < maxTries node, ∀ nodeSuccessData,
      SucceedsWith e item node (call k) nodeSuccessData → NoneSucceeds e item node call k →
        (runWithTries e item node call runData).2 ≠ .failure ∧
          (runWithTries e item node call runData).1.failed = false ∧
            (runWithTries e item node call runData).1.nodeSuccessData = nodeSuccessData)

/-- The data of the node is pinned, one of as many calls as it has tries succeeds, or none of them
throws right after a call that reports an error. -/
def EveryTryCounts : Prop :=
  (pinnedData e node).isSome = true ∨
    (∃ k < maxTries node, ∃ nodeSuccessData,
      SucceedsWith e item node (call k) nodeSuccessData) ∨
    ∀ n, n + 1 < maxTries node → reportsError e (call n) = true →
      (call (n + 1)).result.isNone = false

section Uncounted

theorem uncounted_succ_le (n : Nat) : uncounted e call (n + 1) ≤ uncounted e call n + 1 := by
  cases n with
  | zero => exact Nat.zero_le _
  | succ n =>
    rw [uncounted]
    split <;> omega

variable {n : Nat}

variable {e call} in
theorem uncounted_first (h : n = 0 ∨ reportsError e (call (n - 1)) = false) :
    uncounted e call (n + 1) = uncounted e call n := by
  cases n with
  | zero => rfl
  | succ n =>
    have hreports : reportsError e (call n) = false := h.resolve_left (Nat.succ_ne_zero n)
    simp [uncounted, hreports]

variable {call} in
theorem uncounted_returned {returned : NodeOutput ι} (h : (call n).result = some returned) :
    uncounted e call (n + 1) = uncounted e call n := by
  cases n with
  | zero => rfl
  | succ n => simp [uncounted, h]

theorem uncounted_add_le (n k : Nat) : uncounted e call (n + k) ≤ uncounted e call n + k := by
  induction k with
  | zero => exact Nat.le_refl _
  | succ k ih =>
    have hstep := uncounted_succ_le e call (n + k)
    rw [Nat.add_assoc] at hstep
    omega

variable {e call} in
theorem uncounted_eq_zero_iff :
    uncounted e call n = 0 ↔ ∀ k, k + 1 < n → reportsError e (call k) = true →
      (call (k + 1)).result.isNone = false := by
  induction n with
  | zero => simp [uncounted]
  | succ n ih =>
    cases n with
    | zero => simp [uncounted]
    | succ n =>
      have hlast : uncounted e call (n + 2) = 0 ↔ uncounted e call (n + 1) = 0 ∧
          (reportsError e (call n) = true → (call (n + 1)).result.isNone = false) := by
        rw [uncounted, Nat.add_eq_zero_iff]
        refine and_congr_right fun _ => ?_
        cases reportsError e (call n) <;> cases (call (n + 1)).result.isNone <;> simp
      rw [hlast, ih]
      refine ⟨fun ⟨hbefore, hnew⟩ k hk => ?_, fun h => ⟨fun k hk => h k (by omega), ?_⟩⟩
      · rcases Nat.lt_or_ge (k + 1) (n + 1) with hlt | hge
        · exact hbefore k hlt
        · obtain rfl : k = n := by omega
          exact hnew
      · exact h n (by omega)

end Uncounted

section Calls

variable {e item node call}

variable {n : Nat}

theorem noneSucceeds_of_reports (h : NoneSucceeds e item node call n)
    (hreports : reportsError e (call n) = true) : NoneSucceeds e item node call (n + 1) := by
  intro k hk nodeSuccessData hsucceeds
  rcases Nat.lt_or_eq_of_le (Nat.le_of_lt_succ hk) with hlt | rfl
  · exact h k hlt _ hsucceeds
  · obtain ⟨_, _, hfalse, _⟩ := hsucceeds
    rw [hreports] at hfalse
    cases hfalse

theorem noneSucceeds_of_threw (h : NoneSucceeds e item node call n)
    (hthrew : (call n).result = none) : NoneSucceeds e item node call (n + 1) := by
  intro k hk nodeSuccessData hsucceeds
  rcases Nat.lt_or_eq_of_le (Nat.le_of_lt_succ hk) with hlt | rfl
  · exact h k hlt _ hsucceeds
  · obtain ⟨_, hresult, _⟩ := hsucceeds
    rw [hthrew] at hresult
    cases hresult

theorem noneSucceeds_of_finish {returned nodeSuccessData : NodeOutput ι}
    (h : NoneSucceeds e item node call n) (hresult : (call n).result = some returned)
    (hfinish : finishOutput e item node returned = (nodeSuccessData, true)) :
    NoneSucceeds e item node call (n + 1) := by
  intro k hk other hsucceeds
  rcases Nat.lt_or_eq_of_le (Nat.le_of_lt_succ hk) with hlt | rfl
  · exact h k hlt _ hsucceeds
  · obtain ⟨returned', hresult', _, hfinish'⟩ := hsucceeds
    rw [hresult] at hresult'
    cases hresult'
    rw [hfinish] at hfinish'
    cases hfinish'

theorem callNode_eq (t : Tries ι) : callNode call t =
    ({ t with
        calls := t.calls + 1, waitTill := t.waitTill || (call t.calls).waitTill
        runData := (call t.calls).addRuns t.runData
        nodeSuccessData := (call t.calls).result.getD t.nodeSuccessData },
      (call t.calls).result.isNone) := by
  unfold callNode
  cases hresult : (call t.calls).result <;> simp [hresult]

variable {tries last left : Nat} {t : Tries ι}

/-- The calls of the inner loop: the last one throws, or it returns what the try goes on with and
either reports no error or was the last try. -/
theorem callAgain_spec (h : Made e item node call tries last left t)
    (hresult : (call last).result = some t.nodeSuccessData) :
    ∃ last', Made e item node call tries last'
        (callAgain e call left t).2.1 (callAgain e call left t).1 ∧
      if (callAgain e call left t).2.2 then (call last').result = none
      else (call last').result = some (callAgain e call left t).1.nodeSuccessData ∧
        ((callAgain e call left t).2.1 = 0 ∨ reportsError e (call last') = false) := by
  induction left generalizing t last with
  | zero => exact ⟨last, h, hresult, .inl rfl⟩
  | succ left ih =>
    have hreports : reportsError e (call last) =
        (firstItem t.nodeSuccessData).any e.items.hasJsonError := by
      rw [reportsError, hresult]
      rfl
    rw [callAgain, ← hreports]
    split
    · rename_i hagain
      have hnone := noneSucceeds_of_reports h.none hagain
      have hleft := h.left
      rw [callNode_eq, h.calls]
      cases hnext : (call (last + 1)).result with
      | none =>
        -- the call is not counted, and the number of tries that are left stays
        have hlost : uncounted e call (last + 1 + 1) = uncounted e call (last + 1) + 1 := by
          rw [uncounted, hagain, hnext]
          rfl
        refine ⟨last + 1, ⟨rfl, hnone, ?_, by omega⟩, hnext⟩
        change last + 1 + (left + 1) + 1 = tries + uncounted e call (last + 1 + 1)
        omega
      | some returned =>
        have hcounted := uncounted_returned e hnext
        exact ih ⟨rfl, hnone, by omega, by omega⟩ hnext
    · rename_i hagain
      exact ⟨last, h, hresult, .inr (Bool.eq_false_iff.mpr hagain)⟩

/-- The calls of a try of the outer loop. -/
def callsOfTry (e : Engine ι) (call : Nat → NodeCall ι) (left : Nat) (t : Tries ι) :
    Tries ι × Nat × Bool :=
  if (callNode call t).2 then ((callNode call t).1, left, true)
  else callAgain e call left (callNode call t).1

theorem callAgain_left_le (left : Nat) (t : Tries ι) : (callAgain e call left t).2.1 ≤ left := by
  induction left generalizing t with
  | zero => exact Nat.le_refl _
  | succ left ih =>
    rw [callAgain]
    split
    · split
      · exact Nat.le_refl _
      · exact Nat.le_succ_of_le (ih _)
    · exact Nat.le_refl _

theorem callsOfTry_left_le (left : Nat) (t : Tries ι) : (callsOfTry e call left t).2.1 ≤ left := by
  rw [callsOfTry]
  split
  · exact Nat.le_refl _
  · exact callAgain_left_le left _

theorem callsOfTry_spec (hcalls : t.calls = n) (hnone : NoneSucceeds e item node call n)
    (hleft : n + left + 1 = tries + uncounted e call n)
    (hfirst : n = 0 ∨ reportsError e (call (n - 1)) = false) :
    ∃ last, Made e item node call tries last
        (callsOfTry e call left t).2.1 (callsOfTry e call left t).1 ∧
      if (callsOfTry e call left t).2.2 then (call last).result = none
      else (call last).result = some (callsOfTry e call left t).1.nodeSuccessData ∧
        ((callsOfTry e call left t).2.1 = 0 ∨ reportsError e (call last) = false) := by
  have hcounted := uncounted_first hfirst
  rw [callsOfTry, callNode_eq, hcalls]
  cases hresult : (call n).result with
  | none =>
    refine ⟨n, ⟨rfl, hnone, ?_, by omega⟩, hresult⟩
    change n + left + 1 = tries + uncounted e call (n + 1)
    omega
  | some returned => exact callAgain_spec ⟨rfl, hnone, by omega, by omega⟩ hresult

/-- A try: the calls and what follows them, with the tries that are left and whether it throws. -/
def tryOnce (e : Engine ι) (item : IExecuteData ι) (node : INode) (call : Nat → NodeCall ι)
    (left : Nat) (t : Tries ι) : Tries ι × Nat × Bool :=
  let p := produceOutput e item node call left { t with failed := false }
  let c := if p.2.2 then (p.1.nodeSuccessData, true)
    else completeOutput e item node p.1.nodeSuccessData
  ({ p.1 with nodeSuccessData := c.1, failed := c.2 }, p.2.1, c.2)

theorem runTries_succ (rounds left : Nat) (t : Tries ι) :
    runTries e item node call (rounds + 1) left t =
      match tryOnce e item node call left t with
      | (t, 0, true) => (t, .failure)
      | (t, left + 1, true) => runTries e item node call rounds left t
      | (t, _, false) =>
        if t.nodeSuccessData.isNull && !t.waitTill then (t, .branchEnded) else (t, .success) := by
  rw [runTries, tryOnce]
  generalize produceOutput e item node call left { t with failed := false } = p
  obtain ⟨t', left', threw⟩ := p
  dsimp only
  generalize (if threw = true then (t'.nodeSuccessData, true)
    else completeOutput e item node t'.nodeSuccessData) = c
  obtain ⟨nodeSuccessData, threw'⟩ := c
  cases threw' <;> cases left' <;> rfl

theorem produceOutput_eq (hpinned : pinnedData e node = none) (left : Nat) (t : Tries ι) :
    produceOutput e item node call left t =
      match (callsOfTry e call left t).2.2, (callsOfTry e call left t).1.nodeSuccessData with
      | false, .data outputs =>
        if node.onError = some .continueErrorOutput then
          ({ (callsOfTry e call left t).1 with
              nodeSuccessData := .data (e.handleNodeErrorOutput item outputs).1 },
            (callsOfTry e call left t).2.1, (e.handleNodeErrorOutput item outputs).2)
        else ((callsOfTry e call left t).1, (callsOfTry e call left t).2.1, false)
      | threw, _ => ((callsOfTry e call left t).1, (callsOfTry e call left t).2.1, threw) := by
  unfold produceOutput callsOfTry
  generalize pinnedData e node = pinned at hpinned
  cases hpinned
  rfl

variable (item call) in
theorem tryOnce_eq (hpinned : pinnedData e node = none) (left : Nat) (t : Tries ι) :
    let r := callsOfTry e call left { t with failed := false }
    (tryOnce e item node call left t).2.1 = r.2.1 ∧
      (tryOnce e item node call left t).1.calls = r.1.calls ∧
      if r.2.2 then (tryOnce e item node call left t).2.2 = true
      else finishOutput e item node r.1.nodeSuccessData =
        ((tryOnce e item node call left t).1.nodeSuccessData,
          (tryOnce e item node call left t).2.2) := by
  dsimp only
  rw [tryOnce, produceOutput_eq hpinned]
  generalize callsOfTry e call left { t with failed := false } = r
  obtain ⟨t', left', threw⟩ := r
  cases threw with
  | true => exact ⟨rfl, rfl, rfl⟩
  | false =>
    cases hdata : t'.nodeSuccessData with
    | data outputs =>
      by_cases honError : node.onError = some .continueErrorOutput
      · simp [finishOutput, honError]
      · simp [finishOutput, honError, hdata]
    | hole | undefined | null => simp [finishOutput, hdata]

/-- What a try of a node without pinned data leaves: a call that succeeded, or more tries as long as
some are left. -/
theorem tryOnce_spec (hpinned : pinnedData e node = none) (hcalls : t.calls = n)
    (hnone : NoneSucceeds e item node call n) (hleft : n + left + 1 = tries + uncounted e call n)
    (hfirst : n = 0 ∨ reportsError e (call (n - 1)) = false) :
    ∃ last, Made e item node call tries last
        (tryOnce e item node call left t).2.1 (tryOnce e item node call left t).1 ∧
      ((tryOnce e item node call left t).2.2 = false ∧
          SucceedsWith e item node (call last)
            (tryOnce e item node call left t).1.nodeSuccessData ∨
        NoneSucceeds e item node call (last + 1) ∧
          ((tryOnce e item node call left t).2.1 = 0 ∨
            (tryOnce e item node call left t).2.2 = true ∧
              reportsError e (call last) = false)) := by
  obtain ⟨last, hmade, hlast⟩ :=
    callsOfTry_spec (t := { t with failed := false }) hcalls hnone hleft hfirst
  obtain ⟨hleft', hcalls', hfinish⟩ := tryOnce_eq item call hpinned left t
  refine ⟨last, ⟨hcalls'.trans hmade.calls, hmade.none, hleft' ▸ hmade.left, hmade.lt⟩, ?_⟩
  rw [hleft']
  cases hthrew : (callsOfTry e call left { t with failed := false }).2.2 with
  | true =>
    rw [if_pos hthrew] at hlast hfinish
    have hquiet : reportsError e (call last) = false := by simp [reportsError, hlast]
    exact .inr ⟨noneSucceeds_of_threw hmade.none hlast, .inr ⟨hfinish, hquiet⟩⟩
  | false =>
    rw [hthrew, if_neg Bool.false_ne_true] at hlast hfinish
    obtain ⟨hresult, hend⟩ := hlast
    cases hreports : reportsError e (call last) with
    | true =>
      have hzero := hend.resolve_right (by simp [hreports])
      exact .inr ⟨noneSucceeds_of_reports hmade.none hreports, .inl hzero⟩
    | false =>
      cases hthrew' : (tryOnce e item node call left t).2.2 with
      | true =>
        rw [hthrew'] at hfinish
        exact .inr ⟨noneSucceeds_of_finish hmade.none hresult hfinish, .inr ⟨rfl, rfl⟩⟩
      | false =>
        rw [hthrew'] at hfinish
        exact .inl ⟨rfl, _, hresult, hreports, hfinish⟩

theorem runTries_spec {rounds : Nat} (hpinned : pinnedData e node = none) (hrounds : left < rounds)
    (hcalls : t.calls = n) (hnone : NoneSucceeds e item node call n)
    (hleft : n + left + 1 = tries + uncounted e call n)
    (hfirst : n = 0 ∨ reportsError e (call (n - 1)) = false) :
    ∃ last, Ended e item node call tries last (runTries e item node call rounds left t) := by
  induction rounds generalizing n left t with
  | zero => omega
  | succ rounds ih =>
    obtain ⟨last, hmade, hlast⟩ := tryOnce_spec hpinned hcalls hnone hleft hfirst
    have hfailed : (tryOnce e item node call left t).1.failed =
      (tryOnce e item node call left t).2.2 := rfl
    have hdecreases : (tryOnce e item node call left t).2.1 ≤ left :=
      (tryOnce_eq item call hpinned left t).1 ▸ callsOfTry_left_le left _
    have hmadeLeft := hmade.left
    rw [runTries_succ]
    generalize tryOnce e item node call left t = r at hmade hlast hfailed hdecreases hmadeLeft
    obtain ⟨t', left', threw⟩ := r
    dsimp only at hmade hlast hfailed hdecreases hmadeLeft
    cases threw with
    | false =>
      have hended {ending : TriesEnd} (hending : ending ≠ .failure) :
          Ended e item node call tries last (t', ending) := by
        refine ⟨hmade.calls, hmade.none, hmade.lt, ?_⟩
        rcases hlast with ⟨-, hsucceeds⟩ | ⟨hnone', hzero | ⟨hthrew, -⟩⟩
        · exact .inl ⟨hsucceeds, hending, hfailed⟩
        · exact .inr ⟨hnone', by omega⟩
        · cases hthrew
      refine ⟨last, ?_⟩
      cases left' with
      | zero | succ =>
        dsimp only
        split
        · exact hended (by decide)
        · exact hended (by decide)
    | true =>
      obtain ⟨hnone', hquiet⟩ := hlast.resolve_left fun h => by cases h.1
      cases left' with
      | zero =>
        exact ⟨last, hmade.calls, hmade.none, hmade.lt, .inr ⟨hnone', by omega⟩⟩
      | succ left' =>
        have hreports := (hquiet.resolve_left (Nat.succ_ne_zero _)).2
        exact ih (by omega) hmade.calls hnone' (by omega) (.inr hreports)

theorem maxTries_pos (node : INode) : 0 < maxTries node := by
  unfold maxTries
  split
  · extract_lets tries
    omega
  · exact Nat.one_pos

variable (item call) in
theorem runWithTries_spec (hpinned : pinnedData e node = none) (runData : IRunData ι) :
    ∃ last, Ended e item node call (maxTries node) last
      (runWithTries e item node call runData) := by
  have hpos := maxTries_pos node
  exact runTries_spec hpinned (by omega) rfl (fun k hk => absurd hk (Nat.not_lt_zero k))
    (by simp only [uncounted]; omega) (.inl rfl)

theorem runTries_pinned {nodePinData : List ι} (hpinned : pinnedData e node = some nodePinData)
    (rounds left : Nat) (t : Tries ι) :
    (runTries e item node call rounds left t).1.calls = t.calls := by
  induction rounds generalizing left t with
  | zero => rfl
  | succ rounds ih =>
    have hcalls : (tryOnce e item node call left t).1.calls = t.calls := by
      simp only [tryOnce, produceOutput, hpinned]
    rw [runTries_succ]
    generalize tryOnce e item node call left t = r at hcalls
    obtain ⟨t', left', threw⟩ := r
    cases threw with
    | true =>
      cases left' with
      | zero => exact hcalls
      | succ left' => exact (ih left' t').trans hcalls
    | false =>
      cases left' with
      | zero | succ =>
        dsimp only
        split
        · exact hcalls
        · exact hcalls

/-- The node is called as often as it has tries when no call succeeds and all are counted, and less
often when one of these calls succeeds. -/
theorem Ended.calls_le_iff {r : Tries ι × TriesEnd} (h : Ended e item node call tries last r) :
    r.1.calls ≤ tries ↔ (∃ k < tries, ∃ nodeSuccessData,
      SucceedsWith e item node (call k) nodeSuccessData) ∨ uncounted e call tries = 0 := by
  have hlt := h.lt
  rw [h.calls]
  constructor
  · intro hle
    rcases h.result with ⟨hsucceeds, -⟩ | ⟨-, heq⟩
    · exact .inl ⟨last, by omega, _, hsucceeds⟩
    · obtain rfl : last + 1 = tries := by omega
      exact .inr (by omega)
  · rintro (⟨k, hk, nodeSuccessData, hsucceeds⟩ | hzero)
    · have hge : last ≤ k := by
        by_contra hlast
        exact h.none k (by omega) _ hsucceeds
      omega
    · by_contra hmore
      have hadd := uncounted_add_le e call tries (last - tries)
      rw [Nat.add_sub_cancel' (by omega)] at hadd
      omega

theorem Ended.first_success {k : Nat} {r : Tries ι × TriesEnd} {nodeSuccessData : NodeOutput ι}
    (h : Ended e item node call tries last r) (hk : k < tries)
    (hsucceeds : SucceedsWith e item node (call k) nodeSuccessData)
    (hfirst : NoneSucceeds e item node call k) :
    r.2 ≠ .failure ∧ r.1.failed = false ∧ r.1.nodeSuccessData = nodeSuccessData := by
  have hge : last ≤ k := by
    by_contra hlast
    exact h.none k (by omega) _ hsucceeds
  rcases h.result with ⟨hlast, hending, hfailed⟩ | ⟨hnone, heq⟩
  · have hle : k ≤ last := by
      by_contra hmore
      exact hfirst last (by omega) _ hlast
    obtain rfl : k = last := Nat.le_antisymm hle hge
    obtain ⟨returned, hresult, -, hfinish⟩ := hsucceeds
    obtain ⟨returned', hresult', -, hfinish'⟩ := hlast
    rw [hresult] at hresult'
    cases hresult'
    rw [hfinish] at hfinish'
    cases hfinish'
    exact ⟨hending, hfailed, rfl⟩
  · exact absurd hsucceeds (hnone k (by omega) _)

end Calls

/-- The retries of a node are bounded exactly when its data is pinned, one of as many calls as it
has tries succeeds, or none of them throws right after a call that reports an error. -/
theorem retries_bounded_iff (e : Engine ι) (item : IExecuteData ι) (node : INode)
    (call : Nat → NodeCall ι) (runData : IRunData ι) :
    RetriesAreBounded e item node call runData ↔ EveryTryCounts e item node call := by
  unfold RetriesAreBounded EveryTryCounts
  cases hpinned : pinnedData e node with
  | some nodePinData =>
    have hcalls : (runWithTries e item node call runData).1.calls = 0 :=
      runTries_pinned hpinned _ _ _
    simp [hcalls]
  | none =>
    obtain ⟨last, hended⟩ := runWithTries_spec item call hpinned runData
    rw [hended.calls_le_iff, uncounted_eq_zero_iff]
    constructor
    · rintro ⟨h, -⟩
      exact .inr h
    · intro h
      refine ⟨h.resolve_left (by simp), fun _ k hk nodeSuccessData hsucceeds hfirst => ?_⟩
      exact hended.first_success hk hsucceeds hfirst

section Example

/-- An item of the example reports an error when it is `0`. -/
def reportingEngine : Engine Nat where
  workflow := .create [] .empty none
  items :=
    { emptyItem := 1, emptyItemPairedWith := fun _ => 1, withInputItem := fun item _ _ => item
      withPairedItem := fun item _ => item, hasPairedItem := fun _ => true
      hasJsonError := fun item => item = 0, mergeError := fun item => item }
  nodeType _ := { inputsLength := 1 }
  getSimpleParameterValue _ _ := .ok none
  handleNodeErrorOutput _ outputs := (outputs, false)
  pinData := none
  runNodeFilter := none
  destinationNode := none

/-- A node with two tries. -/
def retriedNode : INode := { name := "Request", retryOnFail := some true, maxTries := some 2 }

/-- The item of the stack of the node. -/
def retriedItem : IExecuteData Nat :=
  { node := some retriedNode, data := ofMain [.data [1]], source := none }

/-- The first call reports an error, the second one throws, and the third one succeeds. -/
def mixedCalls : Nat → NodeCall Nat
  | 0 => { result := some (.data [.data [0]]) }
  | 1 => { result := none }
  | _ => { result := some (.data [.data [1]]) }

/-- A node with two tries is called three times. -/
theorem called_three_times : retriedNode.retryOnFail = some true ∧
    ¬ RetriesAreBounded reportingEngine retriedItem retriedNode mixedCalls .empty := by
  refine ⟨rfl, fun h => absurd h.1 ?_⟩
  decide +kernel

end Example

end N8n.Execution
