import Mathlib.Data.List.Basic

/-!
# Searches whose branches must agree

A search over positions that each hold a value, fail, or branch into further positions. Branches
that fail are passed over as long as another one succeeds; the branches that succeed must agree on
their value. The search is run with a bound on its depth. `meets_iff` says when every call of a run
yields the only value that its position reaches, or an error of a given kind.
-/

namespace N8n.Graph

/-- What a search finds at a position. -/
inductive Visit (π ν ε : Type) where
  | found (value : ν)
  | failed (error : ε)
  | branch (next : List π)

/-- A search: what it finds where, and its own errors, for a depth beyond the bound, for a position
without branches, and for branches that disagree. -/
structure UnanimousSearch (π ν ε : Type) where
  visit : π → Visit π ν ε
  exhausted : ε
  noBranch : ε
  ambiguous : π → ε

namespace UnanimousSearch

variable {π ν ε : Type}

section Agree

variable {noBranch ambiguous : ε} {results : List (Except ε ν)}

/-- The result of branches: the value that all successful ones have, the error of the first one if
none is successful. -/
def agree [DecidableEq ν] (noBranch ambiguous : ε) (results : List (Except ε ν)) : Except ε ν :=
  match results.filterMap Except.toOption with
  | [] => .error ((results.head?.bind fun | .error e => some e | .ok _ => none).getD noBranch)
  | first :: rest => if rest.any (· ≠ first) then .error ambiguous else .ok first

theorem mem_successes {v : ν} : v ∈ results.filterMap Except.toOption ↔ .ok v ∈ results := by
  rw [List.mem_filterMap]
  constructor
  · rintro ⟨result, hmem, hok⟩
    cases result with
    | ok w =>
      cases hok
      exact hmem
    | error e => cases hok
  · exact fun hmem => ⟨.ok v, hmem, rfl⟩

theorem agree_eq_ok [DecidableEq ν] {v : ν} :
    agree noBranch ambiguous results = .ok v ↔
      .ok v ∈ results ∧ ∀ w, .ok w ∈ results → w = v := by
  simp only [← mem_successes]
  unfold agree
  cases results.filterMap Except.toOption with
  | nil => simp
  | cons first rest =>
    by_cases hany : rest.any (· ≠ first) = true
    · obtain ⟨w, hw, hne⟩ := List.any_eq_true.mp hany
      simp only [hany, ↓reduceIte, reduceCtorEq, false_iff, not_and, not_forall]
      intro hv
      by_cases hfirst : first = v
      · exact ⟨w, by simp [hw], by simpa [hfirst] using hne⟩
      · exact ⟨first, by simp, hfirst⟩
    · have hall : ∀ w ∈ rest, w = first := by simpa using hany
      dsimp only
      rw [if_neg hany, Except.ok.injEq]
      constructor
      · rintro rfl
        exact ⟨by simp, by simpa using hall⟩
      · exact fun h => h.2 first (by simp)

theorem agree_eq_error [DecidableEq ν] {e : ε} (h : agree noBranch ambiguous results = .error e) :
    .error e ∈ results ∨ (results = [] ∧ e = noBranch) ∨
      (e = ambiguous ∧ ∃ v w, .ok v ∈ results ∧ .ok w ∈ results ∧ w ≠ v) := by
  have hsuccess : ∀ v, v ∈ results.filterMap Except.toOption ↔ .ok v ∈ results :=
    fun _ => mem_successes
  unfold agree at h
  cases hmatched : results.filterMap Except.toOption with
  | nil =>
    rw [hmatched] at h hsuccess
    cases results with
    | nil =>
      cases h
      exact .inr (.inl ⟨rfl, rfl⟩)
    | cons result rest =>
      cases result with
      | ok v => simpa using (hsuccess v).mpr (by simp)
      | error e' =>
        cases h
        exact .inl (by simp)
  | cons first rest =>
    rw [hmatched] at h hsuccess
    dsimp only at h
    split at h
    · rename_i hany
      obtain ⟨w, hw, hne⟩ := List.any_eq_true.mp hany
      cases h
      exact .inr (.inr ⟨rfl, first, w, (hsuccess first).mp (by simp),
        (hsuccess w).mp (by simp [hw]), by simpa using hne⟩)
    · cases h

end Agree

/-- Run a search from a position. -/
def run [DecidableEq ν] (s : UnanimousSearch π ν ε) : Nat → π → Except ε ν
  | 0, _ => .error s.exhausted
  | fuel + 1, q =>
    match s.visit q with
    | .found value => .ok value
    | .failed error => .error error
    | .branch next => agree s.noBranch (s.ambiguous q) (next.map (run s fuel))

section Reaches

variable (proper : ν → Prop) (s : UnanimousSearch π ν ε)

/-- A proper value that some branch reaches from a position. -/
inductive Reaches : π → ν → Prop where
  | found {q : π} {v : ν} (h : s.visit q = .found v) (hv : proper v) : Reaches q v
  | branch {q c : π} {next : List π} {v : ν} (h : s.visit q = .branch next) (hmem : c ∈ next)
      (hreach : Reaches c v) : Reaches q v

/-- The calls that a run makes, with the depth that is left to each. -/
inductive Calls : Nat → π → Nat → π → Prop where
  | self {fuel : Nat} {q : π} : Calls fuel q fuel q
  | branch {fuel m : Nat} {q c x : π} {next : List π} (h : s.visit q = .branch next)
      (hmem : c ∈ next) (hcall : Calls fuel c m x) : Calls (fuel + 1) q m x

/-- The only proper value that a position reaches. -/
def Only (q : π) (v : ν) : Prop :=
  s.Reaches proper q v ∧ ∀ w, s.Reaches proper q w → w = v

/-- Some branches agree on the only value that each of them reaches, and another one, which reaches
several values, reaches a different one. -/
def Swallows (q : π) : Prop :=
  ∃ next v, s.visit q = .branch next ∧ (∃ c ∈ next, s.Only proper c v) ∧
    (∀ c ∈ next, ∀ w, s.Only proper c w → w = v) ∧
    ∃ c ∈ next, ∃ w, s.Reaches proper c w ∧ w ≠ v

end Reaches

variable {proper : ν → Prop} {s : UnanimousSearch π ν ε}

theorem reaches_found {q : π} {v w : ν} (h : s.visit q = .found v) :
    s.Reaches proper q w ↔ w = v ∧ proper v := by
  constructor
  · intro hreach
    cases hreach with
    | found h' hv =>
      cases h.symm.trans h'
      exact ⟨rfl, hv⟩
    | branch h' => cases h.symm.trans h'
  · rintro ⟨rfl, hv⟩
    exact .found h hv

theorem not_reaches_failed {q : π} {e : ε} {w : ν} (h : s.visit q = .failed e) :
    ¬ s.Reaches proper q w := by
  intro hreach
  cases hreach with
  | found h' => cases h.symm.trans h'
  | branch h' => cases h.symm.trans h'

theorem reaches_branch {q : π} {next : List π} {w : ν} (h : s.visit q = .branch next) :
    s.Reaches proper q w ↔ ∃ c ∈ next, s.Reaches proper c w := by
  constructor
  · intro hreach
    cases hreach with
    | found h' => cases h.symm.trans h'
    | branch h' hmem hreach =>
      cases h.symm.trans h'
      exact ⟨_, hmem, hreach⟩
  · rintro ⟨c, hmem, hreach⟩
    exact .branch h hmem hreach

theorem Only.of_branch {q c : π} {next : List π} {v w : ν} (honly : s.Only proper q v)
    (h : s.visit q = .branch next) (hmem : c ∈ next) (hreach : s.Reaches proper c w) :
    s.Only proper c v := by
  have hbranch : ∀ w, s.Reaches proper c w → w = v := fun w hw => honly.2 w (.branch h hmem hw)
  exact ⟨hbranch w hreach ▸ hreach, hbranch⟩

section Meets

variable [DecidableEq ν] (proper : ν → Prop) (documented : ε → Prop)

/-- A call yields the only proper value that its position reaches, or a documented error. -/
structure Meets (s : UnanimousSearch π ν ε) (fuel : Nat) (q : π) : Prop where
  value : ∀ v, s.run fuel q = .ok v → s.Only proper q v
  error : ∀ e, s.run fuel q = .error e → documented e

/-- What makes a call fail: the depth is used up, the position holds an improper value, fails
with another error or has no branches, or it swallows a disagreement. -/
inductive Fails (s : UnanimousSearch π ν ε) : Nat → π → Prop where
  | exhausted {q : π} : Fails s 0 q
  | improper {m : Nat} {q : π} {v : ν} (h : s.visit q = .found v) (hv : ¬ proper v) : Fails s m q
  | undocumented {m : Nat} {q : π} {e : ε} (h : s.visit q = .failed e) (he : ¬ documented e) :
      Fails s m q
  | noBranch {m : Nat} {q : π} (h : s.visit q = .branch []) : Fails s m q
  | swallows {m : Nat} {q : π} (h : s.Swallows proper q) : Fails s m q

variable {proper documented}

/-- A run in which no call fails meets what is asked of it, and finds the only value that its
position reaches. -/
theorem meets_of_calls (hambiguous : ∀ q, documented (s.ambiguous q)) {fuel : Nat} {q : π}
    (h : ∀ m x, s.Calls fuel q m x → ¬ s.Fails proper documented m x) :
    s.Meets proper documented fuel q ∧ ∀ v, s.Only proper q v → s.run fuel q = .ok v := by
  induction fuel generalizing q with
  | zero => exact absurd .exhausted (h 0 q .self)
  | succ fuel ih =>
    have hself := h (fuel + 1) q .self
    cases hvisit : s.visit q with
    | found value =>
      have hrun : s.run (fuel + 1) q = .ok value := by rw [run, hvisit]
      have hproper : proper value := by
        by_contra hv
        exact hself (.improper hvisit hv)
      have honly : s.Only proper q value :=
        ⟨.found hvisit hproper, fun w hw => ((reaches_found hvisit).mp hw).1⟩
      refine ⟨⟨fun v hv => ?_, fun e he => ?_⟩, fun v hv => ?_⟩
      · cases hrun.symm.trans hv
        exact honly
      · cases hrun.symm.trans he
      · rw [hrun, honly.2 v hv.1]
    | failed error =>
      have hrun : s.run (fuel + 1) q = .error error := by rw [run, hvisit]
      refine ⟨⟨fun v hv => ?_, fun e he => ?_⟩, fun v hv => ?_⟩
      · cases hrun.symm.trans hv
      · cases hrun.symm.trans he
        by_contra hdoc
        exact hself (.undocumented hvisit hdoc)
      · exact absurd hv.1 (not_reaches_failed hvisit)
    | branch next =>
      have hrun : s.run (fuel + 1) q =
          agree s.noBranch (s.ambiguous q) (next.map (s.run fuel)) := by rw [run, hvisit]
      have hchild : ∀ c ∈ next, s.Meets proper documented fuel c ∧
          ∀ v, s.Only proper c v → s.run fuel c = .ok v :=
        fun c hmem => ih fun m x hcall => h m x (.branch hvisit hmem hcall)
      -- a branch succeeds with the only value it reaches, if there is one
      have hresult : ∀ v, .ok v ∈ next.map (s.run fuel) ↔
          ∃ c ∈ next, s.Only proper c v := by
        intro v
        rw [List.mem_map]
        constructor
        · rintro ⟨c, hmem, hc⟩
          exact ⟨c, hmem, (hchild c hmem).1.value v hc⟩
        · rintro ⟨c, hmem, honly⟩
          exact ⟨c, hmem, (hchild c hmem).2 v honly⟩
      refine ⟨⟨fun v hv => ?_, fun e he => ?_⟩, fun v hv => ?_⟩
      · obtain ⟨hok, hagree⟩ := agree_eq_ok.mp (hrun.symm.trans hv)
        simp only [hresult] at hok hagree
        obtain ⟨c, hmem, honly⟩ := hok
        refine ⟨.branch hvisit hmem honly.1, fun w hw => ?_⟩
        obtain ⟨c', hmem', hreach⟩ := (reaches_branch hvisit).mp hw
        by_contra hne
        exact hself (.swallows ⟨next, v, hvisit, ⟨c, hmem, honly⟩,
          fun c hmem w hw => hagree w ⟨c, hmem, hw⟩, c', hmem', w, hreach, hne⟩)
      · obtain hmem | ⟨hnil, rfl⟩ | ⟨rfl, -⟩ := agree_eq_error (hrun.symm.trans he)
        · obtain ⟨c, hmem, hc⟩ := List.mem_map.mp hmem
          exact (hchild c hmem).1.error e hc
        · cases List.map_eq_nil_iff.mp hnil
          exact absurd (.noBranch hvisit) hself
        · exact hambiguous q
      · rw [hrun, agree_eq_ok]
        simp only [hresult]
        obtain ⟨c, hmem, hreach⟩ := (reaches_branch hvisit).mp hv.1
        refine ⟨⟨c, hmem, hv.of_branch hvisit hmem hreach⟩, ?_⟩
        rintro w ⟨c', hmem', hw⟩
        exact hv.2 w (.branch hvisit hmem' hw.1)

/-- A call that meets what is asked of it does not fail by itself, if the calls it makes do not
fail. -/
theorem not_fails_of_meets (hambiguous : ∀ q, documented (s.ambiguous q))
    (hexhausted : ¬ documented s.exhausted) (hnoBranch : ¬ documented s.noBranch) {fuel : Nat}
    {q : π} (hmeets : s.Meets proper documented fuel q)
    (h : ∀ next, s.visit q = .branch next → ∀ c ∈ next, ∀ n, fuel = n + 1 →
      ∀ m x, s.Calls n c m x → ¬ s.Fails proper documented m x) :
    ¬ s.Fails proper documented fuel q := by
  intro hfails
  cases fuel with
  | zero => exact hexhausted (hmeets.error _ rfl)
  | succ fuel =>
    cases hfails with
    | improper hvisit hv =>
      have honly := hmeets.value _ (by rw [run, hvisit])
      exact hv ((reaches_found hvisit).mp honly.1).2
    | undocumented hvisit he => exact he (hmeets.error _ (by rw [run, hvisit]))
    | noBranch hvisit => exact hnoBranch (hmeets.error _ (by rw [run, hvisit]; rfl))
    | swallows hswallows =>
      obtain ⟨next, v, hvisit, ⟨c, hmem, honly⟩, hagree, c', hmem', w, hreach, hne⟩ := hswallows
      have hchild := fun c hmem =>
        meets_of_calls hambiguous (h next hvisit c hmem fuel rfl)
      have hrun : s.run (fuel + 1) q = .ok v := by
        rw [run, hvisit]
        refine agree_eq_ok.mpr ⟨List.mem_map.mpr ⟨c, hmem, (hchild c hmem).2 v honly⟩, ?_⟩
        intro u hu
        obtain ⟨d, hd, hrun⟩ := List.mem_map.mp hu
        exact hagree d hd u ((hchild d hd).1.value u hrun)
      exact hne ((hmeets.value v hrun).2 w (.branch hvisit hmem' hreach))

theorem meets_iff (hambiguous : ∀ q, documented (s.ambiguous q))
    (hexhausted : ¬ documented s.exhausted) (hnoBranch : ¬ documented s.noBranch) {fuel : Nat}
    {q : π} :
    (∀ m x, s.Calls fuel q m x → s.Meets proper documented m x) ↔
      ∀ m x, s.Calls fuel q m x → ¬ s.Fails proper documented m x := by
  constructor
  · intro h
    induction fuel generalizing q with
    | zero =>
      intro m x hcall
      cases hcall with
      | self =>
        refine not_fails_of_meets hambiguous hexhausted hnoBranch (h 0 q .self) ?_
        intro _ _ _ _ n hn
        cases hn
    | succ fuel ih =>
      have hchild : ∀ next, s.visit q = .branch next → ∀ c ∈ next,
          ∀ m x, s.Calls fuel c m x → ¬ s.Fails proper documented m x :=
        fun next hvisit c hmem => ih fun m x hcall => h m x (.branch hvisit hmem hcall)
      intro m x hcall
      cases hcall with
      | self =>
        refine not_fails_of_meets hambiguous hexhausted hnoBranch (h _ q .self) ?_
        intro next hvisit c hmem n hn
        cases hn
        exact hchild next hvisit c hmem
      | branch hvisit hmem hcall => exact hchild _ hvisit _ hmem m x hcall
  · intro h m x hcall
    -- the calls of a call are calls of the run
    refine (meets_of_calls hambiguous fun n y hy => h n y ?_).1
    clear h
    induction hcall with
    | self => exact hy
    | branch hvisit hmem _ ih => exact .branch hvisit hmem (ih hy)

end Meets

end UnanimousSearch

end N8n.Graph
