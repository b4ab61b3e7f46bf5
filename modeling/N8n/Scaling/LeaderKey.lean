import Mathlib.Data.List.Perm.Basic
import N8n.Scaling.MultiMainSetup

/-!
# Who removes the leader key

`shutdown` clears the key when the instance takes itself for the leader, without looking at the key.
As long as the key outlives what its holder believes, the holder alone clears it: `Holds` is the
invariant of such runs.
-/

namespace N8n.Scaling

open Transition

namespace Instance

/-- The instance takes the key for its own, or is about to: it is the leader or learns that it set
the key, and may still shut down, or it is clearing the key. -/
def ClaimsKey (i : Instance) : Prop :=
  i.isShutDown = false ∧ (i.isLeader = true ∨ ∃ call ∈ i.calls, call = .keySet true true ∨
    call = .keySet false true) ∨ .clearingKey ∈ i.calls

instance (i : Instance) : Decidable i.ClaimsKey := inferInstanceAs (Decidable (_ ∨ _))

/-- An instance clears the key once, in its shutdown. -/
structure ClearsOnce (i : Instance) : Prop where
  once : i.calls.count .clearingKey ≤ 1
  in_shutdown : .clearingKey ∈ i.calls → i.isShutDown = true

/-- The instance `i'` claims the key only if `i` does. -/
structure ClaimsLess (i' i : Instance) : Prop where
  claims : i'.ClaimsKey → i.ClaimsKey
  clears_once : i'.ClearsOnce

variable {i i' : Instance} {hostId : String} {call : Nat}

theorem ClearsOnce.eraseIdx (h : i.ClearsOnce) {i' : Instance}
    (hcalls : i'.calls = i.calls.eraseIdx call)
    (hdown : i'.isShutDown = i.isShutDown) : i'.ClearsOnce where
  once := by
    rw [hcalls]
    exact Nat.le_trans ((List.eraseIdx_sublist _ _).count_le _) h.once
  in_shutdown hmem := by
    rw [hdown]
    rw [hcalls] at hmem
    exact h.in_shutdown (List.mem_of_mem_eraseIdx hmem)

theorem ClearsOnce.set (h : i.ClearsOnce) {i' : Instance} {c : Call} (hc : c ≠ .clearingKey)
    (hcalls : i'.calls = i.calls.set call c) (hdown : i'.isShutDown = i.isShutDown) :
    i'.ClearsOnce where
  once := by
    rw [hcalls]
    by_cases hlt : call < i.calls.length
    · rw [List.count_set hlt,
        if_neg (show ¬(c == .clearingKey) = true from fun h => hc (eq_of_beq h))]
      have := h.once
      omega
    · rw [List.set_eq_of_length_le (Nat.le_of_not_lt hlt)]
      exact h.once
  in_shutdown hmem := by
    rw [hdown]
    rw [hcalls] at hmem
    cases List.mem_or_eq_of_mem_set hmem with
    | inl hmem => exact h.in_shutdown hmem
    | inr heq => exact absurd heq.symm hc

theorem ClearsOnce.append (h : i.ClearsOnce) {i' : Instance} {c : Call} (hc : c ≠ .clearingKey)
    (hcalls : i'.calls = i.calls ++ [c]) (hdown : i'.isShutDown = i.isShutDown) :
    i'.ClearsOnce where
  once := by
    rw [hcalls, List.count_append, List.count_singleton,
      if_neg (show ¬(c == .clearingKey) = true from fun h => hc (eq_of_beq h))]
    exact h.once
  in_shutdown hmem := by
    rw [hdown]
    rw [hcalls] at hmem
    cases List.mem_append.mp hmem with
    | inl hmem => exact h.in_shutdown hmem
    | inr heq => exact absurd (List.mem_singleton.mp heq).symm hc

/-- An instance claims no more than another one if it is the leader, learns that it set the key and
clears the key only if the other one does. -/
theorem claimsKey_of (hdown : i'.isShutDown = i.isShutDown)
    (hleader : i'.isLeader = true → i.isLeader = true ∨
      ∃ c ∈ i.calls, c = .keySet true true ∨ c = .keySet false true)
    (hcalls : ∀ c ∈ i'.calls, c = .keySet true true ∨ c = .keySet false true ∨ c = .clearingKey →
      c ∈ i.calls) (h : i'.ClaimsKey) : i.ClaimsKey := by
  cases h with
  | inl h =>
    obtain ⟨hrunning, h⟩ := h
    rw [hdown] at hrunning
    cases h with
    | inl h => exact .inl ⟨hrunning, hleader h⟩
    | inr h =>
      obtain ⟨c, hc, heq⟩ := h
      exact .inl ⟨hrunning, .inr ⟨c, hcalls c hc (by tauto), heq⟩⟩
  | inr h => exact .inr (hcalls _ h (.inr (.inr rfl)))

theorem reply_claimsLess (hi : i.ClearsOnce) (h : i.reply hostId call = some i') :
    i'.ClaimsLess i := by
  unfold reply at h
  split at h
  · rename_i fromInit ok hcall
    cases h
    refine ⟨claimsKey_of rfl ?_ fun c hc _ => List.mem_of_mem_eraseIdx hc, hi.eraseIdx rfl rfl⟩
    intro hleader
    -- only a set that has succeeded makes a leader
    cases ok with
    | false => cases hleader
    | true =>
      refine .inr ⟨_, List.mem_of_getElem? hcall, ?_⟩
      cases fromInit with
      | false => exact .inr rfl
      | true => exact .inl rfl
  · split at h
    · cases h
      refine ⟨claimsKey_of rfl .inl ?_, hi.set Call.noConfusion rfl rfl⟩
      intro c hc hclaim
      cases List.mem_or_eq_of_mem_set hc with
      | inl hc => exact hc
      | inr heq =>
        rw [heq] at hclaim
        rcases hclaim with h | h | h <;> cases h
    · cases h
      refine ⟨claimsKey_of rfl ?_ fun c hc _ => List.mem_of_mem_eraseIdx hc, hi.eraseIdx rfl rfl⟩
      intro hleader
      unfold isLeader at hleader ⊢
      split at hleader
      · cases hleader
      · exact .inl hleader
  · cases h
    refine ⟨claimsKey_of rfl (fun hleader => by cases hleader) ?_, hi.set Call.noConfusion rfl rfl⟩
    intro c hc hclaim
    cases List.mem_or_eq_of_mem_set hc with
    | inl hc => exact hc
    | inr heq =>
      rw [heq] at hclaim
      rcases hclaim with h | h | h <;> cases h
  · cases h

theorem shutdown_claimsLess (hi : i.ClearsOnce) (hrunning : i.isShutDown = false) :
    i.shutdown.ClaimsLess i := by
  have hnone : Call.clearingKey ∉ i.calls := by
    intro hmem
    rw [hi.in_shutdown hmem] at hrunning
    cases hrunning
  refine ⟨?_, ?_, fun _ => rfl⟩
  · intro h
    cases h with
    | inl h => exact absurd h.1 Bool.noConfusion
    | inr h =>
      unfold shutdown at h
      by_cases hleader : i.isLeader = true
      · exact .inl ⟨hrunning, .inl hleader⟩
      · rw [if_neg hleader] at h
        exact absurd h hnone
  · unfold shutdown
    have hzero : i.calls.count .clearingKey = 0 := List.count_eq_zero.mpr hnone
    split
    · rw [List.count_append, hzero]
      exact Nat.le_refl 1
    · exact hi.once

theorem not_claimsKey_new : ¬ ClaimsKey {} := by decide

theorem clearsOnce_new : ClearsOnce {} where
  once := Nat.zero_le 1
  in_shutdown hmem := absurd hmem List.not_mem_nil

end Instance

namespace MultiMainSetup

variable {config : MultiMainSetupConfig} {s s' : MultiMainSetup} {e : MainEvent}

/-- The key does not expire while its holder claims it, and no instance shuts down twice. -/
def OutlivesClaim (s : MultiMainSetup) : MainEvent → Prop
  | .elapse duration => ∀ key ∈ s.leaderKey.toList, key.expiresAt ≤ s.now + duration →
      ¬ (s.instances key.leaderId).ClaimsKey
  | .shutdown hostId => (s.instances hostId).isShutDown = false
  | .init _ | .checkLeader _ | .execute _ _ | .reply _ _ | .fail _ _ | .crash _ => True

instance (s : MultiMainSetup) (e : MainEvent) : Decidable (s.OutlivesClaim e) :=
  match e with
  | .elapse _ => inferInstanceAs (Decidable (∀ key ∈ s.leaderKey.toList, _ → _))
  | .shutdown hostId => inferInstanceAs (Decidable ((s.instances hostId).isShutDown = false))
  | .init _ | .checkLeader _ | .execute _ _ | .reply _ _ | .fail _ _ | .crash _ =>
    inferInstanceAs (Decidable True)

/-- A key that is gone has expired, or its holder has executed the clearing of its shutdown. -/
def RemovedByHolder (s : MultiMainSetup) (e : MainEvent) (s' : MultiMainSetup) : Prop :=
  ∀ key, s.leaderKey = some key →
    (∃ key', s'.leaderKey = some key' ∧ key'.leaderId = key.leaderId) ∨
    (∃ duration, e = .elapse duration ∧ key.expiresAt ≤ s.now + duration) ∨
    (∃ call, e = .execute key.leaderId call ∧
      (s.instances key.leaderId).calls[call]? = some .clearingKey)

/-- Instances that claim the key hold it, and clear it once. -/
structure Holds (s : MultiMainSetup) : Prop where
  holder : ∀ hostId, (s.instances hostId).ClaimsKey →
    ∃ key, s.leaderKey = some key ∧ key.leaderId = hostId
  clears_once : ∀ hostId, (s.instances hostId).ClearsOnce

variable {hostId : String}

theorem Holds.setInstance (h : s.Holds) {i : Instance} (hless : i.ClaimsLess (s.instances hostId)) :
    (s.setInstance hostId i).Holds := by
  constructor
  · intro hostId' hclaims
    apply h.holder hostId'
    simp only [MultiMainSetup.setInstance] at hclaims
    split at hclaims
    · rename_i heq
      rw [heq]
      exact hless.claims hclaims
    · exact hclaims
  · intro hostId'
    simp only [MultiMainSetup.setInstance]
    split
    · exact hless.clears_once
    · exact h.clears_once hostId'

theorem eraseIdx_claimsLess (h : s.Holds) (hostId : String) (call : Nat) :
    Instance.ClaimsLess
      { s.instances hostId with calls := (s.instances hostId).calls.eraseIdx call }
      (s.instances hostId) where
  claims := Instance.claimsKey_of rfl .inl fun _ hc _ => List.mem_of_mem_eraseIdx hc
  clears_once := (h.clears_once hostId).eraseIdx rfl rfl

theorem set_claimsLess (h : s.Holds) (hostId : String) (call : Nat) {c : Call}
    (hc : c ≠ .keySet true true ∧ c ≠ .keySet false true ∧ c ≠ .clearingKey) :
    Instance.ClaimsLess
      { s.instances hostId with calls := (s.instances hostId).calls.set call c }
      (s.instances hostId) where
  claims := by
    refine Instance.claimsKey_of rfl .inl fun c' hc' hclaim => ?_
    cases List.mem_or_eq_of_mem_set hc' with
    | inl hc' => exact hc'
    | inr heq =>
      rw [heq] at hclaim
      rcases hclaim with h | h | h
      · exact absurd h hc.1
      · exact absurd h hc.2.1
      · exact absurd h hc.2.2
  clears_once := (h.clears_once hostId).set hc.2.2 rfl rfl

theorem Holds.setKey (h : s.Holds) (hvacant : s.leaderKey = none) (hostId : String) (call : Nat)
    (fromInit : Bool) (expiresAt : Nat) :
    Holds { s.setInstance hostId { s.instances hostId with
        calls := (s.instances hostId).calls.set call (.keySet fromInit true) } with
      leaderKey := some ⟨hostId, expiresAt⟩ } := by
  constructor
  · intro hostId' hclaims
    simp only [MultiMainSetup.setInstance] at hclaims
    split at hclaims
    · rename_i heq
      exact ⟨_, rfl, heq.symm⟩
    · obtain ⟨key, hkey, -⟩ := h.holder hostId' hclaims
      rw [hvacant] at hkey
      cases hkey
  · intro hostId'
    simp only [MultiMainSetup.setInstance]
    split
    · exact (h.clears_once hostId).set Call.noConfusion rfl rfl
    · exact h.clears_once hostId'

theorem Holds.clearKey (h : s.Holds) {call : Nat}
    (hcall : (s.instances hostId).calls[call]? = some .clearingKey) :
    Holds { s.setInstance hostId { s.instances hostId with
        calls := (s.instances hostId).calls.eraseIdx call } with leaderKey := none } := by
  have hmem : .clearingKey ∈ (s.instances hostId).calls := List.mem_of_getElem? hcall
  obtain ⟨hlt, hget⟩ := List.getElem?_eq_some_iff.mp hcall
  constructor
  · intro hostId' hclaims
    exfalso
    simp only [MultiMainSetup.setInstance] at hclaims
    split at hclaims
    · -- it has shut down and clears the key once
      have hperm := List.getElem_cons_eraseIdx_perm hlt
      have hcount := (hget ▸ hperm).count_eq Call.clearingKey
      have honce := (h.clears_once hostId).once
      rw [← hcount, List.count_cons_self] at honce
      cases hclaims with
      | inl hclaims =>
        rw [(h.clears_once hostId).in_shutdown hmem] at hclaims
        exact absurd hclaims.1 Bool.noConfusion
      | inr hclaims =>
        have hpos : 0 < ((s.instances hostId).calls.eraseIdx call).count .clearingKey :=
          List.count_pos_iff.mpr hclaims
        omega
    · rename_i hne
      obtain ⟨key, hkey, heq⟩ := h.holder hostId (.inr hmem)
      obtain ⟨key', hkey', heq'⟩ := h.holder hostId' hclaims
      rw [hkey] at hkey'
      cases hkey'
      exact hne (heq'.symm.trans heq)
  · intro hostId'
    simp only [MultiMainSetup.setInstance]
    split
    · exact (h.clears_once hostId).eraseIdx rfl rfl
    · exact h.clears_once hostId'

theorem Holds.renewKey (h : s.Holds) (expiresAt : Nat) :
    Holds { s with
      leaderKey := s.leaderKey.map fun key => { key with expiresAt := expiresAt } } where
  holder hostId hclaims := by
    obtain ⟨key, hkey, heq⟩ := h.holder hostId hclaims
    exact ⟨{ key with expiresAt := expiresAt }, by rw [hkey]; rfl, heq⟩
  clears_once := h.clears_once

theorem execute_holds {call : Nat} (h : s.Holds) (hstep : s.execute config hostId call = some s') :
    s'.Holds ∧ RemovedByHolder s (.execute hostId call) s' := by
  have hkept : s'.leaderKey = s.leaderKey → RemovedByHolder s (.execute hostId call) s' :=
    fun heq key hkey => .inl ⟨key, heq.trans hkey, rfl⟩
  simp only [execute] at hstep
  split at hstep
  · split at hstep
    · rename_i hvacant
      cases hstep
      refine ⟨h.setKey hvacant hostId call _ _, fun key hkey => ?_⟩
      rw [hvacant] at hkey
      cases hkey
    · cases hstep
      refine ⟨h.setInstance (set_claimsLess h hostId call ⟨?_, ?_, ?_⟩), hkept rfl⟩
      · intro heq
        cases heq
      · intro heq
        cases heq
      · exact Call.noConfusion
  · cases hstep
    refine ⟨h.setInstance (set_claimsLess h hostId call ⟨?_, ?_, ?_⟩), hkept rfl⟩
    · exact Call.noConfusion
    · exact Call.noConfusion
    · exact Call.noConfusion
  · cases hstep
    refine ⟨(h.setInstance (eraseIdx_claimsLess h hostId call)).renewKey _, fun key hkey => ?_⟩
    exact .inl ⟨{ key with expiresAt := s.now + config.ttl }, by rw [hkey, Option.map_some], rfl⟩
  · rename_i hcall
    cases hstep
    refine ⟨h.clearKey hcall, fun key hkey => .inr (.inr ?_)⟩
    obtain ⟨key', hkey', heq⟩ := h.holder hostId (.inr (List.mem_of_getElem? hcall))
    rw [hkey] at hkey'
    cases hkey'
    subst heq
    exact ⟨call, rfl, hcall⟩
  · cases hstep

theorem elapse_holds {duration : Nat} (h : s.Holds)
    (houtlives : s.OutlivesClaim (.elapse duration)) :
    (s.elapse duration).Holds ∧ RemovedByHolder s (.elapse duration) (s.elapse duration) := by
  have hcases : ∀ key, s.leaderKey = some key →
      (s.elapse duration).leaderKey = some key ∨ key.expiresAt ≤ s.now + duration := by
    intro key hkey
    by_cases hdue : key.expiresAt ≤ s.now + duration
    · exact .inr hdue
    · left
      simp only [elapse, hkey]
      exact Option.filter_some_pos (decide_eq_true (Nat.lt_of_not_le hdue))
  refine ⟨⟨fun hostId hclaims => ?_, h.clears_once⟩, fun key hkey => ?_⟩
  · obtain ⟨key, hkey, rfl⟩ := h.holder hostId hclaims
    cases hcases key hkey with
    | inl hkept => exact ⟨key, hkept, rfl⟩
    | inr hdue => exact absurd hclaims (houtlives key (Option.mem_toList.mpr hkey) hdue)
  · cases hcases key hkey with
    | inl hkept => exact .inl ⟨key, hkept, rfl⟩
    | inr hdue => exact .inr (.inl ⟨duration, rfl, hdue⟩)

theorem setInstance_holds {i : Instance} (h : s.Holds) (hless : i.ClaimsLess (s.instances hostId)) :
    (s.setInstance hostId i).Holds ∧ RemovedByHolder s e (s.setInstance hostId i) :=
  ⟨h.setInstance hless, fun key hkey => .inl ⟨key, hkey, rfl⟩⟩

theorem append_claimsLess (h : s.Holds) (hostId : String) {c : Call}
    (hc : c ≠ .keySet true true ∧ c ≠ .keySet false true ∧ c ≠ .clearingKey) :
    Instance.ClaimsLess
      { s.instances hostId with calls := (s.instances hostId).calls ++ [c] }
      (s.instances hostId) where
  claims := by
    refine Instance.claimsKey_of rfl .inl fun c' hc' hclaim => ?_
    cases List.mem_append.mp hc' with
    | inl hc' => exact hc'
    | inr heq =>
      rw [List.mem_singleton.mp heq] at hclaim
      rcases hclaim with h | h | h
      · exact absurd h hc.1
      · exact absurd h hc.2.1
      · exact absurd h hc.2.2
  clears_once := (h.clears_once hostId).append hc.2.2 rfl rfl

theorem step_holds (h : s.Holds) (houtlives : s.OutlivesClaim e)
    (hstep : s.step config e = some s') :
    s'.Holds ∧ RemovedByHolder s e s' := by
  cases e with
  | elapse duration =>
    cases hstep
    exact elapse_holds h houtlives
  | init hostId =>
    cases hstep
    exact setInstance_holds h
      (append_claimsLess h hostId ⟨Call.noConfusion, Call.noConfusion, Call.noConfusion⟩)
  | checkLeader hostId =>
    obtain ⟨i, hi, rfl⟩ := Option.map_eq_some_iff.mp hstep
    unfold Instance.checkLeader at hi
    split at hi
    · cases hi
      exact setInstance_holds h
        (append_claimsLess h hostId ⟨Call.noConfusion, Call.noConfusion, Call.noConfusion⟩)
    · cases hi
  | shutdown hostId =>
    cases hstep
    exact setInstance_holds h (Instance.shutdown_claimsLess (h.clears_once hostId) houtlives)
  | execute hostId call => exact execute_holds h hstep
  | reply hostId call =>
    obtain ⟨i, hi, rfl⟩ := Option.map_eq_some_iff.mp hstep
    exact setInstance_holds h (Instance.reply_claimsLess (h.clears_once hostId) hi)
  | fail hostId call =>
    simp only [step] at hstep
    split at hstep
    · cases hstep
      exact setInstance_holds h (eraseIdx_claimsLess h hostId call)
    · cases hstep
  | crash hostId =>
    cases hstep
    exact setInstance_holds h
      ⟨fun hclaims => absurd hclaims Instance.not_claimsKey_new, Instance.clearsOnce_new⟩

theorem holds_of_reachable (h : Reachable (step config) OutlivesClaim {} s) : s.Holds := by
  refine h.keeps Holds ?_ fun s e s' hs houtlives hstep => (step_holds hs houtlives hstep).1
  exact ⟨fun _ hclaims => absurd hclaims Instance.not_claimsKey_new, fun _ =>
    Instance.clearsOnce_new⟩

/-- In a run in which the key outlives the claims of its holder, it is removed only by its expiry or
by the shutdown of its holder. -/
theorem removed_by_holder (config : MultiMainSetupConfig) (s s' : MultiMainSetup) (e : MainEvent)
    (h : Reachable (step config) OutlivesClaim {} s) (houtlives : s.OutlivesClaim e)
    (hstep : s.step config e = some s') : RemovedByHolder s e s' :=
  (step_holds (holds_of_reachable h) houtlives hstep).2

/-- The default time to live. -/
def defaultConfig : MultiMainSetupConfig := ⟨10, by decide⟩

/-- An instance becomes the leader and shuts down. -/
def leaderShutsDown : List MainEvent :=
  [.init "main-a", .execute "main-a" 0, .reply "main-a" 0, .shutdown "main-a"]

/-- It removes its own key. -/
theorem removed_by_holder_shutdown :
    ∃ s s', runAllowed (step defaultConfig) OutlivesClaim {} leaderShutsDown = some s ∧
      s.step defaultConfig (.execute "main-a" 0) = some s' ∧
      RemovedByHolder s (.execute "main-a" 0) s' := by
  have hrun : (runAllowed (step defaultConfig) OutlivesClaim {} leaderShutsDown).any fun s =>
      (s.step defaultConfig (.execute "main-a" 0)).isSome := by decide +kernel
  obtain ⟨s, hs, hstep⟩ := (Option.any_eq_true _ _).mp hrun
  obtain ⟨s', hs'⟩ := Option.isSome_iff_exists.mp hstep
  exact ⟨s, s', hs, hs', removed_by_holder defaultConfig s s' (.execute "main-a" 0)
    (reachable_of_runAllowed .start hs) trivial hs'⟩

/-- The key of a leader expires between two of its checks, another instance becomes the leader, and
the first one shuts down. -/
def formerLeaderShutsDown : List MainEvent :=
  [.init "main-a", .execute "main-a" 0, .reply "main-a" 0, .elapse 10, .init "main-b",
    .execute "main-b" 0, .reply "main-b" 0, .shutdown "main-a"]

/-- It removes the key of the other instance. -/
theorem removed_by_former_leader :
    ¬ ∀ (config : MultiMainSetupConfig) (s s' : MultiMainSetup) (e : MainEvent),
      Reachable (step config) (fun _ _ => True) {} s → s.step config e = some s' →
      RemovedByHolder s e s' := by
  intro hclaim
  have hrun : (run (step defaultConfig) {} formerLeaderShutsDown).any fun s =>
      s.leaderKey = some ⟨"main-b", 20⟩ ∧
      ((s.step defaultConfig (.execute "main-a" 0)).any fun s' => s'.leaderKey = none) = true := by
    decide +kernel
  obtain ⟨s, hs, h⟩ := (Option.any_eq_true _ _).mp hrun
  obtain ⟨hkey, hstep⟩ := of_decide_eq_true h
  obtain ⟨s', hs', hgone⟩ := (Option.any_eq_true _ _).mp hstep
  have hgone := of_decide_eq_true hgone
  rcases hclaim defaultConfig s s' _ (reachable_of_run hs) hs' _ hkey with ⟨key', hkey', -⟩ |
    ⟨duration, heq, -⟩ | ⟨call, heq, -⟩
  · rw [hgone] at hkey'
    cases hkey'
  · cases heq
  · exact absurd (MainEvent.execute.inj heq).1 (by decide)

end MultiMainSetup

end N8n.Scaling
