import N8n.Webhooks.TestWebhooks

/-!
# Test webhooks of different workflows

`Uses s w key` says that the workflow `w` has something at a key: a registration, a running timeout
or a suspended call. As long as no workflow registers a webhook at a key that another one uses, and
`deregisterAll` finds registrations of one workflow only, calls for a workflow leave the others
alone: `unchanged_by_others` says so for every run.
-/

namespace N8n.Webhooks

open Collections Transition

/-- The keys that a suspended call still works with. -/
def Task.keys : Task → List Key
  | .executing _ key _ => [key]
  | .clearing _ key _ => [key]
  | .deactivating _ afterwards => (afterwards.map Prod.snd).toList
  | .deregistering _ afterwards => (afterwards.map Prod.snd).toList
  | .cancelling _ _ _ _ => []
  | .registering _ _ _ => []
  | .creating _ _ webhook _ => [webhook.key, webhook.cleaned.key]
  | .arming _ _ webhook _ => [webhook.key, webhook.cleaned.key]

/-- The timeout that a suspended call still works with. -/
def Task.timeout? : Task → Option TestTimer
  | .registering _ timeout _ => some timeout
  | .creating _ timeout _ _ => some timeout
  | .arming _ timeout _ _ => some timeout
  | _ => none

namespace TestWebhooks

variable {s s' : TestWebhooks} {w w' workflowId : List Char} {key : Key} {mains : List Nat}

/-- The workflows that have a registration, a running timeout or a suspended call with the key. -/
def users (s : TestWebhooks) (key : Key) : List (List Char) :=
  ((s.registrations.get? key).toList.map (·.workflowId)) ++
    ((s.timeouts.entries.filter fun e => decide (e.1.2 = key ∧ e.2 ∈ s.running)).map
      (·.2.workflowId)) ++
    ((s.tasks.filter fun task => decide (key ∈ task.keys)).map Task.workflowId)

/-- The workflow has a registration, a running timeout or a suspended call with the key. -/
def Uses (s : TestWebhooks) (w : List Char) (key : Key) : Prop := w ∈ s.users key

theorem uses_iff :
    Uses s w key ↔
      (∃ r, s.registrations.get? key = some r ∧ r.workflowId = w) ∨
      (∃ main t, s.timeouts.get? (main, key) = some t ∧ t ∈ s.running ∧ t.workflowId = w) ∨
      ∃ task ∈ s.tasks, task.workflowId = w ∧ key ∈ task.keys := by
  simp only [Uses, users, List.mem_append, List.mem_map, Option.mem_toList, List.mem_filter,
    decide_eq_true_eq, InsertionMap.get_eq_some_iff, or_assoc]
  refine or_congr Iff.rfl (or_congr ⟨?_, ?_⟩ ⟨?_, ?_⟩)
  · intro h
    obtain ⟨⟨⟨main, key'⟩, t⟩, ⟨hmem, rfl, hrunning⟩, hw⟩ := h
    exact ⟨main, t, hmem, hrunning, hw⟩
  · intro h
    obtain ⟨main, t, hmem, hrunning, hw⟩ := h
    exact ⟨((main, key), t), ⟨hmem, rfl, hrunning⟩, hw⟩
  · intro h
    obtain ⟨task, ⟨hmem, hkey⟩, hw⟩ := h
    exact ⟨task, hmem, hw, hkey⟩
  · intro h
    obtain ⟨task, hmem, hw, hkey⟩ := h
    exact ⟨task, ⟨hmem, hkey⟩, hw⟩

/-- The registrations and the timeouts of a workflow are the same in both states. -/
structure Unchanged (w : List Char) (s s' : TestWebhooks) : Prop where
  registrations : ∀ key r, r.workflowId = w →
    (s'.registrations.get? key = some r ↔ s.registrations.get? key = some r)
  running : ∀ t, t.workflowId = w → (t ∈ s'.running ↔ t ∈ s.running)
  timeouts : ∀ place t, t.workflowId = w → t ∈ s.running →
    (s'.timeouts.get? place = some t ↔ s.timeouts.get? place = some t)

theorem Unchanged.refl (w : List Char) (s : TestWebhooks) : Unchanged w s s :=
  ⟨fun _ _ _ => .rfl, fun _ _ => .rfl, fun _ _ _ _ => .rfl⟩

theorem Unchanged.trans {s'' : TestWebhooks} (h : Unchanged w s s') (h' : Unchanged w s' s'') :
    Unchanged w s s'' where
  registrations key r hr := (h'.registrations key r hr).trans (h.registrations key r hr)
  running t ht := (h'.running t ht).trans (h.running t ht)
  timeouts place t ht hrunning :=
    (h'.timeouts place t ht ((h.running t ht).mpr hrunning)).trans (h.timeouts place t ht hrunning)

/-- Every key is used by one workflow at most, and timeouts have been given their ids before. -/
structure Separate (s : TestWebhooks) : Prop where
  unique : ∀ key w w', Uses s w key → Uses s w' key → w = w'
  timeouts : ∀ place t, s.timeouts.get? place = some t → t.id < s.nextTimer
  tasks : ∀ task ∈ s.tasks, ∀ t, task.timeout? = some t →
    t.id < s.nextTimer ∧ t.workflowId = task.workflowId

/-- No workflow but this one uses the key. -/
def OwnKey (s : TestWebhooks) (workflowId : List Char) (key : Key) : Prop :=
  ∀ w, Uses s w key → w = workflowId

/-- What going on with the calls of a workflow does: new uses are its own and of its own keys, and
nothing changes for other workflows. -/
structure Effect (workflowId : List Char) (s s' : TestWebhooks) : Prop where
  grows : ∀ key w, Uses s' w key → Uses s w key ∨ w = workflowId ∧ OwnKey s workflowId key
  others : ∀ w, w ≠ workflowId → Unchanged w s s'
  timeouts : ∀ place t, s'.timeouts.get? place = some t → t.id < s'.nextTimer
  tasks : ∀ task ∈ s'.tasks, ∀ t, task.timeout? = some t →
    t.id < s'.nextTimer ∧ t.workflowId = task.workflowId

theorem Effect.separate (h : Effect workflowId s s') (hs : s.Separate) : s'.Separate where
  unique key w w' hw hw' := by
    cases h.grows key w hw with
    | inl hold =>
      cases h.grows key w' hw' with
      | inl hold' => exact hs.unique key w w' hold hold'
      | inr hnew' => rw [hnew'.1, hnew'.2 w hold]
    | inr hnew =>
      cases h.grows key w' hw' with
      | inl hold' => rw [hnew.1, hnew.2 w' hold']
      | inr hnew' => rw [hnew.1, hnew'.1]
  timeouts := h.timeouts
  tasks := h.tasks

theorem Separate.own_key (hs : s.Separate) {task : Task} (htask : task ∈ s.tasks)
    (hkey : key ∈ task.keys) : OwnKey s task.workflowId key := fun w hw =>
  hs.unique key w task.workflowId hw (uses_iff.mpr (.inr (.inr ⟨task, htask, rfl, hkey⟩)))

theorem Separate.own_registration (hs : s.Separate) {r : TestWebhookRegistration}
    (hr : s.registrations.get? key = some r) : OwnKey s r.workflowId key := fun w hw =>
  hs.unique key w r.workflowId hw (uses_iff.mpr (.inl ⟨r, hr, rfl⟩))

theorem Effect.own_key (h : Effect workflowId s s') (hown : OwnKey s workflowId key) :
    OwnKey s' workflowId key := by
  intro w hw
  cases h.grows key w hw with
  | inl hold => exact hown w hold
  | inr hnew => exact hnew.1

theorem Effect.own_timeout (h : Effect workflowId s s') {place : Nat × Key}
    (hown : OwnKey s workflowId place.2) {t : TestTimer} (hget : s'.timeouts.get? place = some t)
    (hrunning : t ∈ s'.running) : t.workflowId = workflowId :=
  h.own_key hown t.workflowId (uses_iff.mpr (.inr (.inl ⟨place.1, t, hget, hrunning, rfl⟩)))

theorem Separate.take (hs : s.Separate) (workflowId : List Char) (task : Task) :
    Effect workflowId s { s with tasks := s.tasks.erase task } where
  grows key w hw := by
    refine .inl (uses_iff.mpr ?_)
    obtain hregistered | hrunning | ⟨other, hother, hw, hkey⟩ := uses_iff.mp hw
    · exact .inl hregistered
    · exact .inr (.inl hrunning)
    · exact .inr (.inr ⟨other, List.mem_of_mem_erase hother, hw, hkey⟩)
  others w _ := ⟨fun _ _ _ => .rfl, fun _ _ => .rfl, fun _ _ _ _ => .rfl⟩
  timeouts := hs.timeouts
  tasks other hother := hs.tasks other (List.mem_of_mem_erase hother)

theorem Effect.spawn (h : Effect workflowId s s') {tasks : List Task}
    (htasks : ∀ task ∈ tasks, task.workflowId = workflowId ∧
      (∀ key ∈ task.keys, OwnKey s workflowId key) ∧
      ∀ t, task.timeout? = some t → t.id < s'.nextTimer ∧ t.workflowId = workflowId) :
    Effect workflowId s (s'.spawn tasks) where
  grows key w hw := by
    obtain hregistered | hrunning | ⟨task, htask, hw, hkey⟩ := uses_iff.mp hw
    · exact h.grows key w (uses_iff.mpr (.inl hregistered))
    · exact h.grows key w (uses_iff.mpr (.inr (.inl hrunning)))
    · cases List.mem_append.mp htask with
      | inl hold => exact h.grows key w (uses_iff.mpr (.inr (.inr ⟨task, hold, hw, hkey⟩)))
      | inr hnew => exact .inr ⟨hw ▸ (htasks task hnew).1, (htasks task hnew).2.1 key hkey⟩
  others w hw := ⟨(h.others w hw).registrations, (h.others w hw).running, (h.others w hw).timeouts⟩
  timeouts := h.timeouts
  tasks task htask t ht := by
    cases List.mem_append.mp htask with
    | inl hold => exact h.tasks task hold t ht
    | inr hnew =>
      obtain ⟨hworkflow, -, htimeout⟩ := htasks task hnew
      rw [hworkflow]
      exact htimeout t ht

theorem Effect.spawn_one (h : Effect workflowId s s') {task : Task}
    (hworkflow : task.workflowId = workflowId) (hkeys : ∀ key ∈ task.keys, OwnKey s workflowId key)
    (htimeout : ∀ t, task.timeout? = some t → t.id < s'.nextTimer ∧ t.workflowId = workflowId) :
    Effect workflowId s (s'.spawn [task]) := by
  refine h.spawn fun other hother => ?_
  cases List.mem_singleton.mp hother
  exact ⟨hworkflow, hkeys, htimeout⟩

theorem Effect.clear_timeout (h : Effect workflowId s s') (main : Nat)
    (hown : OwnKey s workflowId key) : Effect workflowId s (s'.clearTimeout main key) := by
  unfold clearTimeout
  cases hget : s'.timeouts.get? (main, key) with
  | none => exact h
  | some timeout =>
    refine ⟨fun key w hw => h.grows key w (uses_iff.mpr ?_), fun w hw => (h.others w hw).trans ?_,
      h.timeouts, h.tasks⟩
    · obtain hregistered | ⟨main', t, ht, hrunning, hw⟩ | htask := uses_iff.mp hw
      · exact .inl hregistered
      · exact .inr (.inl ⟨main', t, ht, (List.mem_filter.mp hrunning).1, hw⟩)
      · exact .inr (.inr htask)
    · refine ⟨fun _ _ _ => .rfl, fun t ht => ⟨fun hmem => (List.mem_filter.mp hmem).1,
        fun hmem => List.mem_filter.mpr ⟨hmem, decide_eq_true fun heq => ?_⟩⟩,
        fun _ _ _ _ => .rfl⟩
      rw [← ht, heq] at hw
      exact hw (h.own_timeout hown hget (heq ▸ hmem))

theorem Effect.register (h : Effect workflowId s s') {r : TestWebhookRegistration}
    (hr : r.workflowId = workflowId) (hown : OwnKey s workflowId r.webhook.key) :
    Effect workflowId s (s'.register r) := by
  have hmine : ∀ r', s'.registrations.get? r.webhook.key = some r' → r'.workflowId = workflowId :=
    fun r' hr' => h.own_key hown r'.workflowId (uses_iff.mpr (.inl ⟨r', hr', rfl⟩))
  refine ⟨fun key w hw => ?_, fun w hw => (h.others w hw).trans ⟨fun key r' hr' => ?_,
    fun _ _ => .rfl, fun _ _ _ _ => .rfl⟩, h.timeouts, h.tasks⟩
  · obtain ⟨r', hr', hw⟩ | hrunning | htask := uses_iff.mp hw
    · rw [TestWebhooks.register, InsertionMap.get_set] at hr'
      split at hr'
      · rename_i hkey
        cases hr'
        exact .inr ⟨hw ▸ hr, hkey ▸ hown⟩
      · exact h.grows key w (uses_iff.mpr (.inl ⟨r', hr', hw⟩))
    · exact h.grows key w (uses_iff.mpr (.inr (.inl hrunning)))
    · exact h.grows key w (uses_iff.mpr (.inr (.inr htask)))
  · rw [TestWebhooks.register, InsertionMap.get_set]
    split
    · rename_i hkey
      constructor
      · intro heq
        cases heq
        exact absurd (hr'.symm.trans hr) hw
      · intro heq
        exact absurd (hr'.symm.trans (hmine r' (hkey ▸ heq))) hw
    · rfl

theorem Effect.deregister_all (h : Effect workflowId s s')
    (hown : ∀ r ∈ s'.registrations.values, r.workflowId = workflowId) :
    Effect workflowId s { s' with registrations := .empty } := by
  refine ⟨fun key w hw => h.grows key w (uses_iff.mpr ?_), fun w hw =>
    (h.others w hw).trans ⟨fun key r hr => ?_, fun _ _ => .rfl, fun _ _ _ _ => .rfl⟩,
    h.timeouts, h.tasks⟩
  · obtain ⟨r, hr, -⟩ | hrest := uses_iff.mp hw
    · cases hr
    · exact .inr hrest
  · constructor
    · intro hget
      cases hget
    · intro hget
      have hmine := hown r (InsertionMap.mem_values_iff.mpr ⟨key, hget⟩)
      exact absurd (hr.symm.trans hmine) hw

theorem Effect.after (h : Effect workflowId s s') {afterwards : Option (Nat × Key)}
    (hown : ∀ key ∈ (afterwards.map Prod.snd).toList, OwnKey s workflowId key) :
    Effect workflowId s (s'.after afterwards) := by
  cases afterwards with
  | none => exact h
  | some place =>
    have hown : OwnKey s workflowId place.2 := hown place.2 (by simp)
    refine ⟨fun key w hw => h.grows key w (uses_iff.mpr ?_), fun w hw => (h.others w hw).trans
      ⟨fun _ _ _ => .rfl, fun _ _ => .rfl, fun other t ht hrunning => ?_⟩, fun other t ht => ?_,
      h.tasks⟩
    · obtain hregistered | ⟨main, t, ht, hrunning, hw⟩ | htask := uses_iff.mp hw
      · exact .inl hregistered
      · rw [TestWebhooks.after, InsertionMap.get_delete] at ht
        split at ht
        · cases ht
        · exact .inr (.inl ⟨main, t, ht, hrunning, hw⟩)
      · exact .inr (.inr htask)
    · rw [TestWebhooks.after, InsertionMap.get_delete]
      split
      · rename_i hplace
        constructor
        · intro heq
          cases heq
        · intro heq
          exact absurd (ht.symm.trans (h.own_timeout hown (hplace ▸ heq) hrunning)) hw
      · rfl
    · rw [TestWebhooks.after, InsertionMap.get_delete] at ht
      split at ht
      · cases ht
      · exact h.timeouts other t ht

theorem Effect.set_timeout (h : Effect workflowId s s') {place : Nat × Key} {timeout : TestTimer}
    (hid : timeout.id < s'.nextTimer) (htimeout : timeout.workflowId = workflowId)
    (hown : OwnKey s workflowId place.2) :
    Effect workflowId s { s' with timeouts := s'.timeouts.set place timeout } := by
  refine ⟨fun key w hw => ?_, fun w hw => (h.others w hw).trans
    ⟨fun _ _ _ => .rfl, fun _ _ => .rfl, fun other t ht hrunning => ?_⟩, fun other t ht => ?_,
    h.tasks⟩
  · obtain hregistered | ⟨main, t, ht, hrunning, howner⟩ | htask := uses_iff.mp hw
    · exact h.grows key w (uses_iff.mpr (.inl hregistered))
    · dsimp only at ht
      rw [InsertionMap.get_set] at ht
      split at ht
      · rename_i hplace
        cases ht
        have hkey : key = place.2 := congrArg Prod.snd hplace
        exact .inr ⟨howner.symm.trans htimeout, hkey ▸ hown⟩
      · exact h.grows key w (uses_iff.mpr (.inr (.inl ⟨main, t, ht, hrunning, howner⟩)))
    · exact h.grows key w (uses_iff.mpr (.inr (.inr htask)))
  · dsimp only
    rw [InsertionMap.get_set]
    split
    · rename_i hplace
      constructor
      · intro heq
        cases heq
        exact absurd (ht.symm.trans htimeout) hw
      · intro heq
        exact absurd (ht.symm.trans (h.own_timeout hown (hplace ▸ heq) hrunning)) hw
    · rfl
  · dsimp only at ht
    rw [InsertionMap.get_set] at ht
    split at ht
    · cases ht
      exact hid
    · exact h.timeouts other t ht

section

variable (s : TestWebhooks)

/-- The condition on an event: a webhook is registered at keys that no other workflow uses, and
when the webhooks of a workflow are deregistered, all registrations are of that workflow. -/
def KeepsApart : TestWebhookEvent → Prop
  | .advance (.registering call _ (webhook :: _)) _ _ =>
    webhook.node ∉ call.runData →
      ∀ key ∈ [webhook.key, webhook.cleaned.key], ∀ w ∈ s.users key, w = call.workflowId
  | .advance (.deregistering workflowId _) ok _ =>
    ok = true → ∀ r ∈ s.registrations.values, r.workflowId = workflowId
  | _ => True

instance (e : TestWebhookEvent) : Decidable (s.KeepsApart e) :=
  match e with
  | .advance (.registering call _ (webhook :: _)) _ _ =>
    inferInstanceAs (Decidable (webhook.node ∉ call.runData →
      ∀ key ∈ [webhook.key, webhook.cleaned.key], ∀ w ∈ s.users key, w = call.workflowId))
  | .advance (.deregistering workflowId _) ok _ =>
    inferInstanceAs (Decidable (ok = true →
      ∀ r ∈ s.registrations.values, r.workflowId = workflowId))
  | .advance (.registering _ _ []) _ _ => .isTrue trivial
  | .advance (.executing _ _ _) _ _ => .isTrue trivial
  | .advance (.clearing _ _ _) _ _ => .isTrue trivial
  | .advance (.deactivating _ _) _ _ => .isTrue trivial
  | .advance (.cancelling _ _ _ _) _ _ => .isTrue trivial
  | .advance (.creating _ _ _ _) _ _ => .isTrue trivial
  | .advance (.arming _ _ _ _) _ _ => .isTrue trivial
  | .execute _ _ _ _ => .isTrue trivial
  | .needs _ => .isTrue trivial
  | .cancel _ _ => .isTrue trivial
  | .fire _ => .isTrue trivial

end

theorem Separate.advance (hs : s.Separate) {task : Task} (htask : task ∈ s.tasks)
    (ok hasPushRef : Bool) (hkeeps : s.KeepsApart (.advance task ok hasPushRef)) :
    Effect task.workflowId s
      ({ s with tasks := s.tasks.erase task }.advance mains ok hasPushRef task) := by
  have htake := hs.take task.workflowId task
  have hkeys : ∀ key ∈ task.keys, OwnKey s task.workflowId key := fun key hkey =>
    hs.own_key htask hkey
  have htimer := hs.tasks task htask
  cases task with
  | executing main key registration =>
    have hown : OwnKey s registration.workflowId key := hkeys key (List.mem_singleton.mpr rfl)
    simp only [TestWebhooks.advance]
    split
    · exact htake
    · split
      · refine htake.spawn fun task htask => ?_
        obtain ⟨other, -, rfl⟩ := List.mem_map.mp htask
        exact ⟨rfl, hkeys, fun t ht => by cases ht⟩
      · exact (htake.clear_timeout main hown).spawn_one rfl (by simp [Task.keys])
          fun t ht => by cases ht
  | clearing main key registration =>
    have hown : OwnKey s registration.workflowId key := hkeys key (List.mem_singleton.mpr rfl)
    simp only [TestWebhooks.advance]
    split
    · exact (htake.clear_timeout main hown).spawn_one rfl (by simp [Task.keys])
        fun t ht => by cases ht
    · exact htake
  | deactivating workflowId afterwards =>
    simp only [TestWebhooks.advance]
    split
    · exact htake
    · split
      · exact htake.spawn_one rfl hkeys fun t ht => by cases ht
      · exact htake.after hkeys
  | deregistering workflowId afterwards =>
    simp only [TestWebhooks.advance]
    split
    · rename_i hok
      exact (htake.deregister_all (hkeeps hok)).after hkeys
    · exact htake
  | cancelling main workflowId keys foundWebhook =>
    cases keys with
    | nil => exact htake
    | cons key rest =>
      simp only [TestWebhooks.advance]
      cases hget : s.registrations.get? key with
      | none =>
        exact htake.spawn_one rfl (by simp [Task.keys]) fun t ht => by cases ht
      | some registration =>
        dsimp only
        split
        · exact htake.spawn_one rfl (by simp [Task.keys]) fun t ht => by cases ht
        · rename_i hsame
          have hown : OwnKey s workflowId key := not_not.mp hsame ▸ hs.own_registration hget
          refine (htake.clear_timeout main hown).spawn fun task htask => ?_
          cases List.mem_append.mp htask with
          | inl hdeactivating =>
            split at hdeactivating
            · cases hdeactivating
            · cases List.mem_singleton.mp hdeactivating
              exact ⟨rfl, by simp [Task.keys], fun t ht => by cases ht⟩
          | inr hcancelling =>
            cases List.mem_singleton.mp hcancelling
            exact ⟨rfl, by simp [Task.keys], fun t ht => by cases ht⟩
  | registering call timeout webhooks =>
    cases webhooks with
    | nil => exact htake
    | cons webhook rest =>
      simp only [TestWebhooks.advance]
      split
      · exact htake
      · rename_i hnode
        have hown := hkeeps (by simpa using hnode)
        split
        · exact htake
        · split
          · exact (htake.register rfl (hown _ (by simp [NeedsWebhook.registration]))).spawn_one
              rfl hown htimer
          · refine htake.spawn_one rfl (fun key hkey => hown key ?_) fun t ht => by cases ht
            rw [List.mem_singleton.mp hkey]
            simp
  | creating call timeout webhook rest =>
    simp only [TestWebhooks.advance]
    split
    · exact (htake.register rfl
        (hkeys _ (by simp [Task.keys, NeedsWebhook.registration]))).spawn_one rfl hkeys htimer
    · refine htake.spawn_one rfl (fun key hkey => hkeys key ?_) fun t ht => by cases ht
      rw [List.mem_singleton.mp hkey]
      simp [Task.keys]
  | arming call timeout webhook rest =>
    obtain ⟨hid, hworkflow⟩ := htimer timeout rfl
    exact (htake.set_timeout hid hworkflow (hkeys _ (by simp [Task.keys]))).spawn_one rfl
      (by simp [Task.keys]) htimer

theorem Separate.stay (hs : s.Separate) (workflowId : List Char) : Effect workflowId s s :=
  ⟨fun _ _ => .inl, fun w _ => .refl w s, hs.timeouts, hs.tasks⟩

/-- Suspending a call changes no registration and no timeout. -/
theorem unchanged_spawn (w : List Char) (s : TestWebhooks) (tasks : List Task) :
    Unchanged w s (s.spawn tasks) :=
  ⟨fun _ _ _ => .rfl, fun _ _ => .rfl, fun _ _ _ _ => .rfl⟩

theorem find_registration_get {httpMethod : Method} {path : List Char}
    {registration : TestWebhookRegistration}
    (h : s.findRegistration httpMethod path = some (key, registration)) :
    s.registrations.get? key = some registration := by
  unfold findRegistration at h
  dsimp only at h
  split at h
  · cases h
  · obtain ⟨r, hget, heq⟩ := Option.map_eq_some_iff.mp h
    cases heq
    exact hget

theorem Separate.needs_webhook (hs : s.Separate) (call : NeedsWebhook) :
    Effect call.workflowId s (s.needsWebhook call) := by
  unfold needsWebhook
  split
  · exact hs.stay call.workflowId
  · split
    · exact hs.stay call.workflowId
    · split
      · exact hs.stay call.workflowId
      · refine ⟨fun key w hw => .inl (uses_iff.mpr ?_), fun w hw => ⟨fun _ _ _ => .rfl,
          fun t ht => ?_, fun _ _ _ _ => .rfl⟩, fun place t ht => ?_, fun task htask t ht => ?_⟩
        · obtain hregistered | ⟨main, t, ht, hrunning, hw⟩ | ⟨task, htask, hw, hkey⟩ :=
            uses_iff.mp hw
          · exact .inl hregistered
          · cases List.mem_append.mp hrunning with
            | inl hold => exact .inr (.inl ⟨main, t, ht, hold, hw⟩)
            | inr hnew =>
              -- The new timeout is stored nowhere yet.
              have hlt := hs.timeouts _ _ ht
              rw [List.mem_singleton.mp hnew] at hlt
              exact absurd hlt (Nat.lt_irrefl _)
          · cases List.mem_append.mp htask with
            | inl hold => exact .inr (.inr ⟨task, hold, hw, hkey⟩)
            | inr hnew =>
              rw [List.mem_singleton.mp hnew] at hkey
              cases hkey
        · rw [List.mem_append, List.mem_singleton, or_iff_left]
          intro heq
          exact hw (ht.symm.trans (congrArg TestTimer.workflowId heq))
        · exact Nat.lt_succ_of_lt (hs.timeouts place t ht)
        · cases List.mem_append.mp htask with
          | inl hold =>
            obtain ⟨hid, hworkflow⟩ := hs.tasks task hold t ht
            exact ⟨Nat.lt_succ_of_lt hid, hworkflow⟩
          | inr hnew =>
            cases List.mem_singleton.mp hnew
            cases ht
            exact ⟨Nat.lt_succ_self _, rfl⟩

theorem Separate.fire (hs : s.Separate) (timeout : TestTimer) :
    Effect timeout.workflowId s { s with running := s.running.filter (· ≠ timeout) } := by
  refine ⟨fun key w hw => .inl (uses_iff.mpr ?_), fun w hw => ⟨fun _ _ _ => .rfl,
    fun t ht => ⟨fun hmem => (List.mem_filter.mp hmem).1, fun hmem =>
      List.mem_filter.mpr ⟨hmem, decide_eq_true fun heq => ?_⟩⟩, fun _ _ _ _ => .rfl⟩,
    hs.timeouts, hs.tasks⟩
  · obtain hregistered | ⟨main, t, ht, hrunning, hw⟩ | htask := uses_iff.mp hw
    · exact .inl hregistered
    · exact .inr (.inl ⟨main, t, ht, (List.mem_filter.mp hrunning).1, hw⟩)
    · exact .inr (.inr htask)
  · exact hw (ht.symm.trans (congrArg TestTimer.workflowId heq))

theorem Separate.step (hs : s.Separate) {e : TestWebhookEvent} (hkeeps : s.KeepsApart e)
    (hstep : s.step mains e = some s') :
    s'.Separate ∧ ∀ w, e.workflowId ≠ some w → Unchanged w s s' := by
  have hresult : ∀ {workflowId : List Char}, e.workflowId = some workflowId →
      Effect workflowId s s' → s'.Separate ∧ ∀ w, e.workflowId ≠ some w → Unchanged w s s' := by
    intro workflowId he heffect
    refine ⟨heffect.separate hs, fun w hw => heffect.others w fun heq => ?_⟩
    exact hw (he.trans (congrArg some heq.symm))
  cases e with
  | execute main httpMethod path nodeFound =>
    simp only [TestWebhooks.step] at hstep
    split at hstep
    · rename_i key registration hfound
      split at hstep
      · cases hstep
        have hown := hs.own_registration (find_registration_get hfound)
        refine ⟨((hs.stay registration.workflowId).spawn fun task htask => ?_).separate hs,
          fun w _ => unchanged_spawn w s _⟩
        cases List.mem_singleton.mp htask
        refine ⟨rfl, fun key hkey => ?_, fun t ht => by cases ht⟩
        rw [List.mem_singleton.mp hkey]
        exact hown
      · cases hstep
        exact ⟨hs, fun w _ => .refl w _⟩
    · cases hstep
      exact ⟨hs, fun w _ => .refl w _⟩
  | needs call =>
    cases hstep
    exact hresult rfl (hs.needs_webhook call)
  | cancel main workflowId =>
    cases hstep
    exact hresult rfl ((hs.stay workflowId).spawn_one rfl (by simp [Task.keys])
      fun t ht => by cases ht)
  | fire timeout =>
    simp only [TestWebhooks.step] at hstep
    split at hstep
    · cases hstep
      exact hresult rfl ((hs.fire timeout).spawn_one rfl (by simp [Task.keys])
        fun t ht => by cases ht)
    · cases hstep
  | advance task ok hasPushRef =>
    simp only [TestWebhooks.step] at hstep
    split at hstep
    · rename_i htask
      cases hstep
      exact hresult rfl (hs.advance htask ok hasPushRef hkeeps)
    · cases hstep

theorem separate_initial : initial.Separate where
  unique key w w' hw := by
    obtain ⟨r, hr, -⟩ | ⟨main, t, ht, -⟩ | ⟨task, htask, -⟩ := uses_iff.mp hw
    · cases hr
    · cases ht
    · cases htask
  timeouts place t ht := by cases ht
  tasks task htask := by cases htask

/-- In every state that a run reaches, the registrations and timeouts of a workflow stay exactly as
they are over every continuation that does nothing for that workflow, when webhooks are registered
at keys of their own and deregistered while no other workflow has a registration. -/
theorem unchanged_by_others
    (h : Reachable (step mains) (fun s e => s.KeepsApart e) initial s)
    (h' : Reachable (step mains) (fun s e => s.KeepsApart e ∧ e.workflowId ≠ some w) s s') :
    Unchanged w s s' := by
  have hs : s.Separate :=
    h.keeps Separate separate_initial fun s e s' hs hkeeps hstep => (hs.step hkeeps hstep).1
  have hs' : s'.Separate ∧ Unchanged w s s' := by
    refine h'.keeps (fun m => m.Separate ∧ Unchanged w s m) ⟨hs, .refl w s⟩ ?_
    intro m e m' hm hallowed hstep
    obtain ⟨hseparate, hothers⟩ := hm.1.step hallowed.1 hstep
    exact ⟨hseparate, hm.2.trans (hothers w hallowed.2)⟩
  exact hs'.2

/-- A webhook of a manual run. -/
def sampleWebhook (path : String) : TestWebhook :=
  ⟨"Webhook".toList, path.toList, .get, none, false⟩

/-- A manual run of a workflow with one webhook. -/
def sampleCall (workflowId path : String) : NeedsWebhook :=
  ⟨0, "user".toList, workflowId.toList, [sampleWebhook path], [], none, none, none⟩

/-- Listening for the webhook with a new timeout. -/
def listen (workflowId path : String) (timer : Nat) : List TestWebhookEvent :=
  let call := sampleCall workflowId path
  let timeout : TestTimer := ⟨timer, 0, workflowId.toList⟩
  [.needs call,
    .advance (.registering call timeout [sampleWebhook path]) true true,
    .advance (.creating call timeout (sampleWebhook path) []) true true,
    .advance (.arming call timeout (sampleWebhook path) []) true true]

/-- Cancelling the test webhook of the first of two workflows. -/
def cancelFirst : List TestWebhookEvent :=
  [.cancel 0 "first".toList,
    .advance (.cancelling 0 "first".toList ["GET|a".toList, "GET|b".toList] false) true true,
    .advance (.deactivating "first".toList none) true true,
    .advance (.deregistering "first".toList none) true true]

/-- A main instance that listens for the first workflow. -/
def listensFirst : TestWebhooks := (run (step [0]) initial (listen "first" "a" 0)).getD initial

/-- The same main instance once it also listens for the second workflow. -/
def listensBoth : TestWebhooks := (run (step [0]) listensFirst (listen "second" "b" 1)).getD initial

/-- Listening for a second workflow leaves the first one as it is. -/
theorem unchanged_by_second : Unchanged "first".toList listensFirst listensBoth :=
  unchanged_by_others
    (reachable_of_runAllowed .start
      (show runAllowed (step [0]) (fun s e => s.KeepsApart e) initial (listen "first" "a" 0) =
        some listensFirst by decide +kernel))
    (reachable_of_runAllowed .start
      (show runAllowed (step [0])
          (fun s e => s.KeepsApart e ∧ e.workflowId ≠ some "first".toList) listensFirst
          (listen "second" "b" 1) = some listensBoth by decide +kernel))

/-- Cancelling the test webhook of one workflow removes that of the other one. -/
theorem changed_by_cancel :
    ¬ ∀ (mains : List Nat) (w : List Char) (s s' : TestWebhooks),
      Reachable (step mains) (fun _ _ => True) initial s →
      Reachable (step mains) (fun _ e => e.workflowId ≠ some w) s s' → Unchanged w s s' := by
  intro h
  have hboth : run (step [0]) initial (listen "first" "a" 0 ++ listen "second" "b" 1) =
      some listensBoth := by decide +kernel
  have hcancelled : runAllowed (step [0]) (fun _ e => e.workflowId ≠ some "second".toList)
      listensBoth cancelFirst = some { listensBoth with
        registrations := .empty, running := [⟨1, 0, "second".toList⟩],
        tasks := listensBoth.tasks ++
          [.cancelling 0 "first".toList ["GET|b".toList] true] } := by decide +kernel
  have hunchanged := h [0] "second".toList listensBoth _ (reachable_of_run hboth)
    (reachable_of_runAllowed .start hcancelled)
  have hregistered := (hunchanged.registrations "GET|b".toList
    ((sampleCall "second" "b").registration (sampleWebhook "b")) rfl).mpr (by decide +kernel)
  cases hregistered

end TestWebhooks

end N8n.Webhooks
