import N8n.Collections.InsertionMap
import N8n.Collections.ObjectProperties
import N8n.Transition.Runs

/-!
# Sessions across reconnects

A session belongs to the connection that was added last for its push ref, until this connection
closes. The listeners of a replaced connection remove the session of the one that took its place;
while no event of a replaced connection arrives when another one is registered, the sessions are
exact.
-/

namespace N8n.Push

open Collections Transition

/-! ## Push sessions

`AbstractPush` keeps the connections of the clients and their users in two objects, under the push
refs that the clients choose. A connection that is replaced is asked to close; its events arrive
later, at listeners that know the push ref only. Connections are numbered in the order in which they
are added.
-/

/-- The text under which a client connects. -/
abbrev PushRef := List Char

/-- `WebSocketPush` or `SSEPush`. -/
inductive Backend where
  | websocket
  | sse
  deriving DecidableEq, Repr

/-- The events that tell that a connection closed. -/
inductive CloseEvent where
  | ended
  | closed
  | finished
  deriving DecidableEq, Repr

/-- The events that a backend listens to, each once. -/
def Backend.closeEvents : Backend → List CloseEvent
  | .websocket => [.closed]
  | .sse => [.ended, .closed, .finished]

/-- The sessions, for users of `U` and messages of `M`, and what the environment knows: the push ref
of each connection that was added, those asked to close, the listeners and the connections with an
event, what was sent, and how many calls threw. -/
structure AbstractPush (U M : Type) where
  connections : InsertionMap PushRef Nat
  userIdByPushRef : InsertionMap PushRef U
  added : List PushRef
  closing : List Nat
  listeners : List (Nat × CloseEvent)
  closed : List Nat
  sent : List (Nat × M)
  thrown : Nat

inductive PushEvent (U M : Type) where
  /-- A client connects. -/
  | add (pushRef : PushRef) (userId : U)
  /-- A connection emits an event, at some time after it was added. -/
  | close (connection : Nat) (event : CloseEvent)
  | sendToAll (pushMsg : M)
  | sendToOne (pushMsg : M) (pushRef : PushRef)
  | sendToUsers (pushMsg : M) (userIds : List U)
  | closeAllConnections
  deriving DecidableEq, Repr

/-- What `connections[pushRef]` is. -/
inductive Lookup where
  | connection (connection : Nat)
  /-- A property that objects inherit. -/
  | builtin
  | missing
  deriving DecidableEq, Repr

namespace AbstractPush

variable {U M : Type}

/-- `connections[pushRef]`. -/
def lookup (s : AbstractPush U M) (pushRef : PushRef) : Lookup :=
  match s.connections.get? pushRef with
  | some connection => .connection connection
  | none => if pushRef ∈ objectPrototypeNames then .builtin else .missing

/-- `AbstractPush.add`, unless the existing connection cannot be closed. -/
def register (s : AbstractPush U M) (pushRef : PushRef) (userId : U) (connection : Nat) :
    Option (AbstractPush U M) :=
  let registered : AbstractPush U M :=
    { s with
      connections := s.connections.set pushRef connection
      userIdByPushRef := s.userIdByPushRef.set pushRef userId }
  match s.lookup pushRef with
  | .connection existing => some { registered with closing := s.closing ++ [existing] }
  | .builtin => none
  | .missing => some registered

/-- `add` of a backend: the listeners are attached once the connection is registered. -/
def add (backend : Backend) (s : AbstractPush U M) (pushRef : PushRef) (userId : U) :
    AbstractPush U M :=
  let connection := s.added.length
  let s := { s with added := s.added ++ [pushRef] }
  match s.register pushRef userId connection with
  | none => { s with thrown := s.thrown + 1 }
  | some s =>
    { s with
      listeners := s.listeners ++ backend.closeEvents.map fun event => (connection, event) }

/-- Remove a session. -/
def remove (s : AbstractPush U M) (pushRef : PushRef) : AbstractPush U M :=
  if pushRef = [] then s
  else
    { s with
      connections := s.connections.delete pushRef
      userIdByPushRef := s.userIdByPushRef.delete pushRef }

/-- The listener of an event of a connection, if it is still attached. -/
def onClose (s : AbstractPush U M) (connection : Nat) (event : CloseEvent) :
    Option (AbstractPush U M) :=
  if (connection, event) ∈ s.listeners then
    s.added[connection]?.map fun pushRef =>
      ({ s with
          listeners := s.listeners.erase (connection, event)
          closed := s.closed ++ [connection] } : AbstractPush U M).remove pushRef
  else none

/-- Send a message to sessions, up to the first that has no connection. -/
def sendTo (pushMsg : M) : AbstractPush U M → List PushRef → AbstractPush U M
  | s, [] => s
  | s, pushRef :: pushRefs =>
    match s.lookup pushRef with
    | .connection connection =>
      sendTo pushMsg { s with sent := s.sent ++ [(connection, pushMsg)] } pushRefs
    | .builtin => { s with thrown := s.thrown + 1 }
    | .missing => { s with thrown := s.thrown + 1 }

/-- Send a message to all sessions. -/
def sendToAll (s : AbstractPush U M) (pushMsg : M) : AbstractPush U M :=
  sendTo pushMsg s s.connections.keys

/-- Send a message to one session, if it is registered. -/
def sendToOne (s : AbstractPush U M) (pushMsg : M) (pushRef : PushRef) : AbstractPush U M :=
  if s.lookup pushRef = .missing then s else sendTo pushMsg s [pushRef]

/-- Send a message to the sessions of users. -/
def sendToUsers [DecidableEq U] (s : AbstractPush U M) (pushMsg : M) (userIds : List U) :
    AbstractPush U M :=
  sendTo pushMsg s (s.connections.keys.filter fun pushRef =>
    (s.userIdByPushRef.get? pushRef).any (userIds.contains ·))

/-- Ask all connections to close. -/
def closeAllConnections (s : AbstractPush U M) : AbstractPush U M :=
  { s with closing := s.closing ++ s.connections.values }

/-- The state after an event. -/
def step [DecidableEq U] (backend : Backend) (s : AbstractPush U M) :
    PushEvent U M → Option (AbstractPush U M)
  | .add pushRef userId => some (s.add backend pushRef userId)
  | .close connection event => s.onClose connection event
  | .sendToAll pushMsg => some (s.sendToAll pushMsg)
  | .sendToOne pushMsg pushRef => some (s.sendToOne pushMsg pushRef)
  | .sendToUsers pushMsg userIds => some (s.sendToUsers pushMsg userIds)
  | .closeAllConnections => some s.closeAllConnections

/-- No client has connected. -/
def initial : AbstractPush U M := ⟨.empty, .empty, [], [], [], [], [], 0⟩

end AbstractPush

/-! ## Sessions across reconnects -/

namespace AbstractPush

variable {U M : Type} {s : AbstractPush U M} {backend : Backend} {pushRef : PushRef}

/-- The connection is the last that was added for the push ref. -/
def IsLatest (s : AbstractPush U M) (pushRef : PushRef) (connection : Nat) : Prop :=
  s.added[connection]? = some pushRef ∧
    ∀ later, s.added[later]? = some pushRef → later ≤ connection

/-- The sessions are those of the latest connections that have not closed, and no call threw. -/
structure Exact (s : AbstractPush U M) : Prop where
  registered : ∀ pushRef connection, s.connections.get? pushRef = some connection ↔
    s.IsLatest pushRef connection ∧ connection ∉ s.closed
  keys : s.connections.keys = s.userIdByPushRef.keys
  sends : s.thrown = 0

/-- The event of a connection arrives when no other connection is registered under its push ref, and
no client chooses an empty push ref or one that objects inherit. -/
def undisturbed (s : AbstractPush U M) : PushEvent U M → Prop
  | .add pushRef _ => pushRef ≠ [] ∧ pushRef ∉ objectPrototypeNames
  | .close connection _ =>
    ∀ pushRef ∈ s.added[connection]?, ∀ current ∈ s.connections.get? pushRef,
      current = connection
  | .sendToAll _ => True
  | .sendToOne _ pushRef => pushRef ∉ objectPrototypeNames
  | .sendToUsers _ _ => True
  | .closeAllConnections => True

instance (s : AbstractPush U M) : DecidablePred s.undisturbed
  | .add .. => inferInstanceAs (Decidable (_ ∧ _))
  | .close .. => inferInstanceAs (Decidable (∀ _ ∈ _, _))
  | .sendToAll _ => isTrue trivial
  | .sendToOne .. => inferInstanceAs (Decidable (_ ∉ _))
  | .sendToUsers .. => isTrue trivial
  | .closeAllConnections => isTrue trivial

/-- What every event keeps. -/
structure Invariant (s : AbstractPush U M) : Prop where
  exact : s.Exact
  closed_added : ∀ connection ∈ s.closed, connection < s.added.length
  nonempty : [] ∉ s.added

section Add

theorem lookup_eq (hname : pushRef ∉ objectPrototypeNames) :
    s.lookup pushRef = match s.connections.get? pushRef with
      | some connection => .connection connection
      | none => .missing := by
  rw [lookup]
  cases s.connections.get? pushRef with
  | some connection => rfl
  | none => exact if_neg hname

theorem add_eq (backend : Backend) (hname : pushRef ∉ objectPrototypeNames) (userId : U) :
    ∃ closing listeners, s.add backend pushRef userId =
      { s with
        connections := s.connections.set pushRef s.added.length
        userIdByPushRef := s.userIdByPushRef.set pushRef userId
        added := s.added ++ [pushRef]
        closing := closing
        listeners := listeners } := by
  have hlookup := lookup_eq (s := { s with added := s.added ++ [pushRef] }) hname
  simp only [add, register, hlookup]
  cases s.connections.get? pushRef with
  | some existing => exact ⟨_, _, rfl⟩
  | none => exact ⟨_, _, rfl⟩

theorem getElem?_added_concat {added : List PushRef} {other : PushRef} {connection : Nat} :
    (added ++ [pushRef])[connection]? = some other ↔
      added[connection]? = some other ∨ connection = added.length ∧ pushRef = other := by
  rw [List.getElem?_append]
  split
  · rename_i hlt
    exact ⟨.inl, fun h => h.elim id fun h => absurd h.1 (Nat.ne_of_lt hlt)⟩
  · rename_i hle
    rw [List.getElem?_eq_none (Nat.le_of_not_lt hle), List.getElem?_singleton]
    split
    · rename_i hzero
      have hindex : connection = added.length := by omega
      rw [Option.some.injEq]
      exact ⟨fun h => .inr ⟨hindex, h⟩, fun h => h.elim nofun And.right⟩
    · rename_i hpos
      refine ⟨nofun, fun h => h.elim nofun fun h => ?_⟩
      omega

theorem Invariant.add (h : Invariant s) (hempty : pushRef ≠ [])
    (hname : pushRef ∉ objectPrototypeNames) (userId : U) :
    Invariant (s.add backend pushRef userId) := by
  obtain ⟨closing, listeners, heq⟩ := add_eq (s := s) backend hname userId
  have hfresh : s.added.length ∉ s.closed := fun hmem =>
    Nat.lt_irrefl _ (h.closed_added _ hmem)
  have hlt : ∀ {connection : Nat} {other : PushRef}, s.added[connection]? = some other →
      connection < s.added.length := fun hget => (List.getElem?_eq_some_iff.mp hget).1
  rw [heq]
  refine ⟨⟨fun other connection => ?_, ?_, h.exact.sends⟩, fun connection hmem => ?_, ?_⟩
  · simp only [IsLatest, getElem?_added_concat, InsertionMap.get_set]
    by_cases hother : other = pushRef
    · subst hother
      rw [if_pos rfl, Option.some.injEq]
      -- the new connection is the last of its reference, whichever were there before
      constructor
      · rintro rfl
        refine ⟨⟨.inr ⟨rfl, rfl⟩, fun later hlater => ?_⟩, hfresh⟩
        obtain hlater | ⟨rfl, -⟩ := hlater
        · exact Nat.le_of_lt (hlt hlater)
        · exact Nat.le_refl _
      · rintro ⟨⟨hget | ⟨rfl, -⟩, hlast⟩, -⟩
        · exact absurd (hlast _ (.inr ⟨rfl, rfl⟩)) (Nat.not_le_of_lt (hlt hget))
        · rfl
    · rw [if_neg hother, h.exact.registered, IsLatest]
      have hsame : ∀ index, s.added[index]? = some other ∨
          index = s.added.length ∧ pushRef = other ↔ s.added[index]? = some other :=
        fun index => or_iff_left fun hnew => hother hnew.2.symm
      simp only [hsame]
  · rw [InsertionMap.keys_set, InsertionMap.keys_set, h.exact.keys]
  · rw [List.length_append]
    exact Nat.lt_add_right _ (h.closed_added connection hmem)
  · rw [List.mem_append, List.mem_singleton, not_or]
    exact ⟨h.nonempty, hempty.symm⟩

end Add

section Close

variable {connection : Nat} {event : CloseEvent}

theorem Invariant.onClose (h : Invariant s) (hpushRef : s.added[connection]? = some pushRef)
    (hcurrent : ∀ current, s.connections.get? pushRef = some current → current = connection)
    (listeners : List (Nat × CloseEvent)) :
    Invariant
      (({ s with listeners := listeners, closed := s.closed ++ [connection] } :
        AbstractPush U M).remove pushRef) := by
  have hne : pushRef ≠ [] := by
    rintro rfl
    exact h.nonempty (List.mem_of_getElem? hpushRef)
  rw [remove, if_neg hne]
  refine ⟨⟨fun other current => ?_, ?_, h.exact.sends⟩, fun closed hmem => ?_, h.nonempty⟩
  · simp only [InsertionMap.get_delete, List.mem_append, List.mem_singleton, not_or]
    by_cases hother : other = pushRef
    · subst hother
      rw [if_pos rfl]
      -- had the latest connection not closed, it would be the one that is registered
      refine ⟨nofun, fun ⟨hlatest, hopen, hneq⟩ => ?_⟩
      exact absurd (hcurrent current ((h.exact.registered other current).mpr ⟨hlatest, hopen⟩))
        hneq
    · rw [if_neg hother, h.exact.registered]
      refine and_congr_right fun hlatest => (and_iff_left_of_imp fun _ heq => ?_).symm
      subst heq
      exact hother (Option.some.inj (hlatest.1.symm.trans hpushRef))
  · rw [InsertionMap.keys_delete, InsertionMap.keys_delete, h.exact.keys]
  · obtain hmem | hmem := List.mem_append.mp hmem
    · exact h.closed_added closed hmem
    · cases List.mem_singleton.mp hmem
      exact (List.getElem?_eq_some_iff.mp hpushRef).1

theorem Exact.onClose_breaks {s' : AbstractPush U M} (h : s.Exact)
    (hstep : s.onClose connection event = some s') (hpushRef : s.added[connection]? = some pushRef)
    (hne : pushRef ≠ []) {current : Nat} (hcurrent : s.connections.get? pushRef = some current)
    (hreplaced : current ≠ connection) : ¬ s'.Exact := by
  intro hexact
  rw [AbstractPush.onClose] at hstep
  split at hstep
  · obtain ⟨ref, href, rfl⟩ := Option.map_eq_some_iff.mp hstep
    cases hpushRef.symm.trans href
    rw [remove, if_neg hne] at hexact
    obtain ⟨hlatest, hopen⟩ := (h.registered pushRef current).mp hcurrent
    have hget := (hexact.registered pushRef current).mpr
      ⟨hlatest, by
        rw [List.mem_append, List.mem_singleton, not_or]
        exact ⟨hopen, hreplaced⟩⟩
    rw [InsertionMap.get_delete, if_pos rfl] at hget
    cases hget
  · cases hstep

end Close

section Send

theorem sendTo_eq (pushMsg : M) {pushRefs : List PushRef}
    (hmem : ∀ pushRef ∈ pushRefs, pushRef ∈ s.connections.keys) :
    ∃ sent, sendTo pushMsg s pushRefs = { s with sent := sent } := by
  induction pushRefs generalizing s with
  | nil => exact ⟨s.sent, rfl⟩
  | cons pushRef pushRefs ih =>
    obtain ⟨connection, hget⟩ := InsertionMap.mem_keys_iff.mp (hmem pushRef List.mem_cons_self)
    have hlookup : s.lookup pushRef = .connection connection := by
      rw [lookup, hget]
    rw [sendTo, hlookup]
    obtain ⟨sent, hsent⟩ := ih (s := { s with sent := s.sent ++ [(connection, pushMsg)] })
      fun other hother => hmem other (List.mem_cons_of_mem _ hother)
    exact ⟨sent, hsent⟩

theorem sendToOne_eq (pushMsg : M) (hname : pushRef ∉ objectPrototypeNames) :
    ∃ sent, s.sendToOne pushMsg pushRef = { s with sent := sent } := by
  rw [sendToOne]
  split
  · exact ⟨s.sent, rfl⟩
  · rename_i hfound
    rw [lookup_eq hname] at hfound
    refine sendTo_eq pushMsg fun other hother => ?_
    cases List.mem_singleton.mp hother
    cases hget : s.connections.get? pushRef with
    | some connection => exact InsertionMap.mem_keys_iff.mpr ⟨connection, hget⟩
    | none =>
      rw [hget] at hfound
      exact absurd rfl hfound

theorem Invariant.sent (h : Invariant s) (sent : List (Nat × M)) :
    Invariant { s with sent := sent } :=
  ⟨⟨h.exact.registered, h.exact.keys, h.exact.sends⟩, h.closed_added, h.nonempty⟩

end Send

section Runs

theorem initial_invariant : Invariant (initial : AbstractPush U M) where
  exact := ⟨fun _ _ => ⟨nofun, fun h => by cases h.1.1⟩, rfl, rfl⟩
  closed_added _ hmem := absurd hmem List.not_mem_nil
  nonempty := List.not_mem_nil

variable [DecidableEq U] {s' : AbstractPush U M} {event : PushEvent U M}

theorem Invariant.step (h : Invariant s) (hallowed : s.undisturbed event)
    (hstep : step backend s event = some s') : Invariant s' := by
  cases event with
  | add pushRef userId =>
    cases hstep
    exact h.add hallowed.1 hallowed.2 userId
  | close connection closeEvent =>
    rw [AbstractPush.step, AbstractPush.onClose] at hstep
    split at hstep
    · obtain ⟨pushRef, hpushRef, rfl⟩ := Option.map_eq_some_iff.mp hstep
      exact h.onClose hpushRef (hallowed pushRef hpushRef) _
    · cases hstep
  | sendToAll pushMsg =>
    cases hstep
    obtain ⟨sent, heq⟩ := sendTo_eq (s := s) pushMsg fun _ hmem => hmem
    rw [sendToAll, heq]
    exact h.sent sent
  | sendToOne pushMsg pushRef =>
    cases hstep
    obtain ⟨sent, heq⟩ := sendToOne_eq (s := s) pushMsg hallowed
    rw [heq]
    exact h.sent sent
  | sendToUsers pushMsg userIds =>
    cases hstep
    obtain ⟨sent, heq⟩ := sendTo_eq (s := s) pushMsg fun _ hmem => List.mem_of_mem_filter hmem
    rw [sendToUsers, heq]
    exact h.sent sent
  | closeAllConnections =>
    cases hstep
    exact ⟨⟨h.exact.registered, h.exact.keys, h.exact.sends⟩, h.closed_added, h.nonempty⟩

/-- In every run in which no event of a replaced connection meets another connection, the sessions
are exact. -/
theorem sessions_exact (h : Reachable (step backend) undisturbed initial s) : s.Exact :=
  (h.keeps Invariant initial_invariant fun _ _ _ hs hallowed hstep =>
    hs.step hallowed hstep).exact

end Runs

/-- The push ref of the samples. -/
def sampleRef : PushRef := "push-ref".toList

/-- A client whose replaced connection closes only after the new one keeps no session, and connects
again. -/
theorem late_close_exact : ∃ s : AbstractPush Nat Nat,
    Reachable (step .sse) undisturbed initial s ∧ s.Exact ∧
      s.connections.entries = [(sampleRef, 2)] ∧ s.sent = [(1, 7), (2, 8)] := by
  obtain ⟨s, hs, hlists⟩ : ∃ s : AbstractPush Nat Nat,
      runAllowed (step .sse) undisturbed initial
        [.add sampleRef 0, .add sampleRef 0, .sendToAll 7, .close 1 .closed, .close 0 .finished,
          .close 0 .closed, .close 1 .finished, .add sampleRef 0, .sendToUsers 8 [0]] = some s ∧
      (s.connections.entries, s.sent) = ([(sampleRef, 2)], [(1, 7), (2, 8)]) := by
    refine Option.map_eq_some_iff.mp ?_
    decide +kernel
  simp only [Prod.mk.injEq] at hlists
  have hreach := reachable_of_runAllowed .start hs
  exact ⟨s, hreach, sessions_exact hreach, hlists⟩

/-- A client connects again, and then its first connection closes: it has no session any more. -/
theorem replaced_connection_removes_session :
    ¬ ∀ s : AbstractPush Nat Nat, Reachable (step .websocket) (fun _ _ => True) initial s →
      s.Exact := by
  intro h
  obtain ⟨s, hs, hlists⟩ : ∃ s : AbstractPush Nat Nat,
      run (step .websocket) initial
        [.add sampleRef 0, .add sampleRef 0, .close 0 .closed] = some s ∧
      (s.connections.get? sampleRef, s.added, s.closed) =
        (none, [sampleRef, sampleRef], [0]) := by
    refine Option.map_eq_some_iff.mp ?_
    decide +kernel
  simp only [Prod.mk.injEq] at hlists
  obtain ⟨hmissing, hadded, hclosed⟩ := hlists
  have hget := ((h s (reachable_of_run hs)).registered sampleRef 1).mpr
    ⟨⟨by rw [hadded]; rfl, fun later hlater => by
      obtain ⟨hlt, -⟩ := List.getElem?_eq_some_iff.mp hlater
      rw [hadded] at hlt
      exact Nat.le_of_lt_succ hlt⟩, by rw [hclosed]; decide⟩
  rw [hmissing] at hget
  cases hget

end AbstractPush

end N8n.Push
