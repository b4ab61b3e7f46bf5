import Mathlib.Data.List.Permutation
import N8n.Collections.InsertionMap
import N8n.Collections.ObjectProperties
import N8n.Transition.Runs
import N8n.Transition.SerialOrder

/-!
# Atomic hash operations

With the in-memory backend a hash is written back after it was read, so that what was written in
between is lost. While no other field changes in between, the calls behave as hash commands of Redis
that are executed in some order.
-/

namespace N8n.Caching

open Collections Transition

/-! ## Hashes in the cache

The hash methods of `CacheService` with the in-memory backend, where a hash is an object under a
key, and the hash commands of Redis that they stand for. A method suspends while the cache is
created and at the store; the store itself works when it is called, and returns copies.
-/

section

/-- A key of the cache, or a field of a hash. -/
abbrev Name := List Char

/-- A hash, as an object in the store. -/
abbrev Hash (V : Type) := InsertionMap Name V

/-- The in-memory store. -/
abbrev MemoryStore (V : Type) := InsertionMap Name (Hash V)

/-- The fields and values of the hashes under all keys. -/
abbrev HashTable (V : Type) := Name → Name → Option V

/-- A call of one of the hash methods, without a refresh function. A value that is null or undefined
is `none`. -/
inductive HashCall (V : Type) where
  | setHash (key : Name) (hash : InsertionMap Name (Option V))
  | getHash (key : Name)
  | getHashValue (cacheKey hashKey : Name)
  | deleteFromHash (cacheKey hashKey : Name)
  deriving DecidableEq, Repr

/-- What a call resolves to. -/
inductive Answer (V : Type) where
  | done
  | hash (hashObject : Option (Hash V))
  | value (hashValue : Option V)
  deriving DecidableEq, Repr

/-- Where a call is suspended. -/
inductive Point (V : Type) where
  /-- At `this.init()`. -/
  | initializing
  /-- `setHash` awaits the object under the key. -/
  | settingHash (key : Name) (fields : List (Name × V)) (hashObject : Option (Hash V))
  /-- `deleteFromHash` awaits the object under the key. -/
  | deletingFromHash (cacheKey hashKey : Name) (hashObject : Option (Hash V))
  /-- The object was given to the store. -/
  | storing
  /-- `getHash` and `getHashValue` await the store. -/
  | answering (answer : Answer V)
  deriving DecidableEq, Repr

/-- How a segment of a call ends. -/
inductive Progress (V : Type) where
  | await (point : Point V)
  | return (answer : Answer V)
  deriving DecidableEq, Repr

variable {V : Type}

/-- The fields of a hash, unless one of its values is null or undefined. -/
def definedFields (hash : InsertionMap Name (Option V)) : Option (List (Name × V)) :=
  hash.entries.mapM fun entry => entry.2.map fun value => (entry.1, value)

/-- The accessor that objects inherit: an assignment to it sets no field. -/
def protoName : Name := "__proto__".toList

/-- `Object.assign`. -/
def assign (hashObject : Hash V) (fields : List (Name × V)) : Hash V :=
  fields.foldl (fun hashObject field =>
    if field.1 = protoName then hashObject else hashObject.set field.1 field.2) hashObject

/-- `CacheService.get`, without a refresh function and a fallback. -/
def get (store : MemoryStore V) (key : Name) : Option (Hash V) :=
  if key = [] then none else store.get? key

/-- `hashObject?.[hashKey]`, where objects inherit built-in properties. -/
def fieldValue (builtin : Name → V) (hashObject : Option (Hash V)) (hashKey : Name) : Option V :=
  hashObject.bind fun hashObject =>
    (hashObject.get? hashKey).or
      (if hashKey ∈ objectPrototypeNames then some (builtin hashKey) else none)

/-- A call up to the store. -/
def begin (builtin : Name → V) (store : MemoryStore V) : HashCall V → Progress V
  | .setHash key hash =>
    if key = [] then .return .done
    else match definedFields hash with
      | none => .return .done
      | some fields => .await (.settingHash key fields (get store key))
  | .getHash key => .await (.answering (.hash (get store key)))
  | .getHashValue cacheKey hashKey =>
    .await (.answering (.value (fieldValue builtin (store.get? cacheKey) hashKey)))
  | .deleteFromHash cacheKey hashKey =>
    if cacheKey = [] ∨ hashKey = [] then .return .done
    else .await (.deletingFromHash cacheKey hashKey (get store cacheKey))

/-- A call goes on: where it gets, and the cache after that. -/
def goOn (builtin : Name → V) (cache : Option (MemoryStore V)) (call : HashCall V) :
    Point V → Progress V × Option (MemoryStore V)
  | .initializing => (begin builtin .empty call, some .empty)
  | .settingHash key fields hashObject =>
    (.await .storing, cache.map (·.set key (assign (hashObject.getD .empty) fields)))
  | .deletingFromHash cacheKey hashKey hashObject =>
    match hashObject with
    | none => (.return .done, cache)
    | some hashObject =>
      (.await .storing, cache.map (·.set cacheKey (hashObject.delete hashKey)))
  | .storing => (.return .done, cache)
  | .answering answer => (.return answer, cache)

/-- The cache, which the first calls create, the suspended calls, and what the others resolved
to. -/
structure CacheService (V : Type) where
  cache : Option (MemoryStore V)
  calls : List (HashCall V × Point V)
  returned : List (HashCall V × Answer V)

inductive CacheEvent (V : Type) where
  /-- A method is called. -/
  | call (call : HashCall V)
  /-- The call at an index of the suspended ones goes on. -/
  | resume (index : Nat)
  deriving DecidableEq, Repr

/-- The fields and values that a cache holds. -/
def table (cache : Option (MemoryStore V)) : HashTable V :=
  fun key field => (cache.bind (·.get? key)).bind (·.get? field)

namespace CacheService

/-- The segment of a call has ended. -/
def progress (s : CacheService V) (call : HashCall V) : Progress V → CacheService V
  | .await point => { s with calls := s.calls ++ [(call, point)] }
  | .return answer => { s with returned := s.returned ++ [(call, answer)] }

/-- The state after an event. -/
def step (builtin : Name → V) (s : CacheService V) : CacheEvent V → Option (CacheService V)
  | .call call =>
    match s.cache with
    | none => some (s.progress call (.await .initializing))
    | some store => some (s.progress call (begin builtin store call))
  | .resume index =>
    s.calls[index]?.map fun suspended =>
      let gone := goOn builtin s.cache suspended.1 suspended.2
      ({ s with cache := gone.2, calls := s.calls.eraseIdx index } : CacheService V).progress
        suspended.1 gone.1

/-- No method was called yet. -/
def initial : CacheService V := ⟨none, [], []⟩

end CacheService

section Commands

/-- The reply to a hash command. -/
inductive Reply (V : Type) where
  | ok
  | fields (fields : Name → Option V)
  | value (hashValue : Option V)
  | error

/-- The hash command `HSET`. -/
def hset (table : HashTable V) (key : Name) (fields : List (Name × V)) : HashTable V :=
  fields.foldl (fun table field =>
    fun key' hashKey =>
      if key' = key ∧ hashKey = field.1 then some field.2 else table key' hashKey) table

/-- The hash command `HDEL`. -/
def hdel (table : HashTable V) (key field : Name) : HashTable V :=
  fun key' field' => if key' = key ∧ field' = field then none else table key' field'

/-- A call with the Redis backend, whose command is executed at once: `HSET` (which needs a field),
`HGETALL`, `HGET` or `HDEL`. -/
def execute : HashCall V → HashTable V → Reply V × HashTable V
  | .setHash key hash, table =>
    if key = [] then (.ok, table)
    else match definedFields hash with
      | none => (.ok, table)
      | some [] => (.error, table)
      | some fields => (.ok, hset table key fields)
  | .getHash key, table => (.fields (table key), table)
  | .getHashValue cacheKey hashKey, table => (.value (table cacheKey hashKey), table)
  | .deleteFromHash cacheKey hashKey, table =>
    if cacheKey = [] ∨ hashKey = [] then (.ok, table) else (.ok, hdel table cacheKey hashKey)

/-- The reply that a call resolves to; a missing hash has no fields, as with `HGETALL`. -/
def Answer.reply : Answer V → Reply V
  | .done => .ok
  | .hash hashObject => .fields fun field => hashObject.bind (·.get? field)
  | .value hashValue => .value hashValue

end Commands

end

/-! ## Atomic hash operations -/

variable {V : Type} {builtin : Name → V}

/-- Two hashes have the same fields and values, up to some fields. -/
def AgreeExcept (written : List Name) (read current : Option (Hash V)) : Prop :=
  ∀ field, field ∉ written → read.bind (·.get? field) = current.bind (·.get? field)

/-- The fields of a hash, none when it is missing. -/
def fieldNames (hashObject : Option (Hash V)) : List Name :=
  (hashObject.map InsertionMap.keys).getD []

theorem bind_get_eq_none {hashObject : Option (Hash V)} {field : Name}
    (h : field ∉ fieldNames hashObject) : hashObject.bind (·.get? field) = none := by
  cases hashObject with
  | none => rfl
  | some hashObject =>
    cases hget : hashObject.get? field with
    | none => exact hget
    | some value => exact absurd (InsertionMap.mem_keys_iff.mpr ⟨value, hget⟩) h

theorem agreeExcept_iff {written : List Name} {read current : Option (Hash V)} :
    (∀ field ∈ fieldNames read ++ fieldNames current, field ∉ written →
      read.bind (·.get? field) = current.bind (·.get? field)) ↔
      AgreeExcept written read current := by
  constructor
  · intro h field hfield
    by_cases hmem : field ∈ fieldNames read ++ fieldNames current
    · exact h field hmem hfield
    · rw [List.mem_append, not_or] at hmem
      rw [bind_get_eq_none hmem.1, bind_get_eq_none hmem.2]
  · exact fun h field _ => h field

instance [DecidableEq V] (written : List Name) (read current : Option (Hash V)) :
    Decidable (AgreeExcept written read current) :=
  decidable_of_iff _ agreeExcept_iff

/-- A call avoids what objects inherit, and sets a field if it sets a hash. -/
def HashCall.Plain (store : MemoryStore V) : HashCall V → Prop
  | .setHash key hash =>
    key = [] ∨ definedFields hash = none ∨
      (hash.entries ≠ [] ∧ protoName ∉ hash.entries.map Prod.fst)
  | .getHash _ => True
  | .getHashValue cacheKey hashKey =>
    hashKey ∉ objectPrototypeNames ∨
      ((store.get? cacheKey).map fun hashObject => hashObject.has hashKey) ≠ some false
  | .deleteFromHash _ _ => True

instance [DecidableEq V] (store : MemoryStore V) : DecidablePred (HashCall.Plain store)
  | .setHash .. => inferInstanceAs (Decidable (_ ∨ _ ∨ _))
  | .getHash _ => isTrue trivial
  | .getHashValue .. => inferInstanceAs (Decidable (_ ∨ _))
  | .deleteFromHash .. => isTrue trivial

namespace CacheService

/-- A suspended call may go on: the cache that a new one replaces holds no fields, and a hash is
written back only when its other fields are as they were read. -/
def mayGoOn (cache : Option (MemoryStore V)) (call : HashCall V) : Point V → Prop
  | .initializing =>
    call.Plain .empty ∧ ∀ store ∈ cache, ∀ hash ∈ store.values, hash.entries = []
  | .settingHash key fields hashObject =>
    AgreeExcept (fields.map Prod.fst) hashObject (cache.bind (·.get? key))
  | .deletingFromHash cacheKey hashKey hashObject =>
    hashObject = none ∨ AgreeExcept [hashKey] hashObject (cache.bind (·.get? cacheKey))
  | .storing => True
  | .answering _ => True

instance [DecidableEq V] (cache : Option (MemoryStore V)) (call : HashCall V) :
    DecidablePred (mayGoOn cache call)
  | .initializing => inferInstanceAs (Decidable (_ ∧ _))
  | .settingHash .. => inferInstanceAs (Decidable (AgreeExcept ..))
  | .deletingFromHash .. => inferInstanceAs (Decidable (_ ∨ _))
  | .storing => isTrue trivial
  | .answering _ => isTrue trivial

/-- No update is lost when the event happens. -/
def undisturbed (s : CacheService V) : CacheEvent V → Prop
  | .call call => ∀ store ∈ s.cache, call.Plain store
  | .resume index => ∀ suspended ∈ s.calls[index]?, mayGoOn s.cache suspended.1 suspended.2

instance [DecidableEq V] (s : CacheService V) : DecidablePred s.undisturbed
  | .call _ => inferInstanceAs (Decidable (∀ _ ∈ _, _))
  | .resume _ => inferInstanceAs (Decidable (∀ _ ∈ _, _))

/-- The reply of a suspended call that has taken effect. -/
def effect : Point V → Option (Reply V)
  | .initializing => none
  | .settingHash .. => none
  | .deletingFromHash _ _ none => some .ok
  | .deletingFromHash _ _ (some _) => none
  | .storing => some .ok
  | .answering answer => some answer.reply

/-- The calls that have taken effect, with their replies. -/
def finished (s : CacheService V) : List (HashCall V × Reply V) :=
  s.returned.map (fun call => (call.1, call.2.reply)) ++
    s.calls.filterMap fun call => (effect call.2).map fun reply => (call.1, reply)

/-- The calls are hash commands that are executed in some order, and the store holds what these
leave. -/
def Atomic (s : CacheService V) : Prop :=
  Serial execute (fun _ _ => none) s.finished (table s.cache)

end CacheService

section Fields

variable {fields : List (Name × V)}

theorem get_assign {hashObject : Hash V} {key : Name} {current : HashTable V}
    (hproto : protoName ∉ fields.map Prod.fst)
    (hagree : ∀ field, field ∉ fields.map Prod.fst → hashObject.get? field = current key field)
    (field : Name) : (assign hashObject fields).get? field = hset current key fields key field := by
  induction fields generalizing hashObject current with
  | nil => exact hagree field List.not_mem_nil
  | cons first fields ih =>
    rw [List.map_cons, List.mem_cons, not_or] at hproto
    rw [assign, hset, List.foldl_cons, List.foldl_cons, if_neg (Ne.symm hproto.1)]
    refine ih hproto.2 fun other hother => ?_
    rw [InsertionMap.get_set]
    by_cases heq : other = first.1
    · rw [if_pos heq, if_pos ⟨rfl, heq⟩]
    · rw [if_neg heq, if_neg fun h => heq h.2]
      refine hagree other ?_
      rw [List.map_cons, List.mem_cons, not_or]
      exact ⟨heq, hother⟩

theorem hset_other {current : HashTable V} {key key' : Name} (hkey : key' ≠ key) :
    hset current key fields key' = current key' := by
  induction fields generalizing current with
  | nil => rfl
  | cons first fields ih =>
    rw [hset, List.foldl_cons]
    refine ih.trans ?_
    funext field
    rw [if_neg fun h => hkey h.1]

theorem map_fst_definedFields {hash : InsertionMap Name (Option V)}
    (h : definedFields hash = some fields) : fields.map Prod.fst = hash.entries.map Prod.fst := by
  rw [definedFields] at h
  generalize hash.entries = entries at h ⊢
  induction entries generalizing fields with
  | nil =>
    cases h
    rfl
  | cons entry entries ih =>
    rw [List.mapM_cons] at h
    obtain ⟨field, hfield, h⟩ := Option.bind_eq_some_iff.mp h
    obtain ⟨rest, hrest, h⟩ := Option.bind_eq_some_iff.mp h
    obtain ⟨value, -, rfl⟩ := Option.map_eq_some_iff.mp hfield
    cases h
    rw [List.map_cons, List.map_cons, ih hrest]

theorem table_set (store : MemoryStore V) (key key' : Name) (hashObject : Hash V) :
    table (some (store.set key hashObject)) key' =
      if key' = key then hashObject.get? else table (some store) key' := by
  funext field
  rw [table, Option.bind_some, InsertionMap.get_set]
  split
  · rfl
  · rfl

end Fields

namespace CacheService

section Segments

/-- The reply of a call at the end of a segment, if it has taken effect. -/
def progressEffect : Progress V → Option (Reply V)
  | .await point => effect point
  | .return answer => some answer.reply

/-- A segment in which a call takes effect at once, or in which nothing happens. -/
def Segment (call : HashCall V) (before after : HashTable V)
    (effectBefore effectAfter : Option (Reply V)) : Prop :=
  effectAfter = effectBefore ∧ after = before ∨
    effectBefore = none ∧ ∃ reply, effectAfter = some reply ∧ execute call before = (reply, after)

/-- What a suspended call has checked. -/
def WellFormed (cache : Option (MemoryStore V)) (call : HashCall V) : Point V → Prop
  | .initializing => True
  | .settingHash key fields _ =>
    cache ≠ none ∧ key ≠ [] ∧ protoName ∉ fields.map Prod.fst ∧
      ∀ table, execute call table = (.ok, hset table key fields)
  | .deletingFromHash cacheKey hashKey _ =>
    cache ≠ none ∧ cacheKey ≠ [] ∧
      ∀ table, execute call table = (.ok, hdel table cacheKey hashKey)
  | .storing => True
  | .answering _ => True

variable {call : HashCall V} {point : Point V} {cache cache' : Option (MemoryStore V)}

theorem WellFormed.of_isSome (h : WellFormed cache call point)
    (hsome : cache ≠ none → cache' ≠ none) : WellFormed cache' call point := by
  cases point with
  | initializing => trivial
  | settingHash key fields hashObject => exact ⟨hsome h.1, h.2⟩
  | deletingFromHash cacheKey hashKey hashObject => exact ⟨hsome h.1, h.2⟩
  | storing => trivial
  | answering answer => trivial

theorem begin_segment (builtin : Name → V) {store : MemoryStore V}
    (hplain : call.Plain store) (hempty : ∀ field, table (some store) [] field = none) :
    Segment call (table (some store)) (table (some store)) none
        (progressEffect (begin builtin store call)) ∧
      ∀ point, begin builtin store call = .await point → WellFormed (some store) call point := by
  have hget : ∀ key,
      (fun field => (get store key).bind (·.get? field)) = table (some store) key := by
    intro key
    funext field
    rw [get]
    split
    · rename_i hkey
      rw [hkey, hempty]
      rfl
    · rfl
  cases call with
  | setHash key hash =>
    rw [begin]
    by_cases hkey : key = []
    · rw [if_pos hkey]
      refine ⟨.inr ⟨rfl, .ok, rfl, ?_⟩, fun _ h => by cases h⟩
      rw [execute, if_pos hkey]
    · rw [if_neg hkey]
      cases hfields : definedFields hash with
      | none =>
        refine ⟨.inr ⟨rfl, .ok, rfl, ?_⟩, fun _ h => by cases h⟩
        rw [execute, if_neg hkey, hfields]
      | some fields =>
        refine ⟨.inl ⟨rfl, rfl⟩, fun point hpoint => ?_⟩
        cases hpoint
        obtain h | h | ⟨hsome, hproto⟩ := hplain
        · exact absurd h hkey
        · rw [hfields] at h
          cases h
        · have hnames := map_fst_definedFields hfields
          refine ⟨Option.some_ne_none _, hkey, by rwa [hnames], fun table => ?_⟩
          rw [execute, if_neg hkey, hfields]
          cases fields with
          | nil => exact absurd (List.map_eq_nil_iff.mp hnames.symm) hsome
          | cons => rfl
  | getHash key =>
    refine ⟨.inr ⟨rfl, _, rfl, ?_⟩, fun point hpoint => ?_⟩
    · rw [execute, Answer.reply, hget]
    · cases hpoint
      trivial
  | getHashValue cacheKey hashKey =>
    refine ⟨.inr ⟨rfl, _, rfl, ?_⟩, fun point hpoint => ?_⟩
    · rw [execute, Answer.reply, table, Option.bind_some, fieldValue]
      cases hhash : store.get? cacheKey with
      | none => rfl
      | some hashObject =>
        rw [Option.bind_some, Option.bind_some]
        cases hfield : hashObject.get? hashKey with
        | some value => rfl
        | none =>
          obtain hname | hhas := hplain
          · rw [if_neg hname, Option.none_or]
          · rw [hhash, Option.map_some, InsertionMap.has, hfield] at hhas
            exact absurd rfl hhas
    · cases hpoint
      trivial
  | deleteFromHash cacheKey hashKey =>
    rw [begin]
    by_cases hguard : cacheKey = [] ∨ hashKey = []
    · rw [if_pos hguard]
      refine ⟨.inr ⟨rfl, .ok, rfl, ?_⟩, fun _ h => by cases h⟩
      rw [execute, if_pos hguard]
    · rw [if_neg hguard]
      have hexecute : ∀ table, execute (.deleteFromHash cacheKey hashKey) table =
          (.ok, hdel (V := V) table cacheKey hashKey) := fun table => by
        rw [execute, if_neg hguard]
      refine ⟨?_, fun point hpoint => ?_⟩
      · cases hhash : get store cacheKey with
        | some hashObject => exact .inl ⟨rfl, rfl⟩
        | none =>
          -- without a hash there is no field to delete
          refine .inr ⟨rfl, .ok, rfl, ?_⟩
          refine (hexecute _).trans (congrArg (Prod.mk Reply.ok) ?_)
          funext key field
          rw [hdel]
          split
          · rename_i hboth
            rw [hboth.1, ← hget, hhash]
            rfl
          · rfl
      · cases hpoint
        exact ⟨Option.some_ne_none _, fun h => hguard (.inl h), hexecute⟩

theorem table_eq_empty (h : ∀ store ∈ cache, ∀ hash ∈ store.values, hash.entries = []) :
    table cache = table (some (.empty : MemoryStore V)) := by
  funext key field
  cases cache with
  | none => rfl
  | some store =>
    rw [table, Option.bind_some]
    cases hhash : store.get? key with
    | none => rfl
    | some hash =>
      have hentries := h store rfl hash (InsertionMap.mem_values_iff.mpr ⟨key, hhash⟩)
      rw [Option.bind_some, InsertionMap.get?, hentries]
      rfl

/-- Every segment of a suspended call: a hash is written back in the segment in which the call takes
effect, and its other fields are as they were read. -/
theorem goOn_segment (builtin : Name → V) (hpoint : WellFormed cache call point)
    (hmay : mayGoOn cache call point) (hempty : ∀ field, table cache [] field = none) :
    Segment call (table cache) (table (goOn builtin cache call point).2) (effect point)
        (progressEffect (goOn builtin cache call point).1) ∧
      (cache ≠ none → (goOn builtin cache call point).2 ≠ none) ∧
      (∀ next, (goOn builtin cache call point).1 = .await next →
        WellFormed (goOn builtin cache call point).2 call next) ∧
      ∀ field, table (goOn builtin cache call point).2 [] field = none := by
  cases point with
  | initializing =>
    obtain ⟨hplain, hreplaced⟩ := hmay
    obtain ⟨hsegment, hnext⟩ :=
      begin_segment builtin hplain fun field => rfl
    rw [table_eq_empty hreplaced]
    exact ⟨hsegment, fun _ => Option.some_ne_none _, hnext, fun _ => rfl⟩
  | settingHash key fields hashObject =>
    obtain ⟨hcache, hkey, hproto, hexecute⟩ := hpoint
    obtain ⟨store, rfl⟩ := Option.ne_none_iff_exists'.mp hcache
    -- the fields that are not set are still those that were read
    have htable : table (some (store.set key (assign (hashObject.getD .empty) fields))) =
        hset (table (some store)) key fields := by
      funext key'
      rw [table_set]
      split
      · rename_i heq
        funext field
        rw [heq]
        refine get_assign hproto (fun field hfield => ?_) field
        refine Eq.trans ?_ (hmay field hfield)
        cases hashObject with
        | none => rfl
        | some hashObject => rfl
      · rename_i hne
        rw [hset_other hne]
    refine ⟨.inr ⟨rfl, .ok, rfl, ?_⟩, fun _ => Option.some_ne_none _, fun next hnext => ?_,
      fun field => ?_⟩
    · rw [hexecute, goOn, Option.map_some, htable]
    · cases hnext
      trivial
    · rw [goOn, Option.map_some, htable, hset_other (Ne.symm hkey), hempty]
  | deletingFromHash cacheKey hashKey hashObject =>
    obtain ⟨hcache, hkey, hexecute⟩ := hpoint
    obtain ⟨store, rfl⟩ := Option.ne_none_iff_exists'.mp hcache
    cases hashObject with
    | none =>
      exact ⟨.inl ⟨rfl, rfl⟩, id, fun next hnext => (by cases hnext), hempty⟩
    | some hashObject =>
      obtain hmay | hmay := hmay
      · cases hmay
      · have htable : table (some (store.set cacheKey (hashObject.delete hashKey))) =
            hdel (table (some store)) cacheKey hashKey := by
          funext key field
          rw [table_set, hdel]
          by_cases heq : key = cacheKey
          · rw [if_pos heq, InsertionMap.get_delete]
            by_cases hfield : field = hashKey
            · rw [if_pos hfield, if_pos ⟨heq, hfield⟩]
            · rw [if_neg hfield, if_neg fun h => hfield h.2, heq]
              exact hmay field fun hmem => hfield (List.mem_singleton.mp hmem)
          · rw [if_neg heq, if_neg fun h => heq h.1]
        refine ⟨.inr ⟨rfl, .ok, rfl, ?_⟩, fun _ => Option.some_ne_none _, fun next hnext => ?_,
          fun field => ?_⟩
        · rw [hexecute, goOn, Option.map_some, htable]
        · cases hnext
          trivial
        · rw [goOn, Option.map_some, htable, hdel, if_neg fun h => hkey h.1.symm, hempty]
  | storing =>
    exact ⟨.inl ⟨rfl, rfl⟩, id, fun next hnext => (by cases hnext), hempty⟩
  | answering answer =>
    exact ⟨.inl ⟨rfl, rfl⟩, id, fun next hnext => (by cases hnext), hempty⟩

end Segments

section Runs

variable {s s' : CacheService V} {event : CacheEvent V} {call : HashCall V}

/-- The calls of a list that may have one. -/
def withReply (call : HashCall V) (reply : Option (Reply V)) : List (HashCall V × Reply V) :=
  (reply.map fun reply => (call, reply)).toList

theorem serial_of_segment {rest : List (HashCall V × Reply V)} {before after : HashTable V}
    {effectBefore effectAfter : Option (Reply V)}
    (h : Serial execute (fun _ _ => none) (withReply call effectBefore ++ rest) before)
    (hsegment : Segment call before after effectBefore effectAfter) :
    Serial execute (fun _ _ => none) (withReply call effectAfter ++ rest) after := by
  obtain ⟨rfl, rfl⟩ | ⟨rfl, reply, rfl, hexecute⟩ := hsegment
  · exact h
  · exact h.takeEffect hexecute

theorem finished_progress (s : CacheService V) (call : HashCall V) (progress : Progress V) :
    (s.progress call progress).finished.Perm
      (withReply call (progressEffect progress) ++ s.finished) := by
  cases progress with
  | await point =>
    rw [CacheService.progress, finished, List.filterMap_append, ← List.append_assoc]
    refine List.perm_append_comm.trans (.of_eq ?_)
    simp only [List.filterMap_cons, List.filterMap_nil, progressEffect, withReply, finished]
    cases effect point with
    | none => rfl
    | some reply => rfl
  | «return» answer =>
    rw [CacheService.progress, finished, List.map_append, List.append_assoc]
    exact List.perm_append_comm_assoc _ _ _

theorem finished_eraseIdx {suspended : HashCall V × Point V} {index : Nat}
    (hget : s.calls[index]? = some suspended) (cache : Option (MemoryStore V)) :
    s.finished.Perm (withReply suspended.1 (effect suspended.2) ++
      ({ s with cache := cache, calls := s.calls.eraseIdx index } : CacheService V).finished) := by
  obtain ⟨hlt, rfl⟩ := List.getElem?_eq_some_iff.mp hget
  have hperm := (List.getElem_cons_eraseIdx_perm hlt).symm.filterMap
    fun call : HashCall V × Point V => (effect call.2).map fun reply => (call.1, reply)
  refine (hperm.append_left _).trans ?_
  rw [finished, List.filterMap_cons]
  cases heffect : effect s.calls[index].2 with
  | none => exact .refl _
  | some reply => exact List.perm_middle

/-- What every event keeps. -/
structure Invariant (s : CacheService V) : Prop where
  atomic : s.Atomic
  suspended : ∀ call ∈ s.calls, WellFormed s.cache call.1 call.2
  no_key : ∀ field, table s.cache [] field = none

theorem initial_invariant : Invariant (initial : CacheService V) where
  atomic := .nil _
  suspended _ hmem := absurd hmem List.not_mem_nil
  no_key _ := rfl

theorem Invariant.progress {progress : Progress V} {rest : CacheService V}
    (hatomic : Serial execute (fun _ _ => none)
      (withReply call (progressEffect progress) ++ rest.finished) (table rest.cache))
    (hsuspended : ∀ call ∈ rest.calls, WellFormed rest.cache call.1 call.2)
    (hnext : ∀ point, progress = .await point → WellFormed rest.cache call point)
    (hempty : ∀ field, table rest.cache [] field = none) :
    Invariant (rest.progress call progress) := by
  have hcache : (rest.progress call progress).cache = rest.cache := by
    cases progress <;> rfl
  refine ⟨?_, fun suspended hmem => ?_, fun field => ?_⟩
  · rw [Atomic, hcache]
    exact hatomic.perm (finished_progress rest call progress).symm
  · rw [hcache]
    cases progress with
    | await point =>
      obtain hmem | hmem := List.mem_append.mp hmem
      · exact hsuspended suspended hmem
      · cases List.mem_singleton.mp hmem
        exact hnext point rfl
    | «return» answer => exact hsuspended suspended hmem
  · rw [hcache, hempty]

theorem Invariant.step (h : Invariant s) (hallowed : s.undisturbed event)
    (hstep : step builtin s event = some s') : Invariant s' := by
  cases event with
  | call call =>
    rw [CacheService.step] at hstep
    cases hcache : s.cache with
    | none =>
      rw [hcache] at hstep
      cases hstep
      refine Invariant.progress h.atomic h.suspended (fun point hpoint => ?_) h.no_key
      cases hpoint
      trivial
    | some store =>
      rw [hcache] at hstep
      cases hstep
      have hempty := h.no_key
      have hatomic := h.atomic
      rw [hcache] at hempty
      rw [Atomic, hcache] at hatomic
      obtain ⟨hsegment, hnext⟩ :=
        begin_segment builtin (hallowed store hcache) hempty
      refine Invariant.progress ?_ h.suspended ?_ h.no_key
      · rw [hcache]
        refine serial_of_segment ?_ hsegment
        exact hatomic
      · rwa [hcache]
  | resume index =>
    obtain ⟨⟨call, point⟩, hget, rfl⟩ := Option.map_eq_some_iff.mp hstep
    have hwf := h.suspended _ (List.mem_of_getElem? hget)
    obtain ⟨hsegment, hcreated, hnext, hempty⟩ :=
      goOn_segment builtin hwf (hallowed _ hget) h.no_key
    refine Invariant.progress ?_ (fun suspended hmem => ?_) hnext hempty
    · exact serial_of_segment (h.atomic.perm (finished_eraseIdx hget _)) hsegment
    · exact (h.suspended suspended (List.mem_of_mem_eraseIdx hmem)).of_isSome hcreated

/-- In every run in which no update is lost, the calls are hash commands in some order. -/
theorem atomic (h : Reachable (step builtin) undisturbed initial s) : s.Atomic :=
  (h.keeps Invariant initial_invariant fun _ _ _ hs hallowed hstep =>
    hs.step hallowed hstep).atomic

end Runs

/-- A call that sets one field of the hash of activation errors. -/
def setError (workflowId : Name) (error : Nat) : HashCall Nat :=
  .setHash "workflow-activation-error".toList (.set .empty workflowId (some error))

/-- A call that returns all activation errors. -/
def getErrors : HashCall Nat := .getHash "workflow-activation-error".toList

/-- The built-ins of the samples. -/
def noBuiltin : Name → Nat := fun _ => 0

/-- A hash is read while another field is set, and two fields are set one after the other. -/
theorem separate_calls_atomic : ∃ s,
    Reachable (step noBuiltin) undisturbed initial s ∧ s.Atomic ∧ s.calls.length = 0 ∧
      s.returned.map (·.1) = [setError "w1".toList 1, getErrors, setError "w2".toList 2] ∧
      table s.cache "workflow-activation-error".toList "w1".toList = some 1 ∧
      table s.cache "workflow-activation-error".toList "w2".toList = some 2 := by
  obtain ⟨s, hs, hlists⟩ : ∃ s,
      runAllowed (step noBuiltin) undisturbed initial
        [.call (setError "w1".toList 1), .resume 0, .resume 0, .resume 0,
          .call (setError "w2".toList 2), .call getErrors, .resume 0, .resume 0, .resume 0] =
          some s ∧
      (s.calls.length, s.returned.map (·.1),
        table s.cache "workflow-activation-error".toList "w1".toList,
        table s.cache "workflow-activation-error".toList "w2".toList) =
          (0, [setError "w1".toList 1, getErrors, setError "w2".toList 2], some 1, some 2) := by
    refine Option.map_eq_some_iff.mp ?_
    decide +kernel
  simp only [Prod.mk.injEq] at hlists
  have hreach := reachable_of_runAllowed .start hs
  exact ⟨s, hreach, atomic hreach, hlists⟩

/-- Two fields that are set at once: the first one is lost, though each order keeps both. -/
theorem concurrent_setHash_loses_field :
    ¬ ∀ s : CacheService Nat, Reachable (step noBuiltin) (fun _ _ => True) initial s →
      s.Atomic := by
  intro h
  obtain ⟨s, hs, hlists⟩ : ∃ s,
      run (step noBuiltin) initial
        [.call (setError "w1".toList 1), .resume 0, .call (setError "w2".toList 2), .resume 0,
          .resume 0, .resume 0, .resume 0] = some s ∧
      (s.calls, s.returned, table s.cache "workflow-activation-error".toList "w1".toList) =
        ([], [(setError "w1".toList 1, .done), (setError "w2".toList 2, .done)], none) := by
    refine Option.map_eq_some_iff.mp ?_
    decide +kernel
  simp only [Prod.mk.injEq] at hlists
  obtain ⟨hcalls, hreturned, hlost⟩ := hlists
  obtain ⟨order, hperm, hexecute⟩ := h s (reachable_of_run hs)
  rw [finished, hcalls, hreturned] at hperm
  have hkept : ∀ calls : List (HashCall Nat),
      calls = [setError "w1".toList 1, setError "w2".toList 2] ∨
        calls = [setError "w2".toList 2, setError "w1".toList 1] →
      (executeAll execute calls fun _ _ => none).2 "workflow-activation-error".toList
        "w1".toList = some 1 := by
    rintro calls (rfl | rfl)
    · decide +kernel
    · decide +kernel
  have hfield := hkept (order.map Prod.fst) <| by
    obtain rfl | rfl := List.perm_pair.mp hperm
    · exact .inl rfl
    · exact .inr rfl
  rw [hexecute] at hfield
  cases hlost.symm.trans hfield

end CacheService

end N8n.Caching
