import N8n.Transition.Runs

/-!
# Leadership among main instances

`MultiMainSetup` of `packages/cli/src/scaling/multi-main-setup.ee.ts` elects a leader through one
shared key with an expiry. A call of a method is modelled by the Redis command that it awaits, which
Redis executes at some moment, and by the reply, which the instance receives later. Any number of
instances run, known by their `hostId`.
-/

namespace N8n.Scaling

open Transition

/-- `InstanceRole` of the instance settings. -/
inductive InstanceRole where
  | unset
  | leader
  | follower
  deriving DecidableEq, Repr

/-- What a call of a method of `MultiMainSetup` awaits. -/
inductive Call where
  /-- `setIfNotExists` in `tryBecomeLeader`, called by `init` or by `checkLeader`. -/
  | settingKey (fromInit : Bool)
  | keySet (fromInit ok : Bool)
  /-- `get` in `checkLeader`. -/
  | gettingKey
  | keyGot (leaderId : Option String)
  /-- `setExpiration` in `checkLeader`. -/
  | renewingKey
  /-- `clear` in `shutdown`. -/
  | clearingKey
  deriving DecidableEq, Repr

/-- An instance. -/
structure Instance where
  instanceRole : InstanceRole := .unset
  /-- The interval that calls `checkLeader` is set. -/
  leaderCheckInterval : Bool := false
  calls : List Call := []
  /-- `shutdown` was called. -/
  isShutDown : Bool := false
  deriving DecidableEq, Repr

/-- The value of the leader key and when it expires. -/
structure LeaderKey where
  leaderId : String
  expiresAt : Nat
  deriving DecidableEq, Repr

/-- The time to live of the leader key in seconds. -/
structure MultiMainSetupConfig where
  ttl : Nat
  ttl_pos : 0 < ttl

/-- All instances and the shared key. -/
structure MultiMainSetup where
  now : Nat := 0
  leaderKey : Option LeaderKey := none
  instances : String → Instance := fun _ => {}

/-- What happens to the instances. -/
inductive MainEvent where
  | elapse (duration : Nat)
  | init (hostId : String)
  | checkLeader (hostId : String)
  | shutdown (hostId : String)
  /-- Redis executes the command that a call awaits. -/
  | execute (hostId : String) (call : Nat)
  /-- A call receives the reply to its command. -/
  | reply (hostId : String) (call : Nat)
  /-- A call ends because its command or the reply is lost. -/
  | fail (hostId : String) (call : Nat)
  /-- The process ends. -/
  | crash (hostId : String)
  deriving DecidableEq, Repr

namespace Instance

variable (i : Instance)

/-- `isLeader` of the instance settings. -/
def isLeader : Bool := i.instanceRole = .leader

/-- `init()` up to its `await`. -/
def init : Instance := { i with calls := i.calls ++ [.settingKey true] }

/-- `checkLeader()` up to its first `await`, when the interval fires. -/
def checkLeader : Option Instance :=
  if i.leaderCheckInterval then some { i with calls := i.calls ++ [.gettingKey] } else none

/-- `shutdown()` up to its `await`. -/
def shutdown : Instance :=
  { i with
    leaderCheckInterval := false
    isShutDown := true
    calls := if i.isLeader then i.calls ++ [.clearingKey] else i.calls }

/-- What a method does with the reply to its command, up to its next `await`. -/
def reply (hostId : String) (call : Nat) : Option Instance :=
  match i.calls[call]? with
  | some (.keySet fromInit ok) =>
    some { i with
      instanceRole := if ok then .leader else .follower
      leaderCheckInterval := i.leaderCheckInterval || fromInit
      calls := i.calls.eraseIdx call }
  | some (.keyGot (some leaderId)) =>
    if leaderId = hostId then some { i with calls := i.calls.set call .renewingKey }
    else
      some { i with
        instanceRole := if i.isLeader then .follower else i.instanceRole
        calls := i.calls.eraseIdx call }
  | some (.keyGot none) =>
    some { i with instanceRole := .follower, calls := i.calls.set call (.settingKey false) }
  | _ => none

end Instance

namespace MultiMainSetup

variable (config : MultiMainSetupConfig) (s : MultiMainSetup)

/-- Change an instance. -/
def setInstance (hostId : String) (i : Instance) : MultiMainSetup :=
  { s with instances := fun hostId' => if hostId' = hostId then i else s.instances hostId' }

/-- Time passes, and the key expires when it is due. -/
def elapse (duration : Nat) : MultiMainSetup :=
  { s with
    now := s.now + duration
    leaderKey := s.leaderKey.filter fun key => s.now + duration < key.expiresAt }

/-- Redis executes the command of a call. -/
def execute (hostId : String) (call : Nat) : Option MultiMainSetup :=
  let i := s.instances hostId
  match i.calls[call]? with
  | some (.settingKey fromInit) =>
    match s.leaderKey with
    | none =>
      let key := { leaderId := hostId, expiresAt := s.now + config.ttl }
      some { s.setInstance hostId
          { i with calls := i.calls.set call (.keySet fromInit true) } with
        leaderKey := some key }
    | some _ =>
      some (s.setInstance hostId { i with calls := i.calls.set call (.keySet fromInit false) })
  | some .gettingKey =>
    let leaderId := s.leaderKey.map (·.leaderId)
    some (s.setInstance hostId { i with calls := i.calls.set call (.keyGot leaderId) })
  | some .renewingKey =>
    some { s.setInstance hostId { i with calls := i.calls.eraseIdx call } with
      leaderKey := s.leaderKey.map fun key => { key with expiresAt := s.now + config.ttl } }
  | some .clearingKey =>
    some { s.setInstance hostId { i with calls := i.calls.eraseIdx call } with leaderKey := none }
  | _ => none

/-- The instances after an event. -/
def step : MainEvent → Option MultiMainSetup
  | .elapse duration => some (s.elapse duration)
  | .init hostId => some (s.setInstance hostId (s.instances hostId).init)
  | .checkLeader hostId => (s.instances hostId).checkLeader.map (s.setInstance hostId)
  | .shutdown hostId => some (s.setInstance hostId (s.instances hostId).shutdown)
  | .execute hostId call => s.execute config hostId call
  | .reply hostId call => ((s.instances hostId).reply hostId call).map (s.setInstance hostId)
  | .fail hostId call =>
    let i := s.instances hostId
    if call < i.calls.length then
      some (s.setInstance hostId { i with calls := i.calls.eraseIdx call })
    else none
  | .crash hostId => some (s.setInstance hostId {})

end MultiMainSetup

end N8n.Scaling
