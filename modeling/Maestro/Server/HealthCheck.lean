import Maestro.Concurrent.Interleaving
import Maestro.Data.Search
import Maestro.Db.Store

/-!
# The heartbeats of the instances

`HealthCheckServer` of every instance on one database: `pulse` renews the heartbeat of an
instance, `checkInstances` marks the instances as ready or not. Each statement commits on its
own. The log records what the statements did; no function reads it.
-/

namespace Maestro
open Data Concurrent

/-- `api.ServerInstance`, a row of `server_instances`, with the columns that the health checks
read. -/
structure InstanceRow where
  id : String
  lastHeartbeat : Time
  ready : Bool := false
deriving DecidableEq

def InstanceRow.mark (ids : List String) (ready : Bool) (row : InstanceRow) : InstanceRow :=
  if row.id ∈ ids then { row with ready := ready } else row

theorem InstanceRow.mark_id (ids : List String) (ready : Bool) (row : InstanceRow) :
    (row.mark ids ready).id = row.id := by
  unfold InstanceRow.mark
  split <;> rfl

theorem InstanceRow.mark_lastHeartbeat (ids : List String) (ready : Bool) (row : InstanceRow) :
    (row.mark ids ready).lastHeartbeat = row.lastHeartbeat := by
  unfold InstanceRow.mark
  split <;> rfl

inductive HealthAct
  | read (id : String) (row : Option InstanceRow)
  | created (row : InstanceRow)
  | saved (row : InstanceRow)
  /-- The rows that an `UPDATE` of the column found. -/
  | marked (ids : List String) (ready : Bool)
deriving DecidableEq

structure HealthEntry where
  session : ℕ
  act : HealthAct
deriving DecidableEq

/-- The table, the locks and the clock that all instances share. -/
structure HealthState where
  instances : Table InstanceRow.id := .empty
  locks : LockTable LockKey String ℕ := .empty
  /-- The owner IDs that were drawn. -/
  owners : List String := []
  /-- The last reading of the clock. -/
  clock : Time
  log : List HealthEntry := []
deriving DecidableEq

def HealthState.record (s : HealthState) (session : ℕ) (act : HealthAct) : HealthState :=
  { s with log := s.log ++ [⟨session,act⟩] }

inductive HealthCall
  | cloudEventsNotReady
  | newAdvisoryLock (id : String)
  | newNonBlockingLock (id : String)
  | unlock (owner : String)
  | now
  | getInstance (id : String)
  | createInstance (row : InstanceRow)
  | replaceInstance (row : InstanceRow)
  | allInstances
  | markByIDs (ids : List String) (ready : Bool)
deriving DecidableEq

abbrev HealthCall.Resp : HealthCall → Type
  | .cloudEventsNotReady => Bool
  | .newAdvisoryLock _ => String × Option DbErr
  | .newNonBlockingLock _ => String × Bool × Option DbErr
  | .unlock _ => Unit
  | .now => Time
  | .getInstance _ => Except DbErr InstanceRow
  | .createInstance _ => Except DbErr Unit
  | .replaceInstance _ => Except DbErr Unit
  | .allInstances => Except DbErr (List InstanceRow)
  | .markByIDs _ _ => Except DbErr Unit

abbrev HealthM := Prog HealthCall HealthCall.Resp

/-- The program of one call. -/
abbrev consult (c : HealthCall) : HealthM c.Resp := Prog.lift c

/-- The answer of a statement that the database refuses. -/
def HealthCall.failure (err : DbErr) : (c : HealthCall) → Option c.Resp
  | .newAdvisoryLock _ => some ("",some err)
  | .newNonBlockingLock _ => some ("",false,some err)
  | .getInstance _ => some (.error err)
  | .createInstance _ => some (.error err)
  | .replaceInstance _ => some (.error err)
  | .allInstances => some (.error err)
  | .markByIDs _ _ => some (.error err)
  | .cloudEventsNotReady => none
  | .unlock _ => none
  | .now => none

/-- What the environment decides for one call. -/
structure HealthChoice where
  fault : HealthCall → Option DbErr := fun _ => none
  now : Time := 0
  uuid : String := "uuid"
  uuid_ne : uuid ≠ "" := by decide
  notReady : Bool := false
  order : List InstanceRow → List InstanceRow := id

/-- A call that is not refused. `none` is a call that cannot be executed now: a lock that is
held, a UUID that was drawn before or a clock that goes back. -/
def healthCommit (t : ℕ) (ch : HealthChoice) :
    (c : HealthCall) → HealthState → Option (c.Resp × HealthState)
  | .cloudEventsNotReady, s => some (ch.notReady,s)
  | .newAdvisoryLock id, s =>
    if ch.uuid ∈ s.owners then none
    else
      (s.locks.acquire (lockKey id .instances) ch.uuid t).map fun locks =>
        ((ch.uuid,none),{ s with locks := locks, owners := s.owners ++ [ch.uuid] })
  | .newNonBlockingLock id, s =>
    if ch.uuid ∈ s.owners then none
    else if lockKey id .instances ∈ s.locks.held.map Lock.key then
      some ((ch.uuid,false,none),{ s with owners := s.owners ++ [ch.uuid] })
    else
      (s.locks.acquire (lockKey id .instances) ch.uuid t).map fun locks =>
        ((ch.uuid,true,none),{ s with locks := locks, owners := s.owners ++ [ch.uuid] })
  | .unlock owner, s => some ((),{ s with locks := s.locks.release owner })
  | .now, s => if s.clock ≤ ch.now then some (ch.now,{ s with clock := ch.now }) else none
  | .getInstance id, s =>
    let row := s.instances.find id
    some (match row with | none => .error .recordNotFound | some row => .ok row,
      s.record t (.read id row))
  | .createInstance row, s =>
    if h : s.instances.find row.id = none then
      some (.ok (),{ s with instances := s.instances.insert row h }.record t (.created row))
    else
      some (.error (errUniqueViolation "server_instances_pkey"),s)
  | .replaceInstance row, s =>
    some (.ok (),{ s with instances := s.instances.save row }.record t (.saved row))
  | .allInstances, s =>
    if (ch.order s.instances.rows).Perm s.instances.rows then
      some (.ok (ch.order s.instances.rows),s)
    else
      none
  | .markByIDs ids ready, s =>
    let found := ids.filter fun id => (s.instances.find id).isSome
    let instances := s.instances.map (.mark ids ready) (InstanceRow.mark_id ids ready)
    some (.ok (),{ s with instances := instances }.record t (.marked found ready))

/-- Execute a call in session `t`: refused by the database, or committed. -/
def healthExec (t : ℕ) (ch : HealthChoice) (c : HealthCall) (s : HealthState) :
    Option (c.Resp × HealthState) :=
  match (ch.fault c).bind fun err => c.failure err with
  | some r => some (r,s)
  | none => healthCommit t ch c s

namespace HealthCheckServer

def pulse (instanceID : String) : HealthM Unit := do
  if ← consult .cloudEventsNotReady then
    return ()
  else
    let (lockOwnerID,err) ← consult (.newAdvisoryLock instanceID)
    Prog.deferring (consult (.unlock lockOwnerID)) do
      match err with
      | some _ => return ()
      | none =>
        match ← consult (.getInstance instanceID) with
        | .error .recordNotFound =>
          let now ← consult .now
          let _ ← consult (.createInstance { id := instanceID, lastHeartbeat := now })
          return ()
        | .error (.other _) => return ()
        | .ok found =>
          let now ← consult .now
          let _ ← consult (.replaceInstance { found with lastHeartbeat := now })
          return ()

/-- `time.Second`. -/
def second : Time := 1000000000

/-- Instances with a heartbeat after this time are active. -/
def deadline (heartbeatInterval : ℤ) (now : Time) : Time := now + -3 * second * heartbeatInterval

/-- The loop of `checkInstances`. -/
def sortInstances (heartbeatInterval : ℤ) : List InstanceRow → List String → List String →
    HealthM (List String × List String)
  | [], active, inactive => return (active,inactive)
  | row :: rest, active, inactive => do
    let now ← consult .now
    if deadline heartbeatInterval now < row.lastHeartbeat ∧ row.ready = false then
      sortInstances heartbeatInterval rest (active ++ [row.id]) inactive
    else
      let now ← consult .now
      if row.lastHeartbeat < deadline heartbeatInterval now ∧ row.ready = true then
        sortInstances heartbeatInterval rest active (inactive ++ [row.id])
      else
        sortInstances heartbeatInterval rest active inactive

/-- The two batches of `checkInstances`; an error of one is only logged. -/
def markInstances (active inactive : List String) : HealthM Unit := do
  if active.length > 0 then
    let _ ← consult (.markByIDs active true)
  if inactive.length > 0 then
    let _ ← consult (.markByIDs inactive false)

def checkInstances (heartbeatInterval : ℤ) : HealthM Unit := do
  let (lockOwnerID,acquired,err) ← consult (.newNonBlockingLock "maestro-instances-liveness-check")
  Prog.deferring (consult (.unlock lockOwnerID)) do
    match err with
    | some _ => return ()
    | none =>
      if !acquired then
        return ()
      else
        match ← consult .allInstances with
        | .error _ => return ()
        | .ok instances =>
          let (active,inactive) ← sortInstances heartbeatInterval instances [] []
          markInstances active inactive

/-- The goroutines of the health checks, each for a number of rounds. -/
inductive Task
  | pulsing (instanceID : String) (rounds : ℕ)
  | checking (heartbeatInterval : ℤ) (rounds : ℕ)

def rounds (body : HealthM Unit) : ℕ → HealthM Unit
  | 0 => return ()
  | n+1 => do
    body
    rounds body n

def Task.program : Task → HealthM Unit
  | .pulsing instanceID n => HealthCheckServer.rounds (pulse instanceID) n
  | .checking heartbeatInterval n => HealthCheckServer.rounds (checkInstances heartbeatInterval) n

end HealthCheckServer

/-- The health checks of all instances. -/
def healthPool {n : ℕ} (i : Fin n) :
    HealthChoice → (c : HealthCall) → HealthState → Option (c.Resp × HealthState) :=
  healthExec i

end Maestro
