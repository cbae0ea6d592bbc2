import Maestro.Api.External
import Maestro.Concurrent.Program
import Maestro.Data.LockTable
import Maestro.Data.Table

/-!
# The database, as its statements see it

One call is one statement on a session of `SessionFactory.New`: such a session is
bound to no transaction, so the statement commits on its own, and a statement
that fails changes nothing. The journal records what the statements did and
which session ran them; no function reads it.
-/

namespace Maestro
open Data Concurrent

inductive LockType
  | migrations
  | resources
  | resourceStatus
  | events
  | instances
deriving DecidableEq

def LockType.text : LockType → String
  | .migrations => "migrations"
  | .resources => "resources"
  | .resourceStatus => "resource_status"
  | .events => "events"
  | .instances => "instances"

/-- FNV-1a over the bytes of the text, read as a PostgreSQL integer. -/
def hash (s : String) : Int32 :=
  (s.toUTF8.data.toList.foldl (fun (h : UInt32) (b : UInt8) => (h ^^^ b.toUInt32) * 16777619)
    2166136261).toInt32

/-- The key pair of an advisory lock. -/
abbrev LockKey := Int32 × Int32

instance : LawfulBEq LockKey := inferInstance

def lockKey (id : String) (lockType : LockType) : LockKey := (hash id,hash lockType.text)

inductive QueueOp
  | add
  | addRateLimited
  | forget
  | done
deriving DecidableEq

/-- What a committed statement, or another outside effect, did. -/
inductive Act
  | readResource (id : String) (row : Option ResourceRow)
  | insertedResource (row : ResourceRow)
  | wroteSpec (id : String) (version : Int32) (payload : JSONMap)
  | wroteStatus (id : String) (status : JSONMap)
  | softDeleted (id : String) (time : Time)
  | hardDeleted (row : ResourceRow)
  | insertedEvent (event : Event)
  | savedEvent (event : Event)
  | purgedEvents (events : List Event)
  | listedEvents (events : List Event)
  | retiredEvents (events : List Event)
  | insertedStatusEvent (event : StatusEvent)
  | notified (channel id : String)
  | published (action : EventAction) (resource : Resource)
  | broadcast (resource : Resource)
  | handled (handler : ℕ) (sourceID : String) (ok : Bool)
  | queued (queue : ℕ) (op : QueueOp) (key : String)
deriving DecidableEq

structure Entry where
  session : ℕ
  act : Act
deriving DecidableEq

structure State where
  resources : Table ResourceRow.id := .empty
  events : Table Event.id := .empty
  statusEvents : Table StatusEvent.id := .empty
  locks : LockTable LockKey String ℕ := .empty
  journal : List Entry := []
deriving DecidableEq

namespace State

/-- The database with one resource and nothing else. -/
def single (row : ResourceRow) : State where
  resources := Table.empty.insert row (Table.find_empty row.id)

def record (s : State) (session : ℕ) (acts : List Act) : State :=
  { s with journal := s.journal ++ acts.map (Entry.mk session) }

@[simp] theorem record_resources (s : State) (t : ℕ) (acts : List Act) :
    (s.record t acts).resources = s.resources := rfl

@[simp] theorem record_events (s : State) (t : ℕ) (acts : List Act) :
    (s.record t acts).events = s.events := rfl

@[simp] theorem record_statusEvents (s : State) (t : ℕ) (acts : List Act) :
    (s.record t acts).statusEvents = s.statusEvents := rfl

@[simp] theorem record_locks (s : State) (t : ℕ) (acts : List Act) :
    (s.record t acts).locks = s.locks := rfl

@[simp] theorem record_journal (s : State) (t : ℕ) (acts : List Act) :
    (s.record t acts).journal = s.journal ++ acts.map (Entry.mk t) := rfl

end State

/-- The statements, and the other effects, that the modelled functions use. -/
inductive Call
  | now
  | markForRollback (err : DbErr)
  | newAdvisoryLock (id : String) (lockType : LockType)
  | newNonBlockingLock (id : String) (lockType : LockType)
  | unlock (owner : String)
  | takeResource (id : String)
  | createResource (resource : Resource)
  | updateResource (id : String) (version : Int32) (payload : JSONMap)
  | updateResourceStatus (id : String) (status : JSONMap)
  | deleteResource (id : String) (unscoped : Bool)
  | findResourcesBySource (source : String)
  | takeEvent (id : String)
  | createEvent (event : Event)
  | saveEvent (event : Event)
  | deleteReconciledEvents
  | findUnreconciledEvents
  | reconcileStaleDeleteEvents (cutoff now : Time)
  | findLatestDeleteEvent (sourceID : String)
  | createStatusEvent (event : StatusEvent)
  | notify (channel id : String)
  | publish (action : EventAction) (resource : Resource)
  | broadcast (resource : Resource)
  | subscribers (consumerName : String)
  | handler (handler : ℕ) (sourceID : String)
  | queue (queue : ℕ) (op : QueueOp) (key : String)
deriving DecidableEq

abbrev Call.Resp : Call → Type
  | .now => Time
  | .newAdvisoryLock _ _ => String × Option DbErr
  | .newNonBlockingLock _ _ => String × Bool × Option DbErr
  | .takeResource _ => Except DbErr Resource
  | .createResource _ => Except DbErr Resource
  | .updateResource _ _ _ => Except DbErr Unit
  | .updateResourceStatus _ _ => Except DbErr Unit
  | .deleteResource _ _ => Except DbErr Unit
  | .findResourcesBySource _ => Except DbErr (List Resource)
  | .takeEvent _ => Except DbErr Event
  | .createEvent _ => Except DbErr Event
  | .saveEvent _ => Except DbErr Unit
  | .deleteReconciledEvents => Except DbErr Unit
  | .findUnreconciledEvents => Except DbErr (List Event)
  | .reconcileStaleDeleteEvents _ _ => Except DbErr ℕ
  | .findLatestDeleteEvent _ => Except DbErr Event
  | .createStatusEvent _ => Except DbErr StatusEvent
  | .notify _ _ => Except DbErr Unit
  | .publish _ _ => Except DbErr Unit
  | .subscribers _ => Bool
  | .handler _ _ => Except DbErr Unit
  | .markForRollback _ | .unlock _ | .broadcast _ | .queue _ _ _ => Unit

abbrev M := Prog Call Call.Resp

/-- The program of one call. -/
abbrev perform (c : Call) : M c.Resp := Prog.lift c

/-- The answer of a statement that the database refuses; `none` for the effects
that cannot fail. Unlocking reports no error to its caller. -/
def Call.failure (err : DbErr) : (c : Call) → Option c.Resp
  | .newAdvisoryLock _ _ => some ("",some err)
  | .newNonBlockingLock _ _ => some ("",false,some err)
  | .takeResource _ => some (.error err)
  | .createResource _ => some (.error err)
  | .updateResource _ _ _ => some (.error err)
  | .updateResourceStatus _ _ => some (.error err)
  | .deleteResource _ _ => some (.error err)
  | .findResourcesBySource _ => some (.error err)
  | .takeEvent _ => some (.error err)
  | .createEvent _ => some (.error err)
  | .saveEvent _ => some (.error err)
  | .deleteReconciledEvents => some (.error err)
  | .findUnreconciledEvents => some (.error err)
  | .reconcileStaleDeleteEvents _ _ => some (.error err)
  | .findLatestDeleteEvent _ => some (.error err)
  | .createStatusEvent _ => some (.error err)
  | .notify _ _ => some (.error err)
  | .publish _ _ => none
  | .now => none
  | .subscribers _ => none
  | .handler _ _ => none
  | .markForRollback _ => none
  | .unlock _ => none
  | .broadcast _ => none
  | .queue _ _ _ => none

/-- What the environment decides for one call: whether the database refuses it, the
clock, the next UUID, which consumers are subscribed, what a handler or a broker
outside the database returns and the order in which a query without `ORDER BY`
lists events. -/
structure Choice where
  fault : Call → Option DbErr := fun _ => none
  now : Time
  uuid : String
  uuid_ne : uuid ≠ "" := by decide
  subscribed : String → Bool := fun _ => false
  remoteErr : Option DbErr := none
  order : List Event → List Event := id

theorem uuid_text_ne (n : ℕ) : "uuid-" ++ toString n ≠ "" := by simp

/-- The `n`-th choice of an environment whose clock ticks at every call and whose
UUIDs are numbered. -/
def Choice.counting (fault : Call → Option DbErr) (n : ℕ) : Choice where
  fault := fault
  now := n
  uuid := "uuid-" ++ toString n
  uuid_ne := uuid_text_ne n

/-- `StaleDeleteReconcileBatchSize`. -/
def staleDeleteReconcileBatchSize : ℕ := 10000

/-- `ErrMissingWhereClause`: gorm refuses to delete by an empty primary key. -/
def errMissingWhereClause : DbErr := .other "WHERE conditions required"

def errUniqueViolation (constraint : String) : DbErr :=
  .other ("ERROR: duplicate key value violates unique constraint \"" ++ constraint ++
    "\" (SQLSTATE 23505)")

/-- The struct after `BeforeCreate` and gorm's creation timestamps. -/
def Resource.beforeCreate (r : Resource) (now : Time) (uuid : String) : Resource :=
  let id := if r.id = "" then uuid else r.id
  { r with
    id := id
    name := if r.name = "" then id else r.name
    version := if r.version = 0 then 1 else r.version
    createdAt := some (r.createdAt.getD now)
    updatedAt := some (r.updatedAt.getD now) }

/-- The row that a created struct is stored as. A deletion time that is not valid
is stored as NULL. -/
def Resource.row (r : Resource) (now : Time) : ResourceRow where
  id := r.id
  createdAt := r.createdAt.getD now
  updatedAt := r.updatedAt.getD now
  deletedAt := if r.deletedAt.valid then r.deletedAt.time else none
  version := r.version
  source := r.source
  consumerName := r.consumerName
  type := r.type
  payload := r.payload
  status := r.status
  name := r.name

/-- `Select("version", "payload").Updates(…)`: the two columns and `updated_at`. -/
def ResourceRow.setSpec (version : Int32) (payload : JSONMap) (now : Time) (row : ResourceRow) :
    ResourceRow :=
  { row with version := version, payload := payload, updatedAt := now }

theorem ResourceRow.setSpec_id (version : Int32) (payload : JSONMap) (now : Time)
    (row : ResourceRow) : (row.setSpec version payload now).id = row.id := rfl

/-- `Select("status").Updates(…)`: the column and `updated_at`. -/
def ResourceRow.setStatus (status : JSONMap) (now : Time) (row : ResourceRow) : ResourceRow :=
  { row with status := status, updatedAt := now }

theorem ResourceRow.setStatus_id (status : JSONMap) (now : Time) (row : ResourceRow) :
    (row.setStatus status now).id = row.id := rfl

/-- A soft delete, restricted to rows whose `deleted_at` is NULL. -/
def ResourceRow.setDeletedAt (now : Time) (row : ResourceRow) : ResourceRow :=
  { row with deletedAt := some (row.deletedAt.getD now) }

theorem ResourceRow.setDeletedAt_id (now : Time) (row : ResourceRow) :
    (row.setDeletedAt now).id = row.id := rfl

def Event.beforeCreate (e : Event) (now : Time) (uuid : String) : Event :=
  { e with id := uuid, createdAt := now, updatedAt := now }

def StatusEvent.beforeCreate (e : StatusEvent) (now : Time) (uuid : String) : StatusEvent :=
  { e with id := uuid, createdAt := now, updatedAt := now }

def Event.setReconciled (picked : List Event) (date now : Time) (e : Event) : Event :=
  if e ∈ picked then { e with reconciledDate := some date, updatedAt := now } else e

theorem Event.setReconciled_id (picked : List Event) (date now : Time) (e : Event) :
    (e.setReconciled picked date now).id = e.id := by
  unfold Event.setReconciled
  split <;> rfl

/-- The later of two events, the smaller ID among those created at one time. -/
def laterEvent (a b : Event) : Event :=
  if b.createdAt < a.createdAt ∨ b.createdAt = a.createdAt ∧ a.id ≤ b.id then a else b

def latestDeleteEvent (events : List Event) (sourceID : String) : Option Event :=
  (events.filter fun e => e.source = "Resources" ∧ e.sourceID = sourceID ∧
    e.eventType = .delete).foldl
    (fun latest e => some (match latest with | none => e | some l => laterEvent l e)) none

/-- The events that `ReconcileStaleDeleteEvents` selects, before its limit. -/
def State.staleDeleteEvents (s : State) (cutoff : Time) : List Event :=
  s.events.rows.filter fun e =>
    e.source = "Resources" ∧ e.eventType = .delete ∧ e.reconciledDate = none ∧
    e.createdAt < cutoff ∧
    ((s.resources.find e.sourceID).bind ResourceRow.deletedAt).any fun t => decide (t < cutoff)

/-- `none` is no error. -/
def errToExcept : Option DbErr → Except DbErr Unit
  | none => .ok ()
  | some err => .error err

/-- A statement that the database accepts. `none` is a call that cannot be executed
now: a lock that is held, or a UUID that is in use already. -/
def commit (t : ℕ) (ch : Choice) : (c : Call) → State → Option (c.Resp × State)
  | .now, s => some (ch.now,s)
  -- the flag is kept in a transaction that no session is bound to
  | .markForRollback _, s => some ((),s)
  | .newAdvisoryLock id lockType, s =>
    (s.locks.acquire (lockKey id lockType) ch.uuid t).map fun locks =>
      ((ch.uuid,none),{ s with locks := locks })
  | .newNonBlockingLock id lockType, s =>
    if lockKey id lockType ∈ s.locks.held.map Lock.key then
      some ((ch.uuid,false,none),s)
    else
      (s.locks.acquire (lockKey id lockType) ch.uuid t).map fun locks =>
        ((ch.uuid,true,none),{ s with locks := locks })
  | .unlock owner, s => some ((),{ s with locks := s.locks.release owner })
  | .takeResource id, s =>
    let row := s.resources.find id
    some (match row with | none => .error .recordNotFound | some row => .ok row.scan,
      s.record t [.readResource id row])
  | .createResource resource, s =>
    let r := resource.beforeCreate ch.now ch.uuid
    let row := r.row ch.now
    if h : s.resources.find row.id = none then
      if s.resources.rows.any fun other => other.name = row.name then
        some (.error (errUniqueViolation "idx_resources_name"),s)
      else
        let s' := { s with resources := s.resources.insert row h }
        some (.ok r,s'.record t [.insertedResource row])
    else if resource.id = "" then
      none
    else
      some (.error (errUniqueViolation "resources_pkey"),s)
  | .updateResource id version payload, s =>
    match s.resources.find id with
    | none => some (.ok (),s)
    | some _ =>
      let resources := s.resources.modify id (.setSpec version payload ch.now)
        (ResourceRow.setSpec_id _ _ _)
      let s' := { s with resources := resources }
      some (.ok (),s'.record t [.wroteSpec id version payload])
  | .updateResourceStatus id status, s =>
    match s.resources.find id with
    | none => some (.ok (),s)
    | some _ =>
      let resources := s.resources.modify id (.setStatus status ch.now)
        (ResourceRow.setStatus_id _ _)
      let s' := { s with resources := resources }
      some (.ok (),s'.record t [.wroteStatus id status])
  | .deleteResource id unscoped, s =>
    if id = "" then
      some (.error errMissingWhereClause,s)
    else
      match s.resources.find id with
      | none => some (.ok (),s)
      | some row =>
        if unscoped then
          let s' := { s with resources := s.resources.erase id }
          some (.ok (),s'.record t [.hardDeleted row])
        else if row.deletedAt.isSome then
          some (.ok (),s)
        else
          let resources := s.resources.modify id (.setDeletedAt ch.now)
            (ResourceRow.setDeletedAt_id _)
          let s' := { s with resources := resources }
          some (.ok (),s'.record t [.softDeleted id ch.now])
  | .findResourcesBySource source, s =>
    some (.ok ((s.resources.rows.filter fun row => row.source = source).map ResourceRow.scan),s)
  | .takeEvent id, s =>
    some (match s.events.find id with | none => .error .recordNotFound | some e => .ok e,s)
  | .createEvent event, s =>
    let e := event.beforeCreate ch.now ch.uuid
    if h : s.events.find e.id = none then
      let s' := { s with events := s.events.insert e h }
      some (.ok e,s'.record t [.insertedEvent e])
    else
      none
  | .saveEvent event, s =>
    let e : Event := { event with updatedAt := ch.now }
    let s' := { s with events := s.events.save e }
    some (.ok (),s'.record t [.savedEvent e])
  | .deleteReconciledEvents, s =>
    let s' := { s with events := s.events.filter fun e => e.reconciledDate.isNone }
    some (.ok (),s'.record t [.purgedEvents (s.events.rows.filter fun e => e.reconciledDate.isSome)])
  | .findUnreconciledEvents, s =>
    let unreconciled := s.events.rows.filter fun e => e.reconciledDate.isNone
    if (ch.order unreconciled).Perm unreconciled then
      some (.ok (ch.order unreconciled),s.record t [.listedEvents (ch.order unreconciled)])
    else
      none
  | .reconcileStaleDeleteEvents cutoff now, s =>
    let stale := s.staleDeleteEvents cutoff
    if (ch.order stale).Perm stale then
      let picked := (ch.order stale).take staleDeleteReconcileBatchSize
      let events := s.events.map (.setReconciled picked now ch.now) (Event.setReconciled_id _ _ _)
      let s' := { s with events := events }
      some (.ok picked.length,s'.record t [.retiredEvents picked])
    else
      none
  | .findLatestDeleteEvent sourceID, s =>
    some (match latestDeleteEvent s.events.rows sourceID with
      | none => .error .recordNotFound
      | some e => .ok e,s)
  | .createStatusEvent event, s =>
    let e := event.beforeCreate ch.now ch.uuid
    if h : s.statusEvents.find e.id = none then
      let s' := { s with statusEvents := s.statusEvents.insert e h }
      some (.ok e,s'.record t [.insertedStatusEvent e])
    else
      none
  | .notify channel id, s => some (.ok (),s.record t [.notified channel id])
  | .publish action resource, s =>
    match ch.remoteErr with
    | none => some (.ok (),s.record t [.published action resource])
    | some err => some (.error err,s)
  | .broadcast resource, s => some ((),s.record t [.broadcast resource])
  | .subscribers consumerName, s => some (ch.subscribed consumerName,s)
  | .handler handler sourceID, s =>
    some (errToExcept ch.remoteErr,s.record t [.handled handler sourceID ch.remoteErr.isNone])
  | .queue queue op key, s => some ((),s.record t [.queued queue op key])

/-- Execute a call in session `t`: refused by the database, or committed. -/
def exec (t : ℕ) (ch : Choice) (c : Call) (s : State) : Option (c.Resp × State) :=
  match (ch.fault c).bind fun err => c.failure err with
  | some r => some (r,s)
  | none => commit t ch c s

theorem exec_of_no_fault {t : ℕ} {ch : Choice} {c : Call} (h : ch.fault c = none) (s : State) :
    exec t ch c s = commit t ch c s := by
  simp [exec,h]

end Maestro
