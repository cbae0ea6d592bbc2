import Maestro.Concurrent.Extension
import Maestro.Db.Store

/-!
# The instances and their subscribers

The tables that the status pipeline adds to the database, and the event broadcaster of every
instance. The sessions of all instances run on one `Cluster`; a session belongs to one of
them. The log records what the pipeline did; no function reads it.
-/

namespace Maestro
open Data Concurrent

/-- `api.EventInstance`, a row of `event_instances`. -/
structure EventInstance where
  eventID : String
  instanceID : String
deriving DecidableEq

/-- A row of `server_instances`, with the columns that are read. -/
structure ServerInstance where
  id : String
  ready : Bool
deriving DecidableEq

/-- `eventClient` under its ID. -/
structure Client where
  id : String
  source : String
deriving DecidableEq

/-- `EventBroadcaster`. What `Start` has taken from the channel stays in `received` until it
comes back to the channel, so that no other resource can be sent meanwhile. -/
structure Hub where
  clients : Table Client.id := .empty
  received : Option Resource := none
  /-- `Start` holds the read lock. -/
  reading : Bool := false

inductive StatusAct
  | read (rows : List ResourceRow)
  | missedResource (id : String)
  | tookEvent (event : StatusEvent)
  | missedEvent (id : String)
  /-- A statement failed. -/
  | refused (err : DbErr)
  | sent (resource : Resource)
  | registered (client : Client)
  | unregistered (id : String)
  | received (resource : Resource)
  | locked (clients : List Client)
  | handed (client : Client) (resource : Resource)
  | unlocked
  | recorded (eventInstance : EventInstance)
  | ready (ids : List String)
  | selected (ids : List String)
  | purged (ids : List String) (events : List StatusEvent) (instances : List EventInstance)
deriving DecidableEq

structure StatusEntry where
  session : ℕ
  instanceID : String
  act : StatusAct
deriving DecidableEq

structure Cluster where
  state : State
  /-- The IDs of the status events that were deleted. -/
  purged : List String := []
  eventInstances : List EventInstance := []
  serverInstances : Table ServerInstance.id := .empty
  hubs : String → Hub := fun _ => {}
  log : List StatusEntry := []

namespace Cluster

/-- The `status_events` table. -/
def statusEvents (s : Cluster) : Table StatusEvent.id :=
  s.state.statusEvents.filter fun e => decide (e.id ∉ s.purged)

def record (s : Cluster) (session : ℕ) (instanceID : String) (acts : List StatusAct) : Cluster :=
  { s with log := s.log ++ acts.map (StatusEntry.mk session instanceID) }

def setHub (s : Cluster) (instanceID : String) (hub : Hub) : Cluster :=
  { s with hubs := Function.update s.hubs instanceID hub }

/-- The event IDs that `GetEventsAssociatedWithInstances` selects: those with as many different
instances among the given ones as there are. -/
def eventsOf (s : Cluster) (instanceIDs : List String) : List String :=
  let matching := s.eventInstances.filter fun row => decide (row.instanceID ∈ instanceIDs)
  (matching.map EventInstance.eventID).dedup.filter fun id =>
    ((matching.filter fun row => decide (row.eventID = id)).map
      EventInstance.instanceID).dedup.length = instanceIDs.length

/-- `DELETE … WHERE id IN ids` on the status events, and its cascade to `event_instances`. -/
def deleteStatusEvents (s : Cluster) (session : ℕ) (instanceID : String) (ids : List String) :
    Cluster :=
  let events := s.statusEvents.rows.filter fun e => decide (e.id ∈ ids)
  let gone := events.map StatusEvent.id
  let instances := s.eventInstances.filter fun row => decide (row.eventID ∈ gone)
  let s' := { s with
    purged := s.purged ++ gone
    eventInstances := s.eventInstances.filter fun row => decide (row.eventID ∉ gone) }
  s'.record session instanceID [.purged ids events instances]

def insertEventInstance (s : Cluster) (session : ℕ) (instanceID : String) (row : EventInstance) :
    Cluster :=
  { s with eventInstances := s.eventInstances ++ [row] }.record session instanceID [.recorded row]

end Cluster

/-- The statements and the other effects of the status pipeline. -/
inductive StatusCall
  | takeStatusEvent (id : String)
  | createEventInstance (eventInstance : EventInstance)
  | findReadyIDs
  | findEventsOf (instanceIDs : List String)
  | deleteStatusEvents (ids : List String)
  | saveInstance (serverInstance : ServerInstance)
  | markInstances (ids : List String) (ready : Bool)
  | newUUID
  | register (client : Client)
  | unregister (id : String)
  | receive
  | rLock
  | hand (client : Client) (resource : Resource)
  | rUnlock
deriving DecidableEq

abbrev StatusCall.Resp : StatusCall → Type
  | .takeStatusEvent _ => Except DbErr StatusEvent
  | .createEventInstance _ => Except DbErr Unit
  | .findReadyIDs => Except DbErr (List String)
  | .findEventsOf _ => Except DbErr (List String)
  | .deleteStatusEvents _ => Except DbErr Unit
  | .saveInstance _ => Except DbErr Unit
  | .markInstances _ _ => Except DbErr Unit
  | .newUUID => String
  | .receive => Resource
  | .rLock => List Client
  | .register _ | .unregister _ | .hand _ _ | .rUnlock => Unit

abbrev ClusterCall := Call ⊕ StatusCall

abbrev ClusterCall.Resp : ClusterCall → Type := Sum.elim Call.Resp StatusCall.Resp

abbrev StatusM := Prog ClusterCall ClusterCall.Resp

/-- The program of one call of the pipeline. -/
abbrev performStatus (c : StatusCall) : StatusM c.Resp := Prog.lift (.inr c : ClusterCall)

/-- The answer of a statement that the database refuses. -/
def StatusCall.failure (err : DbErr) : (c : StatusCall) → Option c.Resp
  | .takeStatusEvent _ => some (.error err)
  | .createEventInstance _ => some (.error err)
  | .findReadyIDs => some (.error err)
  | .findEventsOf _ => some (.error err)
  | .deleteStatusEvents _ => some (.error err)
  | .saveInstance _ => some (.error err)
  | .markInstances _ _ => some (.error err)
  | .newUUID => none
  | .register _ => none
  | .unregister _ => none
  | .receive => none
  | .rLock => none
  | .hand _ _ => none
  | .rUnlock => none

/-- What the environment decides for one call: also the orders of queries without `ORDER BY`
and of the iteration over a map. -/
structure ClusterChoice where
  base : Choice
  fault : StatusCall → Option DbErr := fun _ => none
  orderIDs : List String → List String := id
  orderClients : List Client → List Client := id

def errForeignKey (constraint : String) : DbErr :=
  .other ("ERROR: insert or update on table \"event_instances\" violates foreign key constraint \"" ++
    constraint ++ "\" (SQLSTATE 23503)")

/-- The event as a query reads it from its row. -/
def StatusEvent.scan (e : StatusEvent) : StatusEvent :=
  { e with payload := e.payload.scan, status := e.status.scan }

def ServerInstance.mark (ids : List String) (ready : Bool) (row : ServerInstance) :
    ServerInstance :=
  if row.id ∈ ids then { row with ready := ready } else row

theorem ServerInstance.mark_id (ids : List String) (ready : Bool) (row : ServerInstance) :
    (row.mark ids ready).id = row.id := by
  unfold ServerInstance.mark
  split <;> rfl

/-- A call of the pipeline that is not refused. `none` is a call that cannot be executed now. -/
def commitStatus (instanceID : String) (t : ℕ) (ch : ClusterChoice) :
    (c : StatusCall) → Cluster → Option (c.Resp × Cluster)
  | .takeStatusEvent id, s =>
    match s.statusEvents.find id with
    | none => some (.error .recordNotFound,s.record t instanceID [.missedEvent id])
    | some e => some (.ok e.scan,s.record t instanceID [.tookEvent e])
  | .createEventInstance row, s =>
    if s.statusEvents.find row.eventID = none then
      some (.error (errForeignKey "fk_event_instances_status_events"),s)
    else if s.serverInstances.find row.instanceID = none then
      some (.error (errForeignKey "fk_event_instances_server_instances"),s)
    else
      some (.ok (),s.insertEventInstance t instanceID row)
  | .findReadyIDs, s =>
    let ids := (s.serverInstances.rows.filter ServerInstance.ready).map ServerInstance.id
    if (ch.orderIDs ids).Perm ids then
      some (.ok (ch.orderIDs ids),s.record t instanceID [.ready (ch.orderIDs ids)])
    else
      none
  | .findEventsOf instanceIDs, s =>
    let ids := s.eventsOf instanceIDs
    if (ch.orderIDs ids).Perm ids then
      some (.ok (ch.orderIDs ids),s.record t instanceID [.selected (ch.orderIDs ids)])
    else
      none
  | .deleteStatusEvents ids, s => some (.ok (),s.deleteStatusEvents t instanceID ids)
  | .saveInstance row, s =>
    some (.ok (),{ s with serverInstances := s.serverInstances.save row })
  | .markInstances ids ready, s =>
    some (.ok (),{ s with
      serverInstances := s.serverInstances.map (.mark ids ready) (ServerInstance.mark_id ids ready) })
  | .newUUID, s => some (ch.base.uuid,s)
  | .register client, s =>
    let hub := s.hubs instanceID
    if hub.reading then none
    else some ((),(s.setHub instanceID { hub with clients := hub.clients.save client }).record t
      instanceID [.registered client])
  | .unregister id, s =>
    let hub := s.hubs instanceID
    if hub.reading then none
    else some ((),(s.setHub instanceID { hub with clients := hub.clients.erase id }).record t
      instanceID [.unregistered id])
  | .receive, s =>
    match (s.hubs instanceID).received with
    | none => none
    | some resource => some (resource,s.record t instanceID [.received resource])
  | .rLock, s =>
    let hub := s.hubs instanceID
    let clients := ch.orderClients hub.clients.rows
    if clients.Perm hub.clients.rows then
      some (clients,(s.setHub instanceID { hub with reading := true }).record t instanceID
        [.locked clients])
    else
      none
  | .hand client resource, s => some ((),s.record t instanceID [.handed client resource])
  | .rUnlock, s =>
    let hub := s.hubs instanceID
    some ((),(s.setHub instanceID { hub with reading := false, received := none }).record t
      instanceID [.unlocked])

/-- What a call of the services shows of the resources, and what it broadcasts. -/
def Call.statusActs (s : State) : (c : Call) → c.Resp → List StatusAct
  | .takeResource id, .ok _ => [.read (s.resources.find id).toList]
  | .takeResource id, .error err =>
    if err = .recordNotFound ∧ s.resources.find id = none then [.missedResource id]
    else [.refused err]
  | .findResourcesBySource source, .ok _ =>
    [.read (s.resources.rows.filter fun row => row.source = source)]
  | .broadcast resource, _ => [.sent resource]
  | _, _ => []

/-- The hubs after a call: `Broadcast` puts its resource into the hands of `Start`. -/
def Cluster.hubsAfter (s : Cluster) (instanceID : String) : Call → String → Hub
  | .broadcast resource =>
    Function.update s.hubs instanceID { s.hubs instanceID with received := some resource }
  | _ => s.hubs

/-- `Broadcast` waits until `Start` is back at the channel. -/
def Cluster.blocks (s : Cluster) (instanceID : String) : Call → Bool
  | .broadcast _ => (s.hubs instanceID).received.isSome
  | _ => false

/-- Execute a call in session `t` of an instance. -/
def clusterExec (instanceID : String) (t : ℕ) (ch : ClusterChoice) :
    (c : ClusterCall) → Cluster → Option (ClusterCall.Resp c × Cluster)
  | .inl c, s =>
    if s.blocks instanceID c then none
    else (exec t ch.base c s.state).map fun (r,state) =>
      (r,({ s with state := state, hubs := s.hubsAfter instanceID c }).record t instanceID
        (c.statusActs s.state r))
  | .inr c, s =>
    match (ch.fault c).bind fun err => (c.failure err).map (Prod.mk err) with
    | some (err,r) => some (r,s.record t instanceID [.refused err])
    | none => commitStatus instanceID t ch c s

end Maestro
