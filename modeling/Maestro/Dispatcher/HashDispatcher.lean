import Maestro.Api.Consumer
import Maestro.Concurrent.Interleaving
import Maestro.Data.Search
import Maestro.Data.WorkQueue
import Maestro.Db.Cluster

/-!
# The hash dispatcher of one instance

`HashDispatcher` with the goroutines that share it: the periodic `check`, the resync
workers, the reconnection loop and the subscription of the event server. Every operation on
the ring, the consumer set and the work queue is one step, as is every query and every
message. The log records what they did; no function reads it.
-/

namespace Maestro
open Data Concurrent

/-- The placement of keys by `consistent.Consistent`, as a function of its members. -/
structure HashRing where
  locateKey : Finset String → String → String
  locateKey_mem : ∀ {members : Finset String} (key : String), members.Nonempty →
    locateKey members key ∈ members

inductive DispatcherAct
  | listedInstances (instances : List ServerInstance)
  | listedConsumers (consumers : List Consumer)
  /-- A query failed. -/
  | refused (err : DbErr)
  | enqueued (name : String)
  | appended (names : List String)
  | removed (names : List String)
  | took (name : String)
  | resynced (names : List String)
  | looked (name : String) (owned : Bool)
  | handled (resourceID : String)
deriving DecidableEq

structure DispatcherEntry where
  session : ℕ
  act : DispatcherAct
deriving DecidableEq

/-- What the goroutines of one instance share. The lists `members` and `consumerSet` stand
for sets. -/
structure HashDispatcher where
  members : List String := []
  consumerSet : List String := []
  workQueue : WorkQueue String := {}
  log : List DispatcherEntry := []
deriving DecidableEq

namespace HashDispatcher

def record (d : HashDispatcher) (session : ℕ) (act : DispatcherAct) : HashDispatcher :=
  { d with log := d.log ++ [⟨session,act⟩] }

/-- `Dispatch`. -/
def dispatch (d : HashDispatcher) (consumerName : String) : Bool :=
  decide (consumerName ∈ d.consumerSet)

end HashDispatcher

inductive DispatcherCall
  | allInstances
  | allConsumers
  | getMembers
  | addMember (member : String)
  | removeMember (member : String)
  | locateKey (key : String)
  | contains (name : String)
  | toSlice
  | append (names : List String)
  | removeAll (names : List String)
  | add (key : String)
  | get
  | done (key : String)
  | forget (key : String)
  | addRateLimited (key : String)
  /-- The rate limiter lets a key go. -/
  | expire (key : String)
  | resync (consumers : List String)
  | handleStatusUpdate (resourceID : String)
deriving DecidableEq

abbrev DispatcherCall.Resp : DispatcherCall → Type
  | .allInstances => Except DbErr (List ServerInstance)
  | .allConsumers => Except DbErr (List Consumer)
  | .getMembers => List String
  | .locateKey _ => String
  | .contains _ => Bool
  | .toSlice => List String
  | .get => Option String
  | .resync _ => Except String Unit
  | .handleStatusUpdate _ => Except String Unit
  | .addMember _ | .removeMember _ | .append _ | .removeAll _ | .add _ | .done _ | .forget _
  | .addRateLimited _ | .expire _ => Unit

abbrev DispatcherM := Prog DispatcherCall DispatcherCall.Resp

/-- The program of one call. -/
abbrev ask (c : DispatcherCall) : DispatcherM c.Resp := Prog.lift c

/-- What the environment decides for one call: the answers of the database and of the
broker, and whether the queue is shut down. -/
structure DispatcherChoice where
  instances : Except DbErr (List ServerInstance) := .ok []
  consumers : Except DbErr (List Consumer) := .ok []
  shutdown : Bool := false
  remote : Except String Unit := .ok ()

/-- Execute a call in session `t`. `none` is a call that waits. -/
def dispatcherExec (ring : HashRing) (t : ℕ) (ch : DispatcherChoice) :
    (c : DispatcherCall) → HashDispatcher → Option (c.Resp × HashDispatcher)
  | .allInstances, d =>
    match ch.instances with
    | .ok instances => some (.ok instances,d.record t (.listedInstances instances))
    | .error err => some (.error err,d.record t (.refused err))
  | .allConsumers, d =>
    match ch.consumers with
    | .ok consumers => some (.ok consumers,d.record t (.listedConsumers consumers))
    | .error err => some (.error err,d.record t (.refused err))
  | .getMembers, d => some (d.members,d)
  | .addMember member, d => some ((),{ d with members := d.members.insert member })
  | .removeMember member, d =>
    some ((),{ d with members := d.members.filter fun other => other ≠ member })
  | .locateKey key, d => some (ring.locateKey d.members.toFinset key,d)
  | .contains name, d => some (d.dispatch name,d.record t (.looked name (d.dispatch name)))
  | .toSlice, d => some (d.consumerSet,d)
  | .append names, d =>
    some ((),{ d with consumerSet := names ∪ d.consumerSet }.record t (.appended names))
  | .removeAll names, d =>
    let consumerSet := d.consumerSet.filter fun name => name ∉ names
    some ((),{ d with consumerSet := consumerSet }.record t (.removed names))
  | .add key, d => some ((),{ d with workQueue := d.workQueue.add key }.record t (.enqueued key))
  | .get, d =>
    if ch.shutdown then
      some (none,d)
    else
      d.workQueue.get.map fun p => (some p.1,{ d with workQueue := p.2 }.record t (.took p.1))
  | .done key, d => some ((),{ d with workQueue := d.workQueue.done key })
  | .forget _, d => some ((),d)
  | .addRateLimited key, d => some ((),{ d with workQueue := d.workQueue.addAfter key })
  | .expire key, d =>
    (d.workQueue.expire key).map fun workQueue => ((),{ d with workQueue := workQueue })
  | .resync consumers, d => some (ch.remote,d.record t (.resynced consumers))
  | .handleStatusUpdate resourceID, d => some (ch.remote,d.record t (.handled resourceID))

namespace HashDispatcher

section Programs

variable (instanceID : String)

/-- The loop of `updateConsumerSet`. -/
def sortConsumers : List Consumer → List String → List String →
    DispatcherM (List String × List String)
  | [], toAddConsumers, toRemoveConsumers => return (toAddConsumers,toRemoveConsumers)
  | consumer :: rest, toAddConsumers, toRemoveConsumers => do
    let located ← ask (.locateKey consumer.name)
    if located = instanceID then
      if !(← ask (.contains consumer.name)) then
        ask (.add consumer.name)
        sortConsumers rest (toAddConsumers ++ [consumer.name]) toRemoveConsumers
      else
        sortConsumers rest toAddConsumers toRemoveConsumers
    else
      if ← ask (.contains consumer.name) then
        sortConsumers rest toAddConsumers (toRemoveConsumers ++ [consumer.name])
      else
        sortConsumers rest toAddConsumers toRemoveConsumers

def updateConsumerSet : DispatcherM (Except String Unit) := do
  let members ← ask .getMembers
  if members.length = 0 then
    return .ok ()
  else
    match ← ask .allConsumers with
    | .error err => return .error ("unable to list consumers: " ++ err.error)
    | .ok consumers =>
      let (toAddConsumers,toRemoveConsumers) ← sortConsumers instanceID consumers [] []
      ask (.append toAddConsumers)
      ask (.removeAll toRemoveConsumers)
      return .ok ()

def addMembers : List String → DispatcherM Unit
  | [] => return ()
  | member :: rest => do
    ask (.addMember member)
    addMembers rest

def removeMembers : List String → DispatcherM Unit
  | [] => return ()
  | member :: rest => do
    ask (.removeMember member)
    removeMembers rest

/-- The IDs of the instances that are ready. -/
def readyInstances (instances : List ServerInstance) : List String :=
  (instances.filter ServerInstance.ready).map ServerInstance.id

def check : DispatcherM Unit := do
  match ← ask .allInstances with
  | .error _ => return ()
  | .ok instances =>
    let members ← ask .getMembers
    addMembers ((readyInstances instances).filter fun id => id ∉ members)
    removeMembers (members.filter fun id => id ∉ readyInstances instances)
    let _ ← updateConsumerSet instanceID
    return ()

def processNextResync : DispatcherM Bool := do
  match ← ask .get with
  | none => return false
  | some consumerName =>
    Prog.deferring (ask (.done consumerName)) do
      match ← ask (.resync [consumerName]) with
      | .error _ => ask (.addRateLimited consumerName)
      | .ok () => ask (.forget consumerName)
      return true

/-- The function that `startSubscription` gives to the source client. -/
def receiveStatus (resourceID consumerName : String) : DispatcherM (Except String Unit) := do
  if !(← ask (.contains consumerName)) then
    return .ok ()
  else
    match ← ask (.handleStatusUpdate resourceID) with
    | .error err =>
      return .error ("failed to handle resource status update " ++ resourceID ++ ": " ++ err)
    | .ok () => return .ok ()

/-- The goroutines of the dispatcher, each for a number of rounds. -/
inductive Task
  | checking (rounds : ℕ)
  | worker (rounds : ℕ)
  | reconnecting (rounds : ℕ)
  | receiving (messages : List (String × String))
  | limiter (keys : List String)

def checking : ℕ → DispatcherM Unit
  | 0 => return ()
  | n+1 => do
    check instanceID
    checking n

def worker : ℕ → DispatcherM Unit
  | 0 => return ()
  | n+1 => do
    if ← processNextResync then worker n else return ()

def resyncOnReconnect : ℕ → DispatcherM Unit
  | 0 => return ()
  | n+1 => do
    let consumers ← ask .toSlice
    let _ ← ask (.resync consumers)
    resyncOnReconnect n

def receiving : List (String × String) → DispatcherM Unit
  | [] => return ()
  | (resourceID,consumerName) :: rest => do
    let _ ← receiveStatus resourceID consumerName
    receiving rest

def limiter : List String → DispatcherM Unit
  | [] => return ()
  | key :: rest => do
    ask (.expire key)
    limiter rest

def Task.program : Task → DispatcherM Unit
  | .checking rounds => HashDispatcher.checking instanceID rounds
  | .worker rounds => HashDispatcher.worker rounds
  | .reconnecting rounds => resyncOnReconnect rounds
  | .receiving messages => HashDispatcher.receiving messages
  | .limiter keys => HashDispatcher.limiter keys

end Programs

end HashDispatcher

end Maestro
