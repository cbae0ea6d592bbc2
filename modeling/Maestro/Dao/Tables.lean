import Maestro.Db.Store

namespace Maestro
open Concurrent

/-- `LockFactory.NewAdvisoryLock`, the blocking lock. -/
def newAdvisoryLock (id : String) (lockType : LockType) : M (String × Option DbErr) :=
  perform (.newAdvisoryLock id lockType)

def newNonBlockingLock (id : String) (lockType : LockType) : M (String × Bool × Option DbErr) :=
  perform (.newNonBlockingLock id lockType)

def unlock (uuid : String) : M Unit :=
  if uuid = "" then
    return ()
  else
    perform (.unlock uuid)

def markForRollback (err : DbErr) : M Unit := perform (.markForRollback err)

def timeNow : M Time := perform .now

/-- A statement whose error flags the transaction of the context. -/
def flagging {α : Type} (statement : M (Except DbErr α)) : M (Except DbErr α) := do
  match ← statement with
  | .error err =>
    markForRollback err
    return .error err
  | .ok a => return .ok a

namespace ResourceDao

def get (id : String) : M (Except DbErr Resource) := perform (.takeResource id)

def create (resource : Resource) : M (Except DbErr Resource) :=
  flagging (perform (.createResource resource))

def update (resource : Resource) : M (Except DbErr Resource) := do
  match ← flagging (perform (.updateResource resource.id resource.version resource.payload)) with
  | .error err => return .error err
  | .ok () => return .ok resource

def updateStatus (resource : Resource) : M (Except DbErr Resource) := do
  match ← flagging (perform (.updateResourceStatus resource.id resource.status)) with
  | .error err => return .error err
  | .ok () => return .ok resource

def delete (id : String) (unscoped : Bool) : M (Except DbErr Unit) :=
  flagging (perform (.deleteResource id unscoped))

def findBySource (source : String) : M (Except DbErr (List Resource)) :=
  perform (.findResourcesBySource source)

end ResourceDao

namespace EventDao

def get (id : String) : M (Except DbErr Event) := perform (.takeEvent id)

def create (event : Event) : M (Except DbErr Event) := do
  match ← flagging (perform (.createEvent event)) with
  | .error err => return .error err
  | .ok event =>
    match ← perform (.notify "events" event.id) with
    | .error err => return .error err
    | .ok () => return .ok event

def replace (event : Event) : M (Except DbErr Event) := do
  match ← flagging (perform (.saveEvent event)) with
  | .error err => return .error err
  | .ok () => return .ok event

def deleteAllReconciledEvents : M (Except DbErr Unit) :=
  flagging (perform .deleteReconciledEvents)

def findAllUnreconciledEvents : M (Except DbErr (List Event)) :=
  perform .findUnreconciledEvents

def reconcileStaleDeleteEvents (cutoff : Time) : M (Except DbErr ℕ) := do
  let now ← timeNow
  flagging (perform (.reconcileStaleDeleteEvents cutoff now))

/-- No delete event is no error here. -/
def findLatestDeleteEvent (sourceID : String) : M (Except DbErr (Option Event)) := do
  match ← perform (.findLatestDeleteEvent sourceID) with
  | .error .recordNotFound => return .ok none
  | .error err => return .error err
  | .ok event => return .ok (some event)

end EventDao

namespace StatusEventDao

def create (statusEvent : StatusEvent) : M (Except DbErr StatusEvent) := do
  match ← flagging (perform (.createStatusEvent statusEvent)) with
  | .error err => return .error err
  | .ok statusEvent =>
    match ← perform (.notify "status_events" statusEvent.id) with
    | .error err => return .error err
    | .ok () => return .ok statusEvent

end StatusEventDao

end Maestro
