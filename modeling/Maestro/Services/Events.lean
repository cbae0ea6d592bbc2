import Maestro.Dao.Tables

namespace Maestro
open Concurrent

/-- Field names suspected to contain personally identifiable information. -/
def piiFields : List String := ["username","first_name","last_name","email","address"]

def handleGetError (resourceType field value : String) (err : DbErr) : ServiceError :=
  let value := if field ∈ piiFields then "<redacted>" else value
  match err with
  | .recordNotFound =>
    Errors.notFound (resourceType ++ " with " ++ field ++ "='" ++ value ++ "' not found")
  | err => Errors.generalError ("Unable to find " ++ resourceType ++ " with " ++ field ++ "='" ++
      value ++ "': " ++ err.error)

def handleCreateError (resourceType err : String) : ServiceError :=
  if contains err "violates unique constraint" then
    Errors.conflict ("This " ++ resourceType ++ " already exists")
  else
    Errors.generalError ("Unable to create " ++ resourceType ++ ": " ++ err)

def handleUpdateError (resourceType err : String) : ServiceError :=
  if contains err "violates unique constraint" then
    Errors.conflict ("Changes to " ++ resourceType ++ " conflict with existing records")
  else
    Errors.generalError ("Unable to update " ++ resourceType ++ ": " ++ err)

def handleDeleteError (resourceType err : String) : ServiceError :=
  if contains err "violates foreign key constraint" then
    Errors.forbidden ("Unable to delete " ++ resourceType ++ ": " ++ err)
  else
    Errors.generalError ("Unable to delete " ++ resourceType ++ ": " ++ err)

namespace EventService

def get (id : String) : M (Except ServiceError Event) := do
  match ← EventDao.get id with
  | .error err => return .error (handleGetError "Event" "id" id err)
  | .ok event => return .ok event

def create (event : Event) : M (Except ServiceError Event) := do
  match ← EventDao.create event with
  | .error err => return .error (handleCreateError "Event" err.error)
  | .ok event => return .ok event

def replace (event : Event) : M (Except ServiceError Event) := do
  match ← EventDao.replace event with
  | .error err => return .error (handleUpdateError "Event" err.error)
  | .ok event => return .ok event

def findAllUnreconciledEvents : M (Except ServiceError (List Event)) := do
  match ← EventDao.findAllUnreconciledEvents with
  | .error err =>
    return .error (Errors.generalError ("Unable to get unreconciled events: " ++ err.error))
  | .ok events => return .ok events

def deleteAllReconciledEvents : M (Except ServiceError Unit) := do
  match ← EventDao.deleteAllReconciledEvents with
  | .error err => return .error (handleDeleteError "Event"
      (Errors.generalError ("Unable to delete reconciled events: " ++ err.error)).error)
  | .ok () => return .ok ()

def findLatestDeleteEvent (sourceID : String) : M (Except ServiceError (Option Event)) := do
  match ← EventDao.findLatestDeleteEvent sourceID with
  | .error err => return .error (Errors.generalError
      ("Unable to get latest delete event for resource " ++ sourceID ++ ": " ++ err.error))
  | .ok event => return .ok event

def reconcileStaleDeleteEvents (threshold : Time) : M (Except ServiceError ℕ) := do
  let now ← timeNow
  match ← EventDao.reconcileStaleDeleteEvents (now - threshold) with
  | .error err =>
    return .error (Errors.generalError
      ("Unable to reconcile stale delete events: " ++ err.error))
  | .ok count => return .ok count

end EventService

namespace StatusEventService

def create (statusEvent : StatusEvent) : M (Except ServiceError StatusEvent) := do
  match ← StatusEventDao.create statusEvent with
  | .error err => return .error (handleCreateError "StatusEvent" err.error)
  | .ok event => return .ok event

end StatusEventService

end Maestro
