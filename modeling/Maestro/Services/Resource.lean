import Maestro.Services.Events
import Maestro.Services.Sequence
import Maestro.Services.Validation

namespace Maestro.ResourceService
open Concurrent

variable (ext : External)

def get (id : String) : M (Except ServiceError Resource) := do
  match ← ResourceDao.get id with
  | .error err => return .error (handleGetError "Resource" "id" id err)
  | .ok resource => return .ok (syncTimestampsFromResourceMeta ext resource)

/-- The last part of every spec write: its event, whose error is reported by the
handler of that write. -/
def announce {α : Type} (event : Event) (handleError : String → String → ServiceError)
    (result : α) : M (Except ServiceError α) := do
  match ← EventService.create event with
  | .error err => return .error (handleError "Resource" err.error)
  | .ok _ => return .ok result

/-- The checks of `Create` before its first statement. -/
def validateCreate (resource : Resource) : Except ServiceError Unit :=
  match if resource.name ≠ "" then validateResourceName ext resource else .ok () with
  | .error err =>
    .error (Errors.validation ("the name in the resource is invalid, " ++ err))
  | .ok () =>
    match validateManifestBundle ext resource.payload with
    | .error err =>
      .error (Errors.validation ("the manifest bundle in the resource is invalid, " ++ err))
    | .ok () => .ok ()

def createEvent (id : String) : Event :=
  { source := "Resources", sourceID := id, eventType := .create }

def create (resource : Resource) : M (Except ServiceError Resource) := do
  match validateCreate ext resource with
  | .error err => return .error err
  | .ok () =>
    match ← ResourceDao.create resource with
    | .error err => return .error (handleCreateError "Resource" err.error)
    | .ok resource => announce (createEvent resource.id) handleCreateError resource

/-- Lock, run `body` unless locking failed, unlock at the end. -/
def withAdvisoryLock {α : Type} (id : String) (lockType : LockType)
    (body : M (Except ServiceError α)) : M (Except ServiceError α) := do
  let (lockOwnerID,lockErr) ← newAdvisoryLock id lockType
  Prog.deferring (unlock lockOwnerID) do
    match lockErr with
    | some err => return .error (Errors.databaseAdvisoryLock err)
    | none => body

/-- The checks of `Update` on the row it found, under the lock: `some` ends the call. -/
def checkUpdate (resource found : Resource) : Option (Except ServiceError Resource) :=
  if found.deletedAt.time.isSome then
    some (.error (Errors.conflict ("the resource is under deletion, id: " ++ resource.id)))
  else if found.version ≠ resource.version then
    some (.error (Errors.conflict
      ("the resource version is not the latest, the latest version: " ++ toString found.version)))
  else if resource.payload = found.payload then
    -- the new manifest is not changed, the update action is not needed
    some (.ok found)
  else
    match validateManifestBundle ext resource.payload with
    | .error err => some (.error (Errors.validation
        ("the new manifest bundle in the resource is invalid, " ++ err)))
    | .ok () => none

/-- The struct that `Update` writes: the next version with the new manifest. -/
def nextVersion (found : Resource) (payload : JSONMap) : Resource :=
  { found with version := found.version + 1, payload := payload }

def updateEvent (id : String) : Event :=
  { source := "Resources", sourceID := id, eventType := .update }

def update (resource : Resource) : M (Except ServiceError Resource) :=
  withAdvisoryLock resource.id .resources do
    match ← ResourceDao.get resource.id with
    | .error err => return .error (handleGetError "Resource" "id" resource.id err)
    | .ok found =>
      match checkUpdate ext resource found with
      | some result => return result
      | none =>
        match ← ResourceDao.update (nextVersion found resource.payload) with
        | .error err => return .error (handleUpdateError "Resource" err.error)
        | .ok updated => announce (updateEvent updated.id) handleUpdateError updated

/-- The sequence ID of a status, with the two errors that reading it can give. -/
def sequenceIDOf (status : JSONMap) (what : String) : Except ServiceError String :=
  match jsonMapToCloudEvent ext status with
  | .error err => .error (Errors.generalError
      ("Unable to convert resource status to cloudevent: " ++ err))
  | .ok evt =>
    match ext.toString (evt.extension extensionStatusUpdateSequenceID) with
    | .error err => .error (Errors.generalError
        ("Unable to get sequence ID from " ++ what ++ ": " ++ err))
    | .ok sequenceID => .ok sequenceID

/-- Whether a status differs from the stored one and has a newer sequence ID. -/
def newerStatus (status foundStatus : JSONMap) : Except ServiceError Bool :=
  if status = foundStatus then
    .ok false
  else
    match sequenceIDOf ext status "resource status" with
    | .error err => .error err
    | .ok sequenceID =>
      match if foundStatus.len ≠ 0 then sequenceIDOf ext foundStatus "found resource status"
          else .ok "" with
      | .error err => .error err
      | .ok foundSequenceID =>
        match compareSequenceIDs ext sequenceID foundSequenceID with
        | .error err => .error (Errors.generalError
            ("Unable to compare sequence IDs: " ++ err.error))
        | .ok newer => .ok newer

/-- Whether `UpdateStatus` stores the status, decided on the row it found under
the lock: `false` is a status of another version, an unchanged or an older one. -/
def acceptsStatus (resource found : Resource) : Except ServiceError Bool :=
  if found.version ≠ resource.version then .ok false
  else newerStatus ext resource.status found.status

/-- `UpdateStatus`: the row, and whether the status was stored. -/
def updateStatus (resource : Resource) : M (Except ServiceError (Resource × Bool)) :=
  withAdvisoryLock resource.id .resourceStatus do
    match ← ResourceDao.get resource.id with
    | .error err => return .error (handleGetError "Resource" "id" resource.id err)
    | .ok found =>
      match acceptsStatus ext resource found with
      | .error err => return .error err
      | .ok false => return .ok (found,false)
      | .ok true =>
        match ← ResourceDao.updateStatus { found with status := resource.status } with
        | .error err => return .error (handleUpdateError "Resource" err.error)
        | .ok updated => return .ok (updated,true)

def deleteEvent (id : String) : Event :=
  { source := "Resources", sourceID := id, eventType := .delete }

/-- Whether the latest delete event is younger than the republish interval. The
clock is read only when there is an event to compare with. -/
def recentlyPublished (interval : Time) : Option Event → M Bool
  | none => return false
  | some latest => do
    let now ← timeNow
    return decide (now - latest.createdAt < interval)

/-- `republishDeleteEvent`, for a resource that stays soft-deleted. -/
def republishDeleteEvent (interval : Time) (id : String) : M (Except ServiceError Unit) := do
  if interval ≤ 0 then
    return .ok ()
  else
    match ← EventService.findLatestDeleteEvent id with
    | .error _ => return .ok ()
    | .ok latest =>
      if ← recentlyPublished interval latest then
        return .ok ()
      else
        announce (deleteEvent id) handleDeleteError ()

/-- The error of a delete statement, as `MarkAsDeleting` and `Delete` report it. -/
def handleDeleteStatementError (err : DbErr) : ServiceError :=
  handleDeleteError "Resource"
    (Errors.generalError ("Unable to delete resource: " ++ err.error)).error

def markAsDeleting (interval : Time) (id : String) : M (Except ServiceError Unit) :=
  withAdvisoryLock id .resources do
    match ← ResourceDao.get id with
    | .error getErr =>
      let svcErr := handleGetError "Resource" "id" id getErr
      if svcErr.is404 then return .ok () else return .error svcErr
    | .ok existing =>
      if existing.deletedAt.valid then
        republishDeleteEvent interval id
      else
        match ← ResourceDao.delete id false with
        | .error err => return .error (handleDeleteStatementError err)
        | .ok () => announce (deleteEvent id) handleDeleteError ()

/-- `Delete`, the hard delete. -/
def delete (id : String) : M (Except ServiceError Unit) := do
  match ← ResourceDao.delete id true with
  | .error err => return .error (handleDeleteStatementError err)
  | .ok () => return .ok ()

def findBySource (source : String) : M (Except ServiceError (List Resource)) := do
  match ← ResourceDao.findBySource source with
  | .error err => return .error (handleGetError "Resource" "source" source err)
  | .ok resources => return .ok resources

end Maestro.ResourceService
