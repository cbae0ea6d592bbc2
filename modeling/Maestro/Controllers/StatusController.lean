import Maestro.Db.Cluster
import Maestro.Services.Resource

namespace Maestro
open Concurrent

/-- A statement of the pipeline whose error flags the transaction of the context. -/
def flaggingStatus {α : Type} (statement : StatusM (Except DbErr α)) : StatusM (Except DbErr α) := do
  match ← statement with
  | .error err =>
    (markForRollback err).inl
    return .error err
  | .ok a => return .ok a

namespace EventInstanceDao

def create (eventInstance : EventInstance) : StatusM (Except DbErr EventInstance) := do
  match ← flaggingStatus (performStatus (.createEventInstance eventInstance)) with
  | .error err => return .error err
  | .ok () => return .ok eventInstance

def getEventsAssociatedWithInstances (instanceIDs : List String) :
    StatusM (Except DbErr (List String)) := do
  if instanceIDs.length = 0 then
    return .ok []
  else
    performStatus (.findEventsOf instanceIDs)

end EventInstanceDao

namespace InstanceDao

def findReadyIDs : StatusM (Except DbErr (List String)) := performStatus .findReadyIDs

/-- `Create` and `Replace`. -/
def save (serverInstance : ServerInstance) : StatusM (Except DbErr Unit) :=
  flaggingStatus (performStatus (.saveInstance serverInstance))

/-- `MarkReadyByIDs` and `MarkUnreadyByIDs`. -/
def markByIDs (ids : List String) (ready : Bool) : StatusM (Except DbErr Unit) :=
  flaggingStatus (performStatus (.markInstances ids ready))

end InstanceDao

namespace StatusEventDao

def deleteAllEvents (eventIDs : List String) : StatusM (Except DbErr Unit) := do
  if eventIDs.length = 0 then
    return .ok ()
  else
    flaggingStatus (performStatus (.deleteStatusEvents eventIDs))

end StatusEventDao

namespace StatusEventService

def get (id : String) : StatusM (Except ServiceError StatusEvent) := do
  match ← performStatus (.takeStatusEvent id) with
  | .error err => return .error (handleGetError "StatusEvent" "id" id err)
  | .ok event => return .ok event

def deleteAllEvents (eventIDs : List String) : StatusM (Except ServiceError Unit) := do
  match ← StatusEventDao.deleteAllEvents eventIDs with
  | .error err => return .error (handleDeleteError "StatusEvent"
      (Errors.generalError ("Unable to delete events [" ++ " ".intercalate eventIDs ++ "]: " ++
        err.error)).error)
  | .ok () => return .ok ()

end StatusEventService

/-- `StatusHandlerFunc`. -/
abbrev StatusHandlerFunc := String → String → StatusM (Except String Unit)

/-- `StatusController.controllers`. -/
abbrev StatusControllers := List (StatusEventType × List StatusHandlerFunc)

def StatusEventType.text : StatusEventType → String
  | .statusUpdate => "StatusUpdate"
  | .statusDelete => "StatusDelete"

/-- `controllerSyncEventStatus`. -/
inductive SyncStatus
  | success
  | error
deriving DecidableEq

namespace StatusController

/-- The handlers in registration order, up to the first error. -/
def runHandlers (id resourceID : String) : List StatusHandlerFunc → StatusM (Except String Unit)
  | [] => return .ok ()
  | fn :: fns => do
    match ← fn id resourceID with
    | .error err => return .error err
    | .ok () => runHandlers id resourceID fns

def handleStatusEvent (controllers : StatusControllers) (id : String) :
    StatusM (Except String Unit) := do
  match ← StatusEventService.get id with
  | .error svcErr =>
    if svcErr.is404 then
      return .ok ()
    else
      return .error ("error getting status event with id(" ++ id ++ "): " ++ svcErr.error)
  | .ok statusEvent =>
    if statusEvent.reconciledDate.isSome then
      return .ok ()
    else
      match controllers.lookup statusEvent.statusEventType with
      | none => return .ok ()
      | some handlerFns =>
        match ← runHandlers id statusEvent.resourceID handlerFns with
        | .error err =>
          return .error ("error handling status event " ++ statusEvent.statusEventType.text ++
            ", " ++ id ++ ", " ++ statusEvent.resourceID ++ ": " ++ err)
        | .ok () => return .ok ()

/-- `processNextEvent` on the key that the queue returned, with the result of
`handleStatusEvent`. -/
def processNextEvent (controllers : StatusControllers) (queue : ℕ) (key : String) :
    StatusM (Except String Unit) := do
  let result ← handleStatusEvent controllers key
  match result with
  | .error _ => (perform (.queue queue .addRateLimited key)).inl
  | .ok () => (perform (.queue queue .forget key)).inl
  (perform (.queue queue .done key)).inl
  return result

/-- The loop of `batchStatusEventIDs` from index `i` on, for at most `fuel` rounds. -/
def batchLoop (statusEventIDs : List String) (batchSize : ℕ) : ℕ → ℕ → List (List String)
  | 0, _ => []
  | fuel+1, i =>
    if i < statusEventIDs.length then
      let last := if i + batchSize > statusEventIDs.length then statusEventIDs.length
        else i + batchSize
      (statusEventIDs.take last).drop i :: batchLoop statusEventIDs batchSize fuel (i + batchSize)
    else []

def batchStatusEventIDs (statusEventIDs : List String) (batchSize : ℕ) : List (List String) :=
  batchLoop statusEventIDs batchSize statusEventIDs.length 0

theorem batchLoop_spec {statusEventIDs : List String} {batchSize : ℕ} (h : 0 < batchSize)
    (fuel i : ℕ) (hf : statusEventIDs.length ≤ i + fuel) :
    (batchLoop statusEventIDs batchSize fuel i).flatten = statusEventIDs.drop i ∧
      ∀ batch ∈ batchLoop statusEventIDs batchSize fuel i,
        batch ≠ [] ∧ batch.length ≤ batchSize := by
  induction fuel generalizing i with
  | zero => simpa [batchLoop] using hf
  | succ fuel ih =>
    obtain ⟨hflat,hbatches⟩ := ih (i + batchSize) (by omega)
    rw [batchLoop]
    split
    · next hi =>
      dsimp only
      generalize hlast : (if i + batchSize > statusEventIDs.length then statusEventIDs.length
        else i + batchSize) = last
      have hbounds : i < last ∧ last ≤ i + batchSize ∧ last ≤ statusEventIDs.length := by
        split at hlast <;> omega
      have hrest : statusEventIDs.drop (i + batchSize) = statusEventIDs.drop last := by
        split at hlast
        · rw [List.drop_eq_nil_of_le (by omega),List.drop_eq_nil_of_le (by omega)]
        · rw [hlast]
      refine ⟨?_,?_⟩
      · rw [List.flatten_cons,hflat,hrest,List.drop_take]
        conv_rhs => rw [← List.take_append_drop (last - i) (statusEventIDs.drop i)]
        rw [List.drop_drop,show i + (last - i) = last by omega]
      · intro batch hm
        rcases List.mem_cons.mp hm with rfl | hm
        · refine ⟨List.ne_nil_of_length_pos ?_,?_⟩ <;>
            simp only [List.length_drop,List.length_take] <;> omega
        · exact hbatches batch hm
    · next hi => simp [List.drop_eq_nil_of_le (Nat.le_of_not_lt hi)]

/-- The batches in order are the IDs in order, and no batch is empty or too large. -/
theorem batchStatusEventIDs_spec (statusEventIDs : List String) (batchSize : ℕ)
    (h : 0 < batchSize) : (batchStatusEventIDs statusEventIDs batchSize).flatten = statusEventIDs ∧
      ∀ batch ∈ batchStatusEventIDs statusEventIDs batchSize,
        batch ≠ [] ∧ batch.length ≤ batchSize :=
  batchLoop_spec h _ 0 (by omega)

def deleteBatches : List (List String) → StatusM SyncStatus
  | [] => return .success
  | batch :: batches => do
    match ← StatusEventService.deleteAllEvents batch with
    | .error _ => return .error
    | .ok () => deleteBatches batches

def syncStatusEvents : StatusM SyncStatus := do
  match ← InstanceDao.findReadyIDs with
  | .error _ => return .error
  | .ok readyInstanceIDs =>
    match ← EventInstanceDao.getEventsAssociatedWithInstances readyInstanceIDs with
    | .error _ => return .error
    | .ok statusEventIDs => deleteBatches (batchStatusEventIDs statusEventIDs 500)

end StatusController

variable (ext : External)

/-- What `broadcastStatusEvent` broadcasts for a status event: the copy of a deleted resource,
or the resource as it is stored; `none` is a resource that is not found. -/
def statusResource (statusEvent : StatusEvent) (resourceID : String) :
    StatusM (Except String (Option Resource)) := do
  if statusEvent.statusEventType = .statusDelete then
    return .ok (some
      { id := resourceID
        version := 0
        consumerName := ""
        source := statusEvent.resourceSource
        type := statusEvent.resourceType
        payload := statusEvent.payload
        status := statusEvent.status })
  else
    match ← (ResourceService.get ext resourceID).inl with
    | .error sErr =>
      if sErr.is404 then
        return .ok none
      else
        return .error ("failed to get resource " ++ resourceID ++ ": " ++ sErr.error)
    | .ok resource => return .ok (some resource)

def broadcastStatusEvent (instanceID eventID resourceID : String) :
    StatusM (Except String Unit) := do
  match ← StatusEventService.get eventID with
  | .error sErr => return .error ("failed to get status event " ++ eventID ++ ": " ++ sErr.error)
  | .ok statusEvent =>
    match ← statusResource ext statusEvent resourceID with
    | .error err => return .error err
    | .ok none => return .ok ()
    | .ok (some resource) =>
      (perform (.broadcast resource)).inl
      match ← EventInstanceDao.create ⟨eventID,instanceID⟩ with
      | .error err => return .error err.error
      | .ok _ => return .ok ()

/-- The controllers that `NewControllersServer` registers on an instance. -/
def statusControllers (instanceID : String) : StatusControllers :=
  [(.statusUpdate,[broadcastStatusEvent ext instanceID]),
    (.statusDelete,[broadcastStatusEvent ext instanceID])]

end Maestro
