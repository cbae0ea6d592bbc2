import Maestro.Services.Resource

namespace Maestro
open Concurrent

/-- `ControllerHandlerFunc`. -/
abbrev ControllerHandlerFunc := String → M (Except String Unit)

/-- `KindControllerManager.controllers`: the registered handlers by source and type. -/
abbrev Controllers := List (String × List (EventType × List ControllerHandlerFunc))

/-- `EventFilter`. The lock based one carries its `locks` map: each function that
changes the map returns the filter with the new one. -/
inductive EventFilter
  | lockBased (locks : List (String × String))
  | predicated (predicate : String → M (Except String Bool))

namespace EventFilter

/-- `Filter`. The lock owner is stored whether or not the lock was obtained. -/
def filter (h : EventFilter) (id : String) : M (Except String Bool × EventFilter) := do
  match h with
  | .lockBased locks =>
    let (lockOwnerID,acquired,err) ← newNonBlockingLock id .events
    let h := .lockBased ((id,lockOwnerID) :: locks.filter fun p => p.1 ≠ id)
    match err with
    | some err => return (.error ("error obtaining the event lock: " ++ err.error),h)
    | none => return (.ok acquired,h)
  | .predicated predicate =>
    let result ← predicate id
    return (result,h)

def deferredAction (h : EventFilter) (id : String) : M EventFilter := do
  match h with
  | .lockBased locks =>
    match locks.find? fun p => p.1 = id with
    | none => return h
    | some (_,ownerID) =>
      unlock ownerID
      return .lockBased (locks.filter fun p => p.1 ≠ id)
  | .predicated _ => return h

end EventFilter

def EventType.text : EventType → String
  | .create => "Create"
  | .update => "Update"
  | .delete => "Delete"

/-- The handlers in registration order, up to the first error. -/
def runHandlers (sourceID : String) : List ControllerHandlerFunc → M (Except String Unit)
  | [] => return .ok ()
  | fn :: fns => do
    match ← fn sourceID with
    | .error err => return .error err
    | .ok () => runHandlers sourceID fns

/-- What `handleEvent` does with an event that its filter lets pass. -/
def processEvent (controllers : Controllers) (id : String) : M (Except String Bool) := do
  match ← EventService.get id with
  | .error svcErr =>
    if svcErr.is404 then
      return .ok true
    else
      return .error ("error getting event with id (" ++ id ++ "): " ++ svcErr.error)
  | .ok event =>
    if event.reconciledDate.isSome then
      return .ok true
    else
      match controllers.lookup event.source with
      | none => return .ok true
      | some source =>
        match source.lookup event.eventType with
        | none => return .ok true
        | some handlerFns =>
          match ← runHandlers event.sourceID handlerFns with
          | .error err =>
            return .error ("error handing event " ++ event.source ++ "-" ++
              event.eventType.text ++ " (" ++ id ++ "): " ++ err)
          | .ok () =>
            let now ← timeNow
            match ← EventService.replace { event with reconciledDate := some now } with
            | .error svcErr =>
              return .error ("error updating event with id (" ++ id ++ "): " ++ svcErr.error)
            | .ok _ => return .ok true

/-- `handleEvent`: whether the event needs no more work, and the filter afterwards. -/
def handleEvent (controllers : Controllers) (h : EventFilter) (id : String) :
    M (Except String Bool × EventFilter) := do
  let (shouldProcess,h) ← h.filter id
  let result ← match shouldProcess with
    | .error err =>
      pure (.error ("error filtering event with id (" ++ id ++ "): " ++ err))
    | .ok false => pure (.ok false)
    | .ok true => processEvent controllers id
  let h ← h.deferredAction id
  return (result,h)

/-- `processNextEvent` on the key that the queue returned. -/
def processNextEvent (controllers : Controllers) (queue : ℕ) (h : EventFilter) (key : String) :
    M EventFilter := do
  let (result,h) ← handleEvent controllers h key
  match result with
  | .ok true => perform (.queue queue .forget key)
  | _ => perform (.queue queue .addRateLimited key)
  perform (.queue queue .done key)
  return h

def addAll (queue : ℕ) : List Event → M Unit
  | [] => return ()
  | event :: events => do
    perform (.queue queue .add event.id)
    addAll queue events

/-- `syncEvents`. -/
def syncEvents (queue : ℕ) : M Unit := do
  match ← EventService.deleteAllReconciledEvents with
  | .error _ => return ()
  | .ok () =>
    match ← EventService.findAllUnreconciledEvents with
    | .error _ => return ()
    | .ok unreconciledEvents => addAll queue unreconciledEvents

/-- `StaleDeleteDetector.Run`. -/
def staleDeleteDetectorRun (threshold : Time) : M Unit := do
  let (lockOwnerID,acquired,err) ← newNonBlockingLock "maestro-stale-delete-check" .instances
  Prog.deferring (unlock lockOwnerID) do
    match err with
    | some _ => return ()
    | none =>
      if acquired then
        let _ ← EventService.reconcileStaleDeleteEvents threshold
        return ()
      else
        return ()

end Maestro
