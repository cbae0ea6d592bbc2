import Maestro.Controllers.Framework

namespace Maestro
open Concurrent

variable (ext : External)

/-- `NewInternalError`. -/
def internalError (err : String) : String := "Internal error occurred: " ++ err

/-- An error of the broker behind the event server, as a text. -/
def publishErr : Except DbErr Unit → Except String Unit
  | .error err => .error err.error
  | .ok () => .ok ()

namespace SourceClient

/-- `OnCreate` and `OnUpdate` skip a resource that is marked as deleting. -/
def onWrite (action : EventAction) : ControllerHandlerFunc := fun id => do
  match ← ResourceService.get ext id with
  | .error err =>
    if err.is404 then
      return .ok ()
    else
      return .error err.error
  | .ok resource =>
    if resource.deletedAt.time.isSome then
      return .ok ()
    else
      let sent ← perform (.publish action resource)
      return publishErr sent

def onCreate : ControllerHandlerFunc := onWrite ext .createRequest

def onUpdate : ControllerHandlerFunc := onWrite ext .updateRequest

def onDelete : ControllerHandlerFunc := fun id => do
  match ← ResourceService.get ext id with
  | .error err =>
    if err.is404 then
      return .ok ()
    else
      return .error err.error
  | .ok resource =>
    if resource.deletedAt.time.isNone then
      return .error ("resource " ++ resource.id ++ " has not been marked as deleting")
    else
      let sent ← perform (.publish .deleteRequest resource)
      return publishErr sent

end SourceClient

namespace GRPCBroker

def onWrite (action : EventAction) : ControllerHandlerFunc := fun resourceID => do
  match ← ResourceService.get ext resourceID with
  | .error svcErr =>
    if svcErr.is404 then
      return .ok ()
    else
      return .error (internalError svcErr.error)
  | .ok resource =>
    if resource.deletedAt.time.isSome then
      return .ok ()
    else
      let sent ← perform (.publish action resource)
      return publishErr sent

def onCreate : ControllerHandlerFunc := onWrite ext .createRequest

def onUpdate : ControllerHandlerFunc := onWrite ext .updateRequest

/-- `OnDelete` asks for no deletion mark, unlike the source client's. -/
def onDelete : ControllerHandlerFunc := fun resourceID => do
  match ← ResourceService.get ext resourceID with
  | .error svcErr =>
    if svcErr.is404 then
      return .ok ()
    else
      return .error (internalError svcErr.error)
  | .ok resource =>
    let sent ← perform (.publish .deleteRequest resource)
    return publishErr sent

/-- `PredicateEvent`. -/
def predicateEvent (eventID : String) : M (Except String Bool) := do
  match ← EventService.get eventID with
  | .error err => return .error ("failed to get event " ++ eventID ++ ": " ++ err.error)
  | .ok evt =>
    if evt.reconciledDate.isSome then
      return .ok false
    else
      match ← ResourceService.get ext evt.sourceID with
      | .error svcErr =>
        if svcErr.is404 then
          let now ← timeNow
          match ← EventService.replace { evt with reconciledDate := some now } with
          | .error svcErr =>
            return .error ("failed to mark event with id (" ++ evt.id ++ ") as reconciled: " ++
              svcErr.error)
          | .ok _ => return .ok false
        else
          return .error ("failed to get resource " ++ evt.sourceID ++ ": " ++ svcErr.error)
      | .ok resource =>
        let subscribed ← perform (.subscribers resource.consumerName)
        return .ok subscribed

end GRPCBroker

/-- The controllers that `NewControllersServer` registers for an event server. -/
def resourceControllers (onCreate onUpdate onDelete : ControllerHandlerFunc) : Controllers :=
  [("Resources",[(.create,[onCreate]),(.update,[onUpdate]),(.delete,[onDelete])])]

/-- The controllers of `SourceClientImpl`. -/
def sourceControllers : Controllers :=
  resourceControllers (SourceClient.onCreate ext) (SourceClient.onUpdate ext)
    (SourceClient.onDelete ext)

def brokerControllers : Controllers :=
  resourceControllers (GRPCBroker.onCreate ext) (GRPCBroker.onUpdate ext) (GRPCBroker.onDelete ext)

end Maestro
