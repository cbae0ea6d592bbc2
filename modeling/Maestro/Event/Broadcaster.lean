import Maestro.Db.Cluster
import Maestro.Server.Publish

namespace Maestro
open Concurrent

namespace EventBroadcaster

def register (id source : String) : StatusM Unit := performStatus (.register ⟨id,source⟩)

def unregister (id : String) : StatusM Unit := performStatus (.unregister id)

/-- The loop of `Start` over the clients. -/
def handEach (res : Resource) : List Client → StatusM Unit
  | [] => return ()
  | client :: clients => do
    if client.source = res.source then
      performStatus (.hand client res)
    handEach res clients

/-- One round of `Start`. -/
def round : StatusM Unit := do
  let res ← performStatus .receive
  let clients ← performStatus .rLock
  handEach res clients
  performStatus .rUnlock

/-- The first rounds of `Start`. -/
def start : ℕ → StatusM Unit
  | 0 => return ()
  | n+1 => do
    round
    start n

end EventBroadcaster

/-- A subscription request: its source, who sent it and whether the header can be sent. -/
structure SubscriptionRequest where
  source : String
  user : String := ""
  groups : List String := []
  sendHeader : Except String Unit := .ok ()

namespace GRPCServer

variable (svr : GRPCServer)

def authorizeSubscribe (req : SubscriptionRequest) : Except String Unit :=
  if svr.disableAuthorizer then
    .ok ()
  else
    match svr.accessReview "sub" "source" req.source req.user req.groups with
    | .error err => .error ("failed to authorize the request: " ++ err)
    | .ok false => .error ("unauthorized to subscribe the event from source " ++ req.source)
    | .ok true => .ok ()

/-- `Subscribe`, from the registration of the client to its end. -/
def subscribe (req : SubscriptionRequest) : StatusM (Except String Unit) := do
  match svr.authorizeSubscribe req with
  | .error err => return .error err
  | .ok () =>
    let clientID ← performStatus .newUUID
    match req.sendHeader with
    | .error err =>
      return .error ("failed to send subscription header for subID " ++ clientID ++ ": " ++ err)
    | .ok () =>
      EventBroadcaster.register clientID req.source
      EventBroadcaster.unregister clientID
      return .ok ()

end GRPCServer

end Maestro
