import Maestro.Services.Resource

namespace Maestro
open Concurrent

variable (ext : External)

/-- `decodeResourceSpec`. The deletion time is set without being valid. -/
def decodeResourceSpec (evt : CloudEvent) : Except String Resource :=
  match ext.toString (evt.extension extensionClusterName) with
  | .error err => .error ("failed to get clustername extension: " ++ err)
  | .ok clusterName =>
    match ext.toString (evt.extension extensionResourceID) with
    | .error err => .error ("failed to get resourceid extension: " ++ err)
    | .ok resourceID =>
      match ext.toInteger (evt.extension extensionResourceVersion) with
      | .error err => .error ("failed to get resourceversion extension: " ++ err)
      | .ok resourceVersion =>
        match deletionTime with
        | .error err => .error err
        | .ok deletionTimestamp =>
          match cloudEventToJSONMap ext evt with
          | .error err => .error ("failed to convert cloudevent to resource payload: " ++ err)
          | .ok payload => .ok
              { id := resourceID
                source := evt.source
                consumerName := clusterName
                version := resourceVersion
                deletedAt := { time := deletionTimestamp }
                payload := payload }
where
  deletionTime : Except String (Option Time) :=
    match evt.extension extensionDeletionTimestamp with
    | none => .ok none
    | some value =>
      match ext.toTime value with
      | .error err => .error ("failed to convert deletion timestamp " ++
          ext.sprintExtension value ++ " to time.Time: " ++ err)
      | .ok time => .ok (some time)

/-- A decoded resource has no valid deletion time and the source of its event. -/
theorem decodeResourceSpec_ok {evt : CloudEvent} {res : Resource}
    (h : decodeResourceSpec ext evt = .ok res) :
    res.deletedAt.valid = false ∧ res.source = evt.source ∧ res.name = "" := by
  unfold decodeResourceSpec at h
  repeat' split at h
  all_goals first | (cases h; done) | (cases h; exact ⟨rfl,rfl,rfl⟩)

variable {ext} in
/-- The payload is the map of the event. -/
theorem decodeResourceSpec_payload {evt : CloudEvent} {res : Resource}
    (h : decodeResourceSpec ext evt = .ok res) : cloudEventToJSONMap ext evt = .ok res.payload := by
  unfold decodeResourceSpec at h
  repeat' split at h
  all_goals first | (cases h; done) | (cases h; assumption)

variable {ext} in
/-- Clients set no status. -/
theorem decodeResourceSpec_status {evt : CloudEvent} {res : Resource}
    (h : decodeResourceSpec ext evt = .ok res) : res.status = none := by
  unfold decodeResourceSpec at h
  repeat' split at h
  all_goals first | (cases h; done) | (cases h; rfl)

/-- `ResourceStatusHashGetter`. -/
def resourceStatusHashGetter (res : Resource) : Except String String :=
  if res.status.len = 0 then
    .ok (ext.sha256Hex "")
  else
    match jsonMapToCloudEvent ext res.status with
    | .error err => .error ("failed to convert resource status to cloud event, " ++ err)
    | .ok evt =>
      match evt.extension extensionStatusHash with
      | some statusHashVal => .ok (ext.sprintExtension statusHashVal)
      | none =>
        match ext.dataAsManifestBundleStatus evt with
        | .error err =>
          .error ("failed to decode cloudevent data as manifest bundle status: " ++ err)
        | .ok eventPayload =>
          match ext.marshalWorkStatus eventPayload with
          | .error err => .error ("failed to marshal work status, " ++ err)
          | .ok workStatusBytes => .ok (ext.sha256Hex workStatusBytes)

def findStatusHash (id : String) (hashes : List (String × String)) : Option String :=
  (hashes.find? fun hash => id = hash.1).map Prod.snd

/-- Whether a status resync with some hashes broadcasts the resource. -/
def statusChanged (hashes : List (String × String)) (obj : Resource) : Bool :=
  match findStatusHash obj.id hashes with
  | none => false
  | some lastHash =>
    match resourceStatusHashGetter ext obj with
    | .error _ => false
    | .ok currentHash => currentHash ≠ lastHash

/-- `EventBroadcaster.Broadcast` of each resource in turn. -/
def broadcastAll : List Resource → M Unit
  | [] => return ()
  | obj :: objs => do
    perform (.broadcast obj)
    broadcastAll objs

def respondResyncStatusRequest (evt : CloudEvent) : M (Except String Unit) := do
  match ← ResourceService.findBySource evt.source with
  | .error serviceErr => return .error ("failed to list resources: " ++ serviceErr.error)
  | .ok objs =>
    match ext.decodeStatusResyncRequest evt with
    | .error err => return .error ("failed to decode status resync request: " ++ err)
    | .ok [] =>
      broadcastAll objs
      return .ok ()
    | .ok hashes =>
      broadcastAll (objs.filter (statusChanged ext hashes))
      return .ok ()

structure GRPCServer where
  disableAuthorizer : Bool
  /-- `AccessReview` on a verb, a resource type, a resource, a user and its groups. -/
  accessReview : String → String → String → String → List String → Except String Bool
  deleteEventRepublishInterval : Time

/-- A publish request: what `binding.ToEvent` makes of it, and who sent it. -/
structure PublishRequest where
  event : Except String CloudEvent
  user : String := ""
  groups : List String := []

namespace GRPCServer

variable (svr : GRPCServer)

def authorize (evt : CloudEvent) (req : PublishRequest) : Except String Unit :=
  if svr.disableAuthorizer then
    .ok ()
  else
    match svr.accessReview "pub" "source" evt.source req.user req.groups with
    | .error err => .error ("failed to authorize the request: " ++ err)
    | .ok false => .error ("unauthorized to publish the event from source " ++ evt.source)
    | .ok true => .ok ()

/-- The update branch of `Publish`. The version is read before `Update` takes its lock. -/
def publishUpdate (res : Resource) : M (Except String Unit) := do
  match ← ResourceService.get ext res.id with
  | .error err => return .error ("failed to get resource: " ++ err.error)
  | .ok found =>
    let res := if res.version = 0 then { res with version := found.version } else res
    match ← ResourceService.update ext res with
    | .error err => return .error ("failed to update resource: " ++ err.error)
    | .ok _ => return .ok ()

/-- What `Publish` does with a decoded resource. -/
def dispatch (action : EventAction) (res : Resource) : M (Except String Unit) := do
  match action with
  | .createRequest =>
    match ← ResourceService.create ext res with
    | .error err => return .error ("failed to create resource: " ++ err.error)
    | .ok _ => return .ok ()
  | .updateRequest => publishUpdate ext res
  | .deleteRequest =>
    match ← ResourceService.markAsDeleting svr.deleteEventRepublishInterval res.id with
    | .error err => return .error ("failed to delete resource: " ++ err.error)
    | .ok () => return .ok ()
  | action => return .error ("unsupported action " ++ action.text)

/-- What `Publish` reads from a request before its first statement: the event, its
action and, for all but resync requests, the decoded resource. -/
def decodeRequest (req : PublishRequest) :
    Except String (CloudEvent × Option (EventAction × Resource)) :=
  match req.event with
  | .error err => .error ("failed to convert protobuf to cloudevent: " ++ err)
  | .ok evt =>
    match svr.authorize evt req with
    | .error err => .error err
    | .ok () =>
      match ext.parseCloudEventsType evt.type with
      | .error err =>
        .error ("failed to parse cloud event type " ++ evt.type ++ ", " ++ err)
      | .ok eventType =>
        if eventType.action = .resyncRequest then
          .ok (evt,none)
        else
          match decodeResourceSpec ext evt with
          | .error err => .error ("failed to decode cloudevent: " ++ err)
          | .ok res => .ok (evt,some (eventType.action,res))

variable {ext svr} in
theorem decodeRequest_some {req : PublishRequest} {evt : CloudEvent} {action : EventAction}
    {res : Resource} (h : svr.decodeRequest ext req = .ok (evt,some (action,res))) :
    svr.authorize evt req = .ok () ∧ decodeResourceSpec ext evt = .ok res := by
  unfold decodeRequest at h
  repeat' split at h
  all_goals first
    | (cases h; done)
    | (simp only [Except.ok.injEq,Prod.mk.injEq,Option.some.injEq] at h
       obtain ⟨rfl,rfl,rfl⟩ := h
       exact ⟨by assumption,by assumption⟩)

def publish (req : PublishRequest) : M (Except String Unit) := do
  match svr.decodeRequest ext req with
  | .error err => return .error err
  | .ok (evt,none) =>
    match ← respondResyncStatusRequest ext evt with
    | .error err => return .error ("failed to respond resync status request: " ++ err)
    | .ok () => return .ok ()
  | .ok (_,some (action,res)) => svr.dispatch ext action res

end GRPCServer

end Maestro
