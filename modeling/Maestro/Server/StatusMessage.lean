import Maestro.Api.Reference
import Maestro.Api.ResourceBundle

/-!
# Status messages

What the gRPC server makes of a resource before it goes to a subscriber: the event of the stored
status, with the manifests of the stored spec put back into its data.
-/

namespace Maestro

/-- `pbv1.CloudEvent`. -/
structure PBEvent where
  id : String
  source : String := ""
  specVersion : String
  type : String
  attributes : List (String × ExtValue) := []
  data : Option Json := none
deriving DecidableEq

/-- The packages behind a status stream. -/
structure StreamPackages where
  /-- The status with its field `ManifestBundle` set. -/
  setManifestBundle : ManifestBundleStatus → ManifestBundle → ManifestBundleStatus
  /-- `SetData` of an event, as JSON. -/
  setData : CloudEvent → ManifestBundleStatus → Except String CloudEvent
  writePBMessage : CloudEvent → Except String PBEvent
  heartbeatCloudEventsType : String

variable (ext : External) (pkg : StreamPackages)

/-- The status of a resource together with the manifests of its spec, if it has one. -/
def fillManifestBundle (resource : Resource) (manifestBundleStatus : ManifestBundleStatus) :
    Except String ManifestBundleStatus :=
  if resource.payload.len > 0 then
    match jsonMapToCloudEvent ext resource.payload with
    | .error err => .error err
    | .ok specEvt =>
      match ext.dataAsManifestBundle specEvt with
      | .error err => .error err
      | .ok manifestBundle => .ok (pkg.setManifestBundle manifestBundleStatus manifestBundle)
  else
    .ok manifestBundleStatus

def encodeResourceStatus (resource : Resource) : Except String CloudEvent :=
  match jsonMapToCloudEvent ext resource.status with
  | .error err => .error err
  | .ok statusEvt =>
    match ext.dataAsManifestBundleStatus statusEvt with
    | .error err => .error err
    | .ok manifestBundleStatus =>
      match fillManifestBundle ext pkg resource manifestBundleStatus with
      | .error err => .error err
      | .ok manifestBundleStatus => pkg.setData statusEvt manifestBundleStatus

/-- The first part of the handler of a subscriber: the message of a resource. -/
def statusMessage (res : Resource) : Except String PBEvent :=
  match encodeResourceStatus ext pkg res with
  | .error err => .error ("failed to encode cloudevent: " ++ err)
  | .ok evt =>
    match pkg.writePBMessage evt with
    | .error err => .error ("failed to convert cloudevent to protobuf: " ++ err)
    | .ok pbEvt => .ok pbEvt

/-- The heartbeat with a given ID. -/
def heartbeatMessage (id : String) : PBEvent :=
  { id := id, specVersion := "1.0", type := pkg.heartbeatCloudEventsType }

namespace Reference

/-- The packages behind a stream, beside `packages`. -/
def streamPackages : StreamPackages where
  setManifestBundle status bundle :=
    { status with resourceStatus := .obj [("manifests",.arr (bundle.manifests.map .str))] }
  setData evt status := .ok { evt with data := some status.resourceStatus }
  writePBMessage evt := .ok
    { id := evt.id, source := evt.source, specVersion := "1.0", type := evt.type
      attributes := evt.extensions, data := evt.data }
  heartbeatCloudEventsType := "heartbeat"

end Reference

end Maestro
