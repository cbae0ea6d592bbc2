import Maestro.Services.Resource

namespace Maestro
open Concurrent

variable (ext : External)

/-- What `HandleStatusUpdate` makes of a status message and the resource it found:
the status with the work metadata of the spec, and whether the agent reports the
resource as deleted. -/
def fillStatus (resource found : Resource) : Except String (JSONMap × Bool) :=
  match jsonMapToCloudEvent ext resource.status with
  | .error err => .error ("failed to convert resource status to cloudevent: " ++ err)
  | .ok statusEvent =>
    match jsonMapToCloudEvent ext found.payload with
    | .error err => .error ("failed to convert resource spec to cloudevent: " ++ err)
    | .ok specEvent =>
      let statusEvent := match specEvent.extension extensionWorkMeta with
        | some workMeta => ext.setExtension statusEvent extensionWorkMeta workMeta
        | none => statusEvent
      match cloudEventToJSONMap ext statusEvent with
      | .error err =>
        .error ("failed to convert resource status cloudevent to json: " ++ err)
      | .ok status =>
        match ext.dataAsManifestBundleStatus statusEvent with
        | .error err =>
          .error ("failed to decode cloudevent data as resource status: " ++ err)
        | .ok statusPayload =>
          .ok (status,ext.isStatusConditionTrue statusPayload.conditions resourceDeleted)

variable {ext} in
/-- The event that is written is the one of the message, with the metadata of the spec if it has
any. -/
theorem fillStatus_ok {resource found : Resource} {status : JSONMap} {deleted : Bool}
    (h : fillStatus ext resource found = .ok (status,deleted)) : ∃ evt evt' payload,
      jsonMapToCloudEvent ext resource.status = .ok evt ∧
      (evt' = evt ∨ ∃ workMeta, evt' = ext.setExtension evt extensionWorkMeta workMeta) ∧
      cloudEventToJSONMap ext evt' = .ok status ∧
      ext.dataAsManifestBundleStatus evt' = .ok payload ∧
      deleted = ext.isStatusConditionTrue payload.conditions resourceDeleted := by
  unfold fillStatus at h
  split at h
  · cases h
  next evt hevt =>
  split at h
  · cases h
  next specEvent _ =>
  dsimp only at h
  split at h
  · cases h
  next hstatus =>
  split at h
  · cases h
  next payload hpayload =>
  cases h
  refine ⟨evt,_,payload,hevt,?_,hstatus,hpayload,rfl⟩
  split
  · next workMeta _ => exact Or.inr ⟨workMeta,rfl⟩
  · exact Or.inl rfl

/-- The branch for a resource that the agent has deleted. -/
def handleDeleted (resource found : Resource) : M (Except String Unit) := do
  match ← StatusEventService.create
      { resourceID := resource.id
        resourceSource := resource.source
        resourceType := resource.type
        payload := found.payload
        status := resource.status
        statusEventType := .statusDelete } with
  | .error sErr => return .error ("failed to create status event for resource status delete " ++
      resource.id ++ ": " ++ sErr.error)
  | .ok _ =>
    match ← ResourceService.delete resource.id with
    | .error svcErr =>
      return .error ("failed to delete resource " ++ resource.id ++ ": " ++ svcErr.error)
    | .ok () => return .ok ()

/-- The branch that stores and announces the status. -/
def handleUpdated (resource : Resource) : M (Except String Unit) := do
  match ← ResourceService.updateStatus ext resource with
  | .error svcErr =>
    return .error ("failed to update resource status " ++ resource.id ++ ": " ++ svcErr.error)
  | .ok (_,updated) =>
    if updated then
      match ← StatusEventService.create
          { resourceID := resource.id, statusEventType := .statusUpdate } with
      | .error sErr =>
        return .error ("failed to create status event for resource status update " ++
          resource.id ++ ": " ++ sErr.error)
      | .ok _ => return .ok ()
    else
      return .ok ()

def handleStatusUpdate (resource : Resource) : M (Except String Unit) := do
  match ← ResourceService.get ext resource.id with
  | .error svcErr =>
    if svcErr.is404 then
      return .ok ()
    else
      return .error ("failed to get resource " ++ resource.id ++ ", " ++ svcErr.error)
  | .ok found =>
    if found.consumerName ≠ resource.consumerName then
      return .error ("unmatched consumer name " ++ resource.consumerName ++ " for resource " ++
        resource.id)
    else
      match fillStatus ext resource found with
      | .error err => return .error err
      | .ok (status,deleted) =>
        let resource := { resource with source := found.source, status := status }
        if deleted then
          handleDeleted resource found
        else
          handleUpdated ext resource

end Maestro
