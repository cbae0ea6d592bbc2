import Maestro.Server.Publish
import Maestro.Server.StatusUpdate
import Maestro.Services.Calls

namespace Maestro
open Concurrent

/-- What reaches a server: a publish request of a client, or a status message of an agent. -/
inductive Request
  | publish (req : PublishRequest)
  | deliver (resource : Resource)

def Request.run (ext : External) (svr : GRPCServer) : Request → M (Except String Unit)
  | .publish req => svr.publish ext req
  | .deliver resource => handleStatusUpdate ext resource

/-- A request, and what the environment decides while it is served. -/
structure Turn where
  request : Request
  env : ℕ → Choice

/-- Requests served one after the other, each meeting `ok` in the state that it finds. -/
abbrev Serves (ext : External) (svr : GRPCServer) (ok : State → Turn → Prop) (s₀ : State) :
    List Turn → State → Prop :=
  Serial exec (fun turn : Turn => turn.request.run ext svr) Turn.env ok s₀

section Calls

variable {P : Call → Prop} (hn : ∀ c : Call, c.neutral → P c)

theorem broadcastAll_calls (hb : ∀ resource, P (.broadcast resource)) (objs : List Resource) :
    (broadcastAll objs).Calls Answers P fun _ => True := by
  induction objs with
  | nil => trivial
  | cons obj objs ih => exact .lift_bind (hb obj) fun _ _ => ih

theorem respondResyncStatusRequest_calls (ext : External)
    (hq : ∀ source, P (.findResourcesBySource source)) (hb : ∀ resource, P (.broadcast resource))
    (evt : CloudEvent) : (respondResyncStatusRequest ext evt).Calls Answers P fun _ => True := by
  refine .bind (Q := fun _ => True) (.lift_bind (hq _) fun r _ => ?_) fun r _ => ?_
  · cases r <;> trivial
  · cases r with
    | error err => trivial
    | ok objs =>
      dsimp only
      split
      · trivial
      · exact .bind (broadcastAll_calls hb _) fun _ _ => trivial
      · exact .bind (broadcastAll_calls hb _) fun _ _ => trivial

include hn

theorem dispatch_calls (ext : External) (svr : GRPCServer) (action : EventAction) (res : Resource)
    (hc : action = .createRequest → P (.createResource res) ∧
      ∀ id, res.id = "" ∨ id = res.id → P (.createEvent (ResourceService.createEvent id)))
    (hu : action = .updateRequest → ∀ version payload,
      P (.updateResource res.id version payload) ∧
      P (.createEvent (ResourceService.updateEvent res.id)))
    (hd : action = .deleteRequest → P (.deleteResource res.id false) ∧
      P (.findLatestDeleteEvent res.id) ∧ P (.createEvent (ResourceService.deleteEvent res.id)))
    (hl : P (.newAdvisoryLock res.id .resources)) (ht : P (.takeResource res.id)) :
    (svr.dispatch ext action res).Calls Answers P fun _ => True := by
  unfold GRPCServer.dispatch
  split
  · refine .bind (create_calls hn ext res (hc rfl).1 (hc rfl).2) fun r _ => ?_
    cases r <;> trivial
  · refine .bind (get_calls ext res.id ht) fun r _ => ?_
    cases r with
    | error err => trivial
    | ok found =>
      refine .bind (Q := fun _ => True) ?_ fun r _ => by cases r <;> trivial
      split
      · exact update_calls hn ext _ hl ht (fun v => (hu rfl v _).1) (hu rfl 0 none).2
      · exact update_calls hn ext _ hl ht (fun v => (hu rfl v _).1) (hu rfl 0 none).2
  · obtain ⟨hdel,hf,he⟩ := hd rfl
    refine .bind (markAsDeleting_calls hn _ res.id hl ht hdel hf he) fun r _ => ?_
    cases r <;> trivial
  · trivial

theorem handleUpdated_calls_accepted (ext : External) (resource : Resource)
    (hl : P (.newAdvisoryLock resource.id .resourceStatus)) (ht : P (.takeResource resource.id))
    (hu : ∀ found, ResourceService.acceptsStatus ext resource found = .ok true →
      P (.updateResourceStatus resource.id resource.status))
    (he : P (.createStatusEvent { resourceID := resource.id, statusEventType := .statusUpdate })) :
    (handleUpdated ext resource).Calls Answers P fun _ => True := by
  refine .bind (updateStatus_calls_accepted hn ext resource hl ht hu) fun r _ => ?_
  cases r with
  | error err => trivial
  | ok p =>
    dsimp only
    split
    · refine .bind (statusEvent_calls hn he) fun r _ => ?_
      cases r <;> trivial
    · trivial

theorem handleUpdated_calls (ext : External) (resource : Resource)
    (hl : P (.newAdvisoryLock resource.id .resourceStatus)) (ht : P (.takeResource resource.id))
    (hu : ∀ status, P (.updateResourceStatus resource.id status))
    (he : P (.createStatusEvent { resourceID := resource.id, statusEventType := .statusUpdate })) :
    (handleUpdated ext resource).Calls Answers P fun _ => True :=
  handleUpdated_calls_accepted hn ext resource hl ht (fun _ _ => hu _) he

theorem handleDeleted_calls (resource found : Resource)
    (he : P (.createStatusEvent
      { resourceID := resource.id
        resourceSource := resource.source
        resourceType := resource.type
        payload := found.payload
        status := resource.status
        statusEventType := .statusDelete }))
    (hd : P (.deleteResource resource.id true)) :
    (handleDeleted resource found).Calls Answers P fun _ => True := by
  refine .bind (statusEvent_calls hn he) fun r _ => ?_
  cases r with
  | error err => trivial
  | ok e =>
    refine .bind (delete_calls hn _ hd) fun r _ => ?_
    cases r <;> trivial

/-- A status is written as it was filled in, where it is newer than the one found then. -/
theorem handleStatusUpdate_calls_filled (ext : External) (resource : Resource)
    (hl : P (.newAdvisoryLock resource.id .resourceStatus)) (ht : P (.takeResource resource.id))
    (hu : ∀ found current status, fillStatus ext resource found = .ok (status,false) →
      ResourceService.acceptsStatus ext
        { resource with source := found.source, status := status } current = .ok true →
      P (.updateResourceStatus resource.id status))
    (he : ∀ e : StatusEvent, e.resourceID = resource.id → P (.createStatusEvent e))
    (hd : P (.deleteResource resource.id true)) :
    (handleStatusUpdate ext resource).Calls Answers P fun _ => True := by
  refine .bind (get_calls ext resource.id ht) fun r _ => ?_
  cases r with
  | error err => dsimp only; split <;> trivial
  | ok found =>
    dsimp only
    split
    · trivial
    · split
      · trivial
      · next status deleted hfill =>
        cases deleted with
        | true => exact handleDeleted_calls hn _ _ (he _ rfl) hd
        | false =>
          exact handleUpdated_calls_accepted hn ext _ hl ht
            (fun current hcurrent => hu found current status hfill hcurrent) (he _ rfl)

theorem handleStatusUpdate_calls (ext : External) (resource : Resource)
    (hl : P (.newAdvisoryLock resource.id .resourceStatus)) (ht : P (.takeResource resource.id))
    (hu : ∀ status, P (.updateResourceStatus resource.id status))
    (he : ∀ e : StatusEvent, e.resourceID = resource.id → P (.createStatusEvent e))
    (hd : P (.deleteResource resource.id true)) :
    (handleStatusUpdate ext resource).Calls Answers P fun _ => True :=
  handleStatusUpdate_calls_filled hn ext resource hl ht (fun _ _ status _ _ => hu status) he hd

omit hn in
theorem publish_calls (ext : External) (svr : GRPCServer) (req : PublishRequest)
    (hq : ∀ source, P (.findResourcesBySource source)) (hb : ∀ resource, P (.broadcast resource))
    (hd : ∀ evt action res, svr.decodeRequest ext req = .ok (evt,some (action,res)) →
      (svr.dispatch ext action res).Calls Answers P fun _ => True) :
    (svr.publish ext req).Calls Answers P fun _ => True := by
  unfold GRPCServer.publish
  split
  · trivial
  · refine .bind (respondResyncStatusRequest_calls ext hq hb _) fun r _ => ?_
    cases r <;> trivial
  · next h => exact hd _ _ _ h

end Calls

end Maestro
