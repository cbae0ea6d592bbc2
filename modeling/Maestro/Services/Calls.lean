import Maestro.Db.Effects
import Maestro.Services.Resource

/-!
# The calls of each service function

Which statements a function can issue, and on which resource, whatever the
database answers within `Answers`.
-/

namespace Maestro
open Concurrent

/-- What the answer to a call tells about the ID of the resource or the event. -/
def Answers : (c : Call) → c.Resp → Prop
  | .takeResource id, .ok r => r.id = id
  | .takeEvent id, .ok e => e.id = id
  | .createResource resource, .ok r => resource.id = "" ∨ r.id = resource.id
  | _, _ => True

theorem commit_answers {t : ℕ} {ch : Choice} {c : Call} {s s' : State} {r : c.Resp}
    (h : commit t ch c s = some (r,s')) : Answers c r := by
  cases c with
  | takeResource id =>
    obtain ⟨-,⟨-,rfl⟩ | ⟨row,hrow,rfl⟩⟩ := commit_takeResource h
    · trivial
    · exact (Data.Table.find_some_key hrow : row.id = id)
  | takeEvent id =>
    simp only [commit] at h
    cases hrow : s.events.find id with
    | none => rw [hrow] at h; cases h; trivial
    | some e => rw [hrow] at h; cases h; exact Data.Table.find_some_key hrow
  | createResource resource =>
    rcases commit_createResource h with ⟨-,rfl,-⟩ | ⟨-,rfl,-⟩
    · by_cases h : resource.id = "" <;> simp [Answers,Resource.beforeCreate,h]
    · trivial
  | _ => trivial

theorem exec_answers {t : ℕ} {ch : Choice} {c : Call} {s s' : State} {r : c.Resp}
    (h : exec t ch c s = some (r,s')) : Answers c r := by
  rcases exec_cases h with ⟨err,-,he,-⟩ | ⟨-,hc⟩
  · cases c <;> first | trivial | (cases he; trivial)
  · exact commit_answers hc

/-- Calls that are about no resource. -/
def Call.neutral : Call → Prop
  | .now | .markForRollback _ | .unlock _ | .notify _ _ => True
  | _ => False

/-- Calls that write no resource. -/
def Call.rowless : Call → Prop
  | .createResource _ | .updateResource _ _ _ | .updateResourceStatus _ _ | .deleteResource _ _ =>
    False
  | _ => True

theorem Call.rowless_of_neutral (c : Call) (h : c.neutral) : c.rowless := by
  cases c <;> trivial

section Invariant

variable {α : Type} {P : Call → Prop} {Q : α → Prop} {t : ℕ} {env : ℕ → Choice} {p : M α}
    {s s' : State} {a : α}

theorem eval_invariant {I : State → Prop}
    (hstep : ∀ ch c s r s', P c → exec t ch c s = some (r,s') → I s → I s')
    (hp : p.Calls Answers P Q) (hI : I s) (h : Prog.eval (exec t) env p s = some (a,s')) :
    I s' := by
  refine (Prog.eval_invariant ?_ hp hI h).2
  exact fun ch c s r s' hc hx hI => ⟨exec_answers hx,hstep ch c s r s' hc hx hI⟩

theorem eval_rowless (hp : p.Calls Answers Call.rowless Q)
    (h : Prog.eval (exec t) env p s = some (a,s')) : s'.resources = s.resources := by
  refine eval_invariant (I := fun x => x.resources = s.resources) ?_ hp rfl h
  intro ch c s₁ r s₂ hc hx hI
  cases exec_rowEffect hx with
  | quiet acts hr _ _ => exact hr.trans hI
  | insert | spec | status | soft | hard => cases hc

end Invariant

section Calls

variable {P : Call → Prop} (hn : ∀ c : Call, c.neutral → P c)
include hn

theorem flagging_calls {α : Type} {Q : Except DbErr α → Prop} {p : M (Except DbErr α)}
    (hp : p.Calls Answers P Q) : (flagging p).Calls Answers P Q :=
  hp.bind fun r hr => by
    cases r with
    | error err => exact ⟨hn _ trivial,fun _ _ => hr⟩
    | ok a => exact hr

theorem unlock_calls (uuid : String) : (unlock uuid).Calls Answers P fun _ => True := by
  unfold unlock
  split
  · trivial
  · exact ⟨hn _ trivial,fun _ _ => trivial⟩

theorem announce_calls {α : Type} {e : Event} (he : P (.createEvent e))
    (handle : String → String → ServiceError) (result : α) :
    (ResourceService.announce e handle result).Calls Answers P fun _ => True := by
  refine .bind (Q := fun _ => True) (.bind (Q := fun _ => True) (.bind (flagging_calls hn
    (.lift he fun _ _ => trivial)) fun r _ => ?_) fun r _ => ?_) fun r _ => ?_
  · cases r with
    | error err => trivial
    | ok e => exact ⟨hn _ trivial,fun r _ => by cases r <;> trivial⟩
  · cases r <;> trivial
  · cases r <;> trivial

theorem withAdvisoryLock_calls {α : Type} {id : String} {lockType : LockType}
    {body : M (Except ServiceError α)} (hl : P (.newAdvisoryLock id lockType))
    (hb : body.Calls Answers P fun _ => True) :
    (ResourceService.withAdvisoryLock id lockType body).Calls Answers P fun _ => True := by
  refine .lift_bind hl fun r _ => .deferring ?_ (unlock_calls hn _)
  split
  · trivial
  · exact hb

theorem create_calls (ext : External) (resource : Resource) (hc : P (.createResource resource))
    (he : ∀ id, resource.id = "" ∨ id = resource.id →
      P (.createEvent (ResourceService.createEvent id))) :
    (ResourceService.create ext resource).Calls Answers P fun _ => True := by
  unfold ResourceService.create
  split
  · trivial
  · refine .bind (flagging_calls hn (.lift hc fun _ hr => hr)) fun r hr => ?_
    cases r with
    | error err => trivial
    | ok r => exact announce_calls hn (he r.id hr) _ _

theorem update_calls (ext : External) (resource : Resource)
    (hl : P (.newAdvisoryLock resource.id .resources)) (ht : P (.takeResource resource.id))
    (hu : ∀ version, P (.updateResource resource.id version resource.payload))
    (he : P (.createEvent (ResourceService.updateEvent resource.id))) :
    (ResourceService.update ext resource).Calls Answers P fun _ => True := by
  refine withAdvisoryLock_calls hn hl (.lift_bind ht fun r hr => ?_)
  cases r with
  | error err => trivial
  | ok found =>
    have hid : found.id = resource.id := hr
    rw [← hid] at hu he
    dsimp only
    split
    · trivial
    · refine .bind (Q := fun r => ∀ x, r = .ok x → x.id = found.id) (.bind
        (flagging_calls hn (.lift (Q := fun _ => True) (hu _) fun _ _ => trivial))
        fun r _ => ?_) fun r hr => ?_
      · cases r with
        | error err => exact fun x hx => by cases hx
        | ok u => exact fun x hx => by cases hx; rfl
      · cases r with
        | error err => trivial
        | ok updated => exact announce_calls hn (hr updated rfl ▸ he) _ _

/-- A status is written where it is newer than the one that was found. -/
theorem updateStatus_calls_accepted (ext : External) (resource : Resource)
    (hl : P (.newAdvisoryLock resource.id .resourceStatus)) (ht : P (.takeResource resource.id))
    (hu : ∀ found, ResourceService.acceptsStatus ext resource found = .ok true →
      P (.updateResourceStatus resource.id resource.status)) :
    (ResourceService.updateStatus ext resource).Calls Answers P fun _ => True := by
  refine withAdvisoryLock_calls hn hl (.lift_bind ht fun r hr => ?_)
  cases r with
  | error err => trivial
  | ok found =>
    have hid : found.id = resource.id := hr
    rw [← hid] at hu
    dsimp only
    split
    · trivial
    · trivial
    · next haccepts =>
      refine .bind (Q := fun _ => True) (.bind (flagging_calls hn
        (.lift (Q := fun _ => True) (hu found haccepts) fun _ _ => trivial)) fun r _ => ?_)
        fun r _ => ?_
      · cases r <;> trivial
      · cases r <;> trivial

theorem updateStatus_calls (ext : External) (resource : Resource)
    (hl : P (.newAdvisoryLock resource.id .resourceStatus)) (ht : P (.takeResource resource.id))
    (hu : P (.updateResourceStatus resource.id resource.status)) :
    (ResourceService.updateStatus ext resource).Calls Answers P fun _ => True :=
  updateStatus_calls_accepted hn ext resource hl ht fun _ _ => hu

theorem republishDeleteEvent_calls (interval : Time) (id : String)
    (hf : P (.findLatestDeleteEvent id))
    (he : P (.createEvent (ResourceService.deleteEvent id))) :
    (ResourceService.republishDeleteEvent interval id).Calls Answers P fun _ => True := by
  unfold ResourceService.republishDeleteEvent
  split
  · trivial
  · refine .bind (Q := fun _ => True) (.bind (Q := fun _ => True) (.lift_bind hf fun r _ => ?_)
      fun r _ => ?_) fun r _ => ?_
    · split <;> trivial
    · cases r <;> trivial
    · cases r with
      | error err => trivial
      | ok latest =>
        refine .bind (Q := fun _ => True) ?_ fun recent _ => ?_
        · cases latest with
          | none => trivial
          | some e => exact ⟨hn _ trivial,fun _ _ => trivial⟩
        · cases recent with
          | true => trivial
          | false => exact announce_calls hn he _ _

theorem markAsDeleting_calls (interval : Time) (id : String)
    (hl : P (.newAdvisoryLock id .resources)) (ht : P (.takeResource id))
    (hd : P (.deleteResource id false)) (hf : P (.findLatestDeleteEvent id))
    (he : P (.createEvent (ResourceService.deleteEvent id))) :
    (ResourceService.markAsDeleting interval id).Calls Answers P fun _ => True := by
  refine withAdvisoryLock_calls hn hl (.lift_bind ht fun r _ => ?_)
  cases r with
  | error err => dsimp only; split <;> trivial
  | ok existing =>
    dsimp only
    split
    · exact republishDeleteEvent_calls hn interval id hf he
    · refine .bind (flagging_calls hn (.lift (Q := fun _ => True) hd fun _ _ => trivial))
        fun r _ => ?_
      cases r with
      | error err => trivial
      | ok u => exact announce_calls hn he _ _

theorem delete_calls (id : String) (hd : P (.deleteResource id true)) :
    (ResourceService.delete id).Calls Answers P fun _ => True := by
  refine .bind (flagging_calls hn (.lift (Q := fun _ => True) hd fun _ _ => trivial)) fun r _ => ?_
  cases r <;> trivial

omit hn in
theorem get_calls (ext : External) (id : String) (ht : P (.takeResource id)) :
    (ResourceService.get ext id).Calls Answers P fun _ => True :=
  .lift_bind ht fun r _ => by cases r <;> trivial

theorem statusEvent_calls {e : StatusEvent} (he : P (.createStatusEvent e)) :
    (StatusEventService.create e).Calls Answers P fun _ => True := by
  refine .bind (Q := fun _ => True) (.bind (flagging_calls hn
    (.lift (Q := fun _ => True) he fun _ _ => trivial)) fun r _ => ?_) fun r _ => ?_
  · cases r with
    | error err => trivial
    | ok e => exact ⟨hn _ trivial,fun r _ => by cases r <;> trivial⟩
  · cases r <;> trivial

end Calls

end Maestro
