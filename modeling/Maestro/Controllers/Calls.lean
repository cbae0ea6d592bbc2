import Maestro.Server.EventServer
import Maestro.Services.Calls

/-!
# The calls of the event controllers

Which statements the handling of an event can issue, given those of the
registered handlers.
-/

namespace Maestro
open Concurrent

/-- Every registered handler makes only such calls. -/
def Controllers.Make (controllers : Controllers) (P : Call → Prop) : Prop :=
  ∀ source types eventType fns, controllers.lookup source = some types →
    types.lookup eventType = some fns → ∀ fn ∈ fns, ∀ id,
      (fn id).Calls Answers P fun _ => True

section Make

variable {ext : External} {P : Call → Prop}

theorem resourceControllers_handlers {onCreate onUpdate onDelete : ControllerHandlerFunc}
    {source : String} {types : List (EventType × List ControllerHandlerFunc)} {eventType : EventType}
    {fns : List ControllerHandlerFunc}
    (hs : (resourceControllers onCreate onUpdate onDelete).lookup source = some types)
    (ht : types.lookup eventType = some fns) :
    (eventType = .create ∧ fns = [onCreate]) ∨ (eventType = .update ∧ fns = [onUpdate]) ∨
      eventType = .delete ∧ fns = [onDelete] := by
  simp only [resourceControllers,List.lookup_cons,List.lookup_nil] at hs
  split at hs
  · cases hs
    cases eventType <;> cases ht <;> simp
  · cases hs

theorem resourceControllers_make {onCreate onUpdate onDelete : ControllerHandlerFunc}
    (hc : ∀ id, (onCreate id).Calls Answers P fun _ => True)
    (hu : ∀ id, (onUpdate id).Calls Answers P fun _ => True)
    (hd : ∀ id, (onDelete id).Calls Answers P fun _ => True) :
    (resourceControllers onCreate onUpdate onDelete).Make P := by
  intro source types eventType fns hs ht fn hfn id
  rcases resourceControllers_handlers hs ht with ⟨-,rfl⟩ | ⟨-,rfl⟩ | ⟨-,rfl⟩ <;>
    rw [List.mem_singleton.mp hfn]
  · exact hc id
  · exact hu id
  · exact hd id

/-- A handler of a resource reads it and publishes. -/
theorem read_publish_calls (ht : ∀ id, P (.takeResource id))
    (hp : ∀ action resource, P (.publish action resource)) {id : String}
    {f : Except ServiceError Resource → M (Except String Unit)}
    (hf : ∀ r, (∃ x, f r = .ret x) ∨ ∃ action resource, f r =
      perform (.publish action resource) >>= fun sent => .ret (publishErr sent)) :
    (ResourceService.get ext id >>= f).Calls Answers P fun _ => True := by
  refine .bind (Q := fun _ => True) (.lift_bind (ht id) fun r _ => by cases r <;> trivial)
    fun r _ => ?_
  rcases hf r with ⟨x,hx⟩ | ⟨action,resource,hx⟩
  · rw [hx]
    trivial
  · rw [hx]
    exact .lift_bind (hp action resource) fun _ _ => trivial

theorem sourceControllers_make (ht : ∀ id, P (.takeResource id))
    (hp : ∀ action resource, P (.publish action resource)) : (sourceControllers ext).Make P := by
  have hwrite : ∀ action id, (SourceClient.onWrite ext action id).Calls Answers P
      fun _ => True := by
    intro action id
    refine read_publish_calls ht hp fun r => ?_
    cases r with
    | error err => dsimp only; split <;> exact Or.inl ⟨_,rfl⟩
    | ok resource =>
      dsimp only
      split
      · exact Or.inl ⟨_,rfl⟩
      · exact Or.inr ⟨_,_,rfl⟩
  refine resourceControllers_make (hwrite _) (hwrite _) fun id => read_publish_calls ht hp fun r => ?_
  cases r with
  | error err => dsimp only; split <;> exact Or.inl ⟨_,rfl⟩
  | ok resource =>
    dsimp only
    split
    · exact Or.inl ⟨_,rfl⟩
    · exact Or.inr ⟨_,_,rfl⟩

theorem brokerControllers_make (ht : ∀ id, P (.takeResource id))
    (hp : ∀ action resource, P (.publish action resource)) : (brokerControllers ext).Make P := by
  have hwrite : ∀ action id, (GRPCBroker.onWrite ext action id).Calls Answers P
      fun _ => True := by
    intro action id
    refine read_publish_calls ht hp fun r => ?_
    cases r with
    | error err => dsimp only; split <;> exact Or.inl ⟨_,rfl⟩
    | ok resource =>
      dsimp only
      split
      · exact Or.inl ⟨_,rfl⟩
      · exact Or.inr ⟨_,_,rfl⟩
  refine resourceControllers_make (hwrite _) (hwrite _) fun id => read_publish_calls ht hp fun r => ?_
  cases r with
  | error err => dsimp only; split <;> exact Or.inl ⟨_,rfl⟩
  | ok resource => exact Or.inr ⟨_,_,rfl⟩

theorem runHandlers_calls {fns : List ControllerHandlerFunc} {sourceID : String}
    (h : ∀ fn ∈ fns, ∀ id, (fn id).Calls Answers P fun _ => True) :
    (runHandlers sourceID fns).Calls Answers P fun _ => True := by
  induction fns with
  | nil => trivial
  | cons fn fns ih =>
    refine .bind (h fn List.mem_cons_self sourceID) fun r _ => ?_
    cases r with
    | error err => trivial
    | ok u => exact ih fun fn' hm => h fn' (List.mem_cons_of_mem _ hm)

theorem replace_calls {e : Event} (hs : P (.saveEvent e)) (hm : ∀ err, P (.markForRollback err)) :
    (EventService.replace e).Calls Answers P fun _ => True := by
  refine .bind (Q := fun _ => True) (.bind (Q := fun _ => True)
    (.lift_bind hs fun r _ => ?_) fun r _ => ?_) fun r _ => ?_
  · cases r with
    | error err => exact ⟨hm err,fun _ _ => trivial⟩
    | ok u => trivial
  · cases r <;> trivial
  · cases r <;> trivial

/-- The calls of `processEvent` are those of the handlers and its own. -/
theorem processEvent_calls {controllers : Controllers} (h : controllers.Make P) {id : String}
    (hg : P (.takeEvent id)) (hn : P .now) (hm : ∀ err, P (.markForRollback err))
    (hs : ∀ e : Event, e.reconciledDate.isSome → P (.saveEvent e)) :
    (processEvent controllers id).Calls Answers P fun _ => True := by
  refine .bind (Q := fun _ => True) (.lift_bind hg fun r _ => by cases r <;> trivial) fun r _ => ?_
  cases r with
  | error err => dsimp only; split <;> trivial
  | ok event =>
    dsimp only
    split
    · trivial
    · split
      · trivial
      · next types hsrc =>
        split
        · trivial
        · next fns hfns =>
          refine .bind (runHandlers_calls fun fn hfn id => h _ _ _ _ hsrc hfns fn hfn id)
            fun r _ => ?_
          cases r with
          | error err => trivial
          | ok u =>
            refine .lift_bind hn fun now _ => .bind (replace_calls (hs _ rfl) hm) fun r _ => ?_
            cases r <;> trivial

theorem predicateEvent_calls {id : String} (hg : P (.takeEvent id)) (hn : P .now)
    (ht : ∀ id, P (.takeResource id)) (hm : ∀ err, P (.markForRollback err))
    (hb : ∀ name, P (.subscribers name))
    (hs : ∀ e : Event, e.reconciledDate.isSome → P (.saveEvent e)) :
    (GRPCBroker.predicateEvent ext id).Calls Answers P fun _ => True := by
  refine .bind (Q := fun _ => True) (.lift_bind hg fun r _ => by cases r <;> trivial) fun r _ => ?_
  cases r with
  | error err => trivial
  | ok event =>
    dsimp only
    split
    · trivial
    · refine .bind (Q := fun _ => True) (.lift_bind (ht _) fun r _ => by cases r <;> trivial)
        fun r _ => ?_
      cases r with
      | error err =>
        dsimp only
        split
        · refine .lift_bind hn fun now _ => .bind (replace_calls (hs _ rfl) hm) fun r _ => ?_
          cases r <;> trivial
        · trivial
      | ok resource => exact .lift_bind (hb _) fun _ _ => trivial

/-- The filter makes only such calls. -/
def EventFilter.Make (h : EventFilter) (P : Call → Prop) : Prop :=
  match h with
  | .lockBased _ => (∀ id, P (.newNonBlockingLock id .events)) ∧ ∀ owner, P (.unlock owner)
  | .predicated predicate => ∀ id, (predicate id).Calls Answers P fun _ => True

theorem lockBased_make {locks : List (String × String)}
    (hl : ∀ id, P (.newNonBlockingLock id .events)) (hu : ∀ owner, P (.unlock owner)) :
    (EventFilter.lockBased locks).Make P :=
  ⟨hl,hu⟩

theorem filter_calls {h : EventFilter} (hh : h.Make P) (id : String) :
    (h.filter id).Calls Answers P fun a => a.2.Make P := by
  cases h with
  | lockBased locks =>
    refine .lift_bind (hh.1 id) fun r _ => ?_
    obtain ⟨owner,acquired,err⟩ := r
    cases err <;> exact hh
  | predicated predicate => exact .bind (hh id) fun _ _ => hh

theorem deferredAction_calls {h : EventFilter} (hh : h.Make P) (id : String) :
    (h.deferredAction id).Calls Answers P fun _ => True := by
  cases h with
  | lockBased locks =>
    simp only [EventFilter.deferredAction]
    split
    · trivial
    · refine .bind (Q := fun _ => True) ?_ fun _ _ => trivial
      unfold unlock
      split
      · trivial
      · exact ⟨hh.2 _,fun _ _ => trivial⟩
  | predicated predicate => trivial

theorem handleEvent_calls {controllers : Controllers} {h : EventFilter} (hh : h.Make P)
    {id : String} (hp : (processEvent controllers id).Calls Answers P fun _ => True) :
    (handleEvent controllers h id).Calls Answers P fun _ => True := by
  refine .bind (filter_calls hh id) fun a ha => ?_
  obtain ⟨r,f⟩ := a
  have hlast : ∀ result : Except String Bool, (f.deferredAction id >>= fun h =>
      (pure (result,h) : M _)).Calls Answers P fun _ => True :=
    fun _ => .bind (deferredAction_calls ha id) fun _ _ => trivial
  match r with
  | .error err => exact hlast _
  | .ok false => exact hlast _
  | .ok true => exact .bind hp fun r _ => hlast r

theorem processNextEvent_calls {controllers : Controllers} {h : EventFilter} (hh : h.Make P)
    {queue : ℕ} {id : String} (hp : (processEvent controllers id).Calls Answers P fun _ => True)
    (hq : ∀ op, P (.queue queue op id)) :
    (processNextEvent controllers queue h id).Calls Answers P fun _ => True := by
  refine .bind (handleEvent_calls hh hp) fun a _ => ?_
  obtain ⟨r,f⟩ := a
  match r with
  | .error err => exact ⟨hq _,fun _ _ => ⟨hq _,fun _ _ => trivial⟩⟩
  | .ok false => exact ⟨hq _,fun _ _ => ⟨hq _,fun _ _ => trivial⟩⟩
  | .ok true => exact ⟨hq _,fun _ _ => ⟨hq _,fun _ _ => trivial⟩⟩

theorem addAll_calls {queue : ℕ} (hq : ∀ id, P (.queue queue .add id)) (events : List Event) :
    (addAll queue events).Calls Answers P fun _ => True := by
  induction events with
  | nil => trivial
  | cons e events ih => exact .lift_bind (hq _) fun _ _ => ih

theorem syncEvents_calls {queue : ℕ} (hq : ∀ id, P (.queue queue .add id))
    (hd : P .deleteReconciledEvents) (hf : P .findUnreconciledEvents)
    (hm : ∀ err, P (.markForRollback err)) :
    (syncEvents queue).Calls Answers P fun _ => True := by
  refine .bind (Q := fun _ => True) (.bind (Q := fun _ => True) (.lift_bind hd fun r _ => ?_)
    fun r _ => by cases r <;> trivial) fun r _ => ?_
  · cases r with
    | error err => exact ⟨hm err,fun _ _ => trivial⟩
    | ok u => trivial
  · cases r with
    | error err => trivial
    | ok u =>
      refine .bind (Q := fun _ => True) (.lift_bind hf fun r _ => by cases r <;> trivial)
        fun r _ => ?_
      cases r with
      | error err => trivial
      | ok events => exact addAll_calls hq events

theorem reconcileStaleDeleteEvents_calls {threshold : Time} (hn : P .now)
    (hm : ∀ err, P (.markForRollback err))
    (hr : ∀ cutoff now, P (.reconcileStaleDeleteEvents cutoff now)) :
    (EventService.reconcileStaleDeleteEvents threshold).Calls Answers P fun _ => True := by
  refine .lift_bind hn fun now _ => .bind (Q := fun _ => True)
    (.lift_bind hn fun now' _ => .lift_bind (hr _ _) fun r _ => ?_) fun r _ => by cases r <;> trivial
  cases r with
  | error err => exact ⟨hm err,fun _ _ => trivial⟩
  | ok n => trivial

theorem staleDeleteDetectorRun_calls {threshold : Time}
    (hl : P (.newNonBlockingLock "maestro-stale-delete-check" .instances))
    (hu : ∀ owner, P (.unlock owner)) (hn : P .now) (hm : ∀ err, P (.markForRollback err))
    (hr : ∀ cutoff now, P (.reconcileStaleDeleteEvents cutoff now)) :
    (staleDeleteDetectorRun threshold).Calls Answers P fun _ => True := by
  refine .lift_bind hl fun r _ => .deferring ?_ ?_
  · obtain ⟨owner,acquired,err⟩ := r
    cases err with
    | some err => trivial
    | none =>
      cases acquired with
      | false => trivial
      | true => exact .bind (reconcileStaleDeleteEvents_calls hn hm hr) fun _ _ => trivial
  · unfold unlock
    split
    · trivial
    · exact ⟨hu _,fun _ _ => trivial⟩

end Make

end Maestro
