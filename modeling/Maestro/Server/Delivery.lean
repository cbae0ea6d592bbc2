import Maestro.Controllers.EventLog

/-!
# Requests to the agents

The event servers publish create, update and delete requests for the events that they
handle, next to the operations that write the resources. What is published when is read
off the journal.
-/

namespace Maestro
open Concurrent Data

/-- An event handled by one of the event servers, or an operation on a resource. -/
inductive DeliveryTask
  | source (key : String)
  | broker (key : String)
  | operation (op : Op)

namespace DeliveryTask

def run (ext : External) : DeliveryTask → M Unit
  | .source key => (fun _ => ()) <$> handleEvent (sourceControllers ext) (.lockBased []) key
  | .broker key => (fun _ => ()) <$> handleEvent (brokerControllers ext)
    (.predicated (GRPCBroker.predicateEvent ext)) key
  | .operation op => (fun _ => ()) <$> op.run ext

end DeliveryTask

def deliveryStart (ext : External) {n : ℕ} (tasks : Fin n → DeliveryTask) (s₀ : State) :
    Config (Fin n) State Call Call.Resp Unit :=
  ⟨s₀,fun i => (tasks i).run ext⟩

/-- The statements of the sessions of a pool, which may fail. -/
abbrev faultyPool (n : ℕ) (i : Fin n) (ch : Choice) (c : Call) (s : State) :
    Option (c.Resp × State) :=
  exec i ch c s

theorem faultyPool_executes {n : ℕ} : Executes (faultyPool n) := fun _ _ _ _ _ _ hx => hx

/-- A session of the source client publishes a delete request only right after it has read a row
that is marked as deleting. -/
def deleteRule {n : ℕ} (tasks : Fin n → DeliveryTask) (i : Fin n) (c : Call) (s : State) : Prop :=
  match c with
  | .publish .deleteRequest res => ∀ key, tasks i = .source key →
    ∃ row, row.deletedAt ≠ none ∧ [.readResource res.id (some row)] <:+ s.acts i
  | _ => True

/-- Every delete request of the source client comes right after its read of a marked row. -/
def DeletesFollowReads {n : ℕ} (tasks : Fin n → DeliveryTask) (J : List Entry) : Prop :=
  ∀ pre (i : Fin n) res post, J = pre ++ ⟨i,.published .deleteRequest res⟩ :: post →
    ∀ key, tasks i = .source key →
      ∃ row, row.deletedAt ≠ none ∧ [.readResource res.id (some row)] <:+ actsOf i pre

/-- Calls that publish nothing. -/
def Call.unpublished : Call → Prop
  | .publish _ _ => False
  | _ => True

section DeleteOutline

variable {ext : External} {n : ℕ} {tasks : Fin n → DeliveryTask} {i : Fin n} {ch : Choice}
    {c : Call} {r : c.Resp} {s s' : State} {key : String}

theorem kept_true : Kept (faultyPool n) (deleteRule tasks) fun _ => True :=
  fun _ _ _ _ _ _ _ _ _ => trivial

theorem safe_unpublished {α : Type} {p : M α} (hp : p.Calls Answers Call.unpublished fun _ => True) :
    Safe (faultyPool n) (deleteRule tasks) i (fun _ _ => True) p fun _ => True :=
  faultyPool_executes.safe_rest kept_true (fun c s hc _ => by cases c <;> trivial) hp

/-- The delete handler of the source client: the row that it read is marked. -/
theorem safe_sourceDelete (id : String) :
    Safe (faultyPool n) (deleteRule tasks) i (fun _ _ => True) (SourceClient.onDelete ext id)
      fun _ => True := by
  refine faultyPool_executes.safe_read_publish kept_true (fun _ _ => trivial) (fun err => ?_)
    fun row s _ hrow => ?_
  · dsimp only
    split <;> exact ⟨_,rfl⟩
  · dsimp only
    split
    · exact Or.inl ⟨_,rfl⟩
    · next hmark =>
      refine Or.inr ⟨_,rfl,fun s _ hread key _ => ⟨row,?_,?_⟩⟩
      · rw [syncTimestamps_deletedAt] at hmark
        exact fun hnone => hmark (by simp [ResourceRow.scan,hnone])
      · have hid : row.id = id := Table.find_some_key hrow
        subst hid
        rw [syncTimestamps_id]
        exact hread

theorem safe_sourceWrite {action : EventAction} (hne : action ≠ .deleteRequest) (id : String) :
    Safe (faultyPool n) (deleteRule tasks) i (fun _ _ => True) (SourceClient.onWrite ext action id)
      fun _ => True := by
  refine faultyPool_executes.safe_read_publish kept_true (fun _ _ => trivial) (fun err => ?_)
    fun row s _ hrow => ?_
  · dsimp only
    split <;> exact ⟨_,rfl⟩
  · dsimp only
    split
    · exact Or.inl ⟨_,rfl⟩
    · refine Or.inr ⟨_,rfl,fun s _ _ => ?_⟩
      cases action with
      | deleteRequest => exact absurd rfl hne
      | _ => trivial

theorem safe_sourceEvent :
    Safe (faultyPool n) (deleteRule tasks) i (fun _ _ => True)
      (handleEvent (sourceControllers ext) (.lockBased []) key) fun _ => True := by
  refine faultyPool_executes.safe_handleEvent kept_true (fun _ _ _ => trivial)
    (safe_unpublished ?_) (faultyPool_executes.safe_processEvent (P := fun _ => True) (.const _)
      (fun _ _ => trivial) (fun _ h => h) fun e s source fns _ _ _ hs ht => ?_)
  · exact (filter_calls (lockBased_make (fun _ => trivial) fun _ => trivial) key).mono
      (fun _ h => h) fun _ _ => trivial
  · refine ⟨fun _ => True,fun _ => True,.const _,trivial,.const _,fun _ _ => trivial,
      (Executes.safe_runHandlers fun fn hfn => ?_).weaken (fun _ h => h)
        fun _ _ _ => ⟨trivial,fun _ => trivial⟩,
      fun now => safe_unpublished (replace_calls trivial fun _ => trivial)⟩
    rcases resourceControllers_handlers hs ht with ⟨-,rfl⟩ | ⟨-,rfl⟩ | ⟨-,rfl⟩ <;>
      rw [List.mem_singleton.mp hfn]
    · exact safe_sourceWrite (by decide) _
    · exact safe_sourceWrite (by decide) _
    · exact safe_sourceDelete _

theorem deliveryStart_deletes (s₀ : State) :
    Verified (faultyPool n) (deleteRule tasks) (fun _ _ _ => True) (deliveryStart ext tasks s₀) := by
  intro i
  refine ⟨fun _ => True,.const _,trivial,?_⟩
  -- the rule is about the sessions of the source client only
  have hfree : (∀ key, tasks i ≠ .source key) → Safe (faultyPool n) (deleteRule tasks) i
      (fun _ _ => True) ((tasks i).run ext) fun _ => True := by
    intro hne
    refine faultyPool_executes.safe_rest (V := fun _ => True) kept_true (fun c s _ _ => ?_)
      (.trivial _)
    cases c with
    | publish action res =>
      cases action with
      | deleteRequest => exact fun key he => absurd he (hne key)
      | _ => trivial
    | _ => trivial
  change Safe _ _ i _ ((tasks i).run ext) _
  cases htask : tasks i with
  | source key => exact Safe.map safe_sourceEvent fun _ _ h => h
  | broker key => exact htask ▸ hfree (by simp [htask])
  | operation op => exact htask ▸ hfree (by simp [htask])

theorem DeletesFollowReads.step (ha : deleteRule tasks i c s) (hx : faultyPool n i ch c s = some (r,s'))
    (h : DeletesFollowReads tasks s.journal) : DeletesFollowReads tasks s'.journal := by
  intro pre j res post hsplit key htask
  by_cases hc : ∃ action res, c = .publish action res
  · obtain ⟨action,res',rfl⟩ := hc
    rcases exec_publish hx with rfl | rfl
    · exact h pre j res post hsplit key htask
    · rcases snoc_split hsplit with ⟨rest,hold⟩ | ⟨he,rfl⟩
      · exact h pre j res rest hold key htask
      · obtain ⟨hij,hact⟩ := Entry.mk.inj he
        cases hact
        cases Fin.ext hij
        exact ha key htask
  · obtain ⟨acts,hj,hb⟩ := exec_acts hx
    rw [hj] at hsplit
    rcases append_split hsplit with ⟨rest,hold,-⟩ | ⟨mid,hnew,-⟩
    · exact h pre j res rest hold key htask
    · have hm : (⟨j,.published .deleteRequest res⟩ : Entry) ∈ acts.map (Entry.mk i) := by
        rw [hnew]
        simp
      obtain ⟨a,hmem,he⟩ := List.mem_map.mp hm
      obtain ⟨-,rfl⟩ := Entry.mk.inj he
      exact absurd ⟨_,_,(hb _ hmem).resolve_right fun hn => hn trivial⟩ hc

end DeleteOutline

/-- The resource is there and marked as deleting. -/
def State.Marked (s : State) (id : String) : Prop :=
  ∃ row, s.resources.find id = some row ∧ row.deletedAt ≠ none

/-- Delete events of the resource belong to a row that is marked, not to an earlier one. -/
def State.DeletesMarked (s : State) (id : String) : Prop :=
  ∀ key e, s.events.find key = some e → e.eventType = .delete → e.sourceID = id → s.Marked id

/-- One incarnation of the resource: its row is not hard-deleted, a Delete event is written and a
delete request is published only while it is marked, and the other requests are published right
after a read of a row without the mark. -/
def incarnationRule (id : String) {n : ℕ} (i : Fin n) (c : Call) (s : State) : Prop :=
  match c with
  | .deleteResource id' true => id' ≠ id
  | .createEvent e | .saveEvent e => e.eventType = .delete → e.sourceID = id → s.Marked id
  | .publish .deleteRequest res => res.id = id → s.Marked id
  | .publish .createRequest res | .publish .updateRequest res => res.id = id →
    ∃ row, row.deletedAt = none ∧ [.readResource id (some row)] <:+ s.acts i
  | _ => True

/-- Calls that write no Delete event of the resource and do not hard-delete it, and neither publish
nor save anything. -/
def Call.outside (id : String) : Call → Prop
  | .deleteResource id' true => id' ≠ id
  | .createEvent e => e.eventType = .delete → e.sourceID ≠ id
  | .saveEvent _ | .publish _ _ => False
  | _ => True

/-- An operation that neither marks nor removes the resource. -/
theorem Op.run_outside (ext : External) {id : String} (op : Op) (hop : op ≠ .delete id)
    (hm : ∀ interval, op ≠ .markAsDeleting interval id) :
    (op.run ext).Calls Answers (Call.outside id) fun _ => True := by
  have hn : ∀ c : Call, c.neutral → c.outside id := fun c hc => by cases c <;> trivial
  cases op with
  | create res h =>
    exact (create_calls hn ext res trivial fun _ _ he => by cases he).map fun _ _ => trivial
  | update res =>
    exact (update_calls hn ext res trivial trivial (fun _ => trivial) fun he => by cases he).map
      fun _ _ => trivial
  | publishUpdate res =>
    refine Prog.Calls.map (Q := fun _ => True) (.bind (get_calls ext res.id trivial) fun r _ => ?_)
      fun _ _ => trivial
    cases r with
    | error err => trivial
    | ok found =>
      refine .bind (Q := fun _ => True) ?_ fun r _ => by cases r <;> trivial
      split <;> exact update_calls hn ext _ trivial trivial (fun _ => trivial) fun he => by cases he
  | updateStatus res =>
    exact (updateStatus_calls hn ext res trivial trivial trivial).map fun _ _ => trivial
  | markAsDeleting interval id' =>
    have hid : id' ≠ id := fun he => hm interval (by rw [he])
    exact (markAsDeleting_calls hn interval id' trivial trivial trivial trivial fun _ => hid).map
      fun _ _ => trivial
  | delete id' =>
    exact (delete_calls hn id' fun hid => hop (by rw [hid])).map fun _ _ => trivial

/-- The operation does not hard-delete the resource. -/
def DeliveryTask.spares (id : String) : DeliveryTask → Prop
  | .operation op => op ≠ .delete id
  | _ => True

section Incarnation

variable {ext : External} {n : ℕ} {i : Fin n} {id key : String} {c : Call} {s s' : State}
    {pool : Fin n → Choice → (c : Call) → State → Option (c.Resp × State)} (hpool : Executes pool)

theorem RowEffect.marked {t : ℕ} (h : RowEffect t s c s')
    (hc : ∀ id', c = .deleteResource id' true → id' ≠ id) (hm : s.Marked id) : s'.Marked id := by
  obtain ⟨row,hrow,hd⟩ := hm
  cases h with
  | quiet acts hr _ _ => exact ⟨row,by rw [hr]; exact hrow,hd⟩
  | insert resource now uuid hi =>
    refine ⟨row,?_,hd⟩
    rw [State.find_insertResource,if_neg]
    · exact hrow
    · rintro rfl
      have hfree := hi.1
      rw [hrow] at hfree
      cases hfree
  | spec version payload now =>
    rw [State.Marked,State.find_writeSpec]
    split
    · exact ⟨row.setSpec version payload now,by rw [hrow]; rfl,hd⟩
    · exact ⟨row,hrow,hd⟩
  | status status now =>
    rw [State.Marked,State.find_writeStatus]
    split
    · exact ⟨row.setStatus status now,by rw [hrow]; rfl,hd⟩
    · exact ⟨row,hrow,hd⟩
  | soft now =>
    rw [State.Marked,State.find_softDelete]
    split
    · exact ⟨_,by rw [hrow]; rfl,by simp [ResourceRow.setDeletedAt]⟩
    · exact ⟨row,hrow,hd⟩
  | @hard id' cur hcur =>
    have hid : cur.id = id' := Table.find_some_key hcur
    refine ⟨row,?_,hd⟩
    rw [State.find_hardDelete,if_neg]
    · exact hrow
    · rintro rfl
      exact hc id' rfl hid.symm

theorem RowEffect.present {t : ℕ} (h : RowEffect t s c s')
    (hc : ∀ id', c = .deleteResource id' true → id' ≠ id)
    (hrow : ∃ row, s.resources.find id = some row) : ∃ row, s'.resources.find id = some row := by
  obtain ⟨row,hrow⟩ := hrow
  cases h with
  | quiet acts hr _ _ => exact ⟨row,by rw [hr]; exact hrow⟩
  | insert resource now uuid hi =>
    rw [State.find_insertResource]
    split
    · exact ⟨_,rfl⟩
    · exact ⟨row,hrow⟩
  | spec => rw [State.find_writeSpec]; split <;> simp [hrow]
  | status => rw [State.find_writeStatus]; split <;> simp [hrow]
  | soft => rw [State.find_softDelete]; split <;> simp [hrow]
  | @hard id' cur hcur =>
    have hid : cur.id = id' := Table.find_some_key hcur
    rw [State.find_hardDelete,if_neg]
    · exact ⟨row,hrow⟩
    · rintro rfl
      exact hc id' rfl hid.symm

include hpool

theorem kept_marked : Kept pool (incarnationRule id) fun s => s.Marked id := by
  intro j ch c s r s' ha hx hm
  refine (exec_rowEffect (hpool j ch c s r s' hx)).marked ?_ hm
  rintro id' rfl
  exact ha

theorem kept_deletesMarked : Kept pool (incarnationRule id) fun s => s.DeletesMarked id := by
  intro j ch c s r s' ha hx h key e hrow ht hid
  have hkeep : s.Marked id → s'.Marked id := kept_marked hpool j ch c s r s' ha hx
  cases exec_eventEffect (hpool j ch c s r s' hx) with
  | quiet acts he _ _ =>
    rw [he] at hrow
    exact hkeep (h key e hrow ht hid)
  | insert event now uuid hfree =>
    rw [State.find_insertEvent] at hrow
    split at hrow
    · cases hrow
      exact hkeep (ha ht hid)
    · exact hkeep (h key e hrow ht hid)
  | save event now =>
    rw [State.find_saveEvent] at hrow
    split at hrow
    · cases hrow
      exact hkeep (ha ht hid)
    · exact hkeep (h key e hrow ht hid)
  | purge =>
    rw [State.find_purgeEvents] at hrow
    exact hkeep (h key e (Option.filter_eq_some_iff.mp hrow).1 ht hid)
  | retire cutoff date now picked hp =>
    rw [State.find_retireEvents] at hrow
    obtain ⟨e',hrow',rfl⟩ := Option.map_eq_some_iff.mp hrow
    have hsame : (e'.setReconciled picked date now).eventType = e'.eventType ∧
        (e'.setReconciled picked date now).sourceID = e'.sourceID := by
      unfold Event.setReconciled
      split <;> exact ⟨rfl,rfl⟩
    exact hkeep (h key e' hrow' (hsame.1 ▸ ht) (hsame.2 ▸ hid))

/-- What `handleEvent` knows about the event that it has read. -/
theorem kept_read (e : Event) : Kept pool (incarnationRule id) fun s =>
    s.DeletesMarked id ∧ (e.eventType = .delete → e.sourceID = id → s.Marked id) :=
  (kept_deletesMarked hpool).and fun j ch c s r s' ha hx h ht hid =>
    kept_marked hpool j ch c s r s' ha hx (h ht hid)

omit hpool in
theorem Call.outside.allowed (hc : c.outside id) : incarnationRule id i c s := by
  cases c with
  | deleteResource id' unscoped => cases unscoped <;> exact hc
  | createEvent e => exact fun ht hid => absurd hid (hc ht)
  | saveEvent => exact hc.elim
  | publish => exact hc.elim
  | _ => trivial

theorem safe_outside {α : Type} {p : M α} (hp : p.Calls Answers (Call.outside id) fun _ => True) :
    Safe pool (incarnationRule id) i (fun _ s => s.DeletesMarked id) p
      fun s => s.DeletesMarked id :=
  hpool.safe_rest (kept_deletesMarked hpool) (fun _ _ hc _ => hc.allowed) hp

/-- Saving the event that was read, with another date. -/
theorem safe_replaceRead {e e' : Event} (ht : e'.eventType = e.eventType)
    (hid : e'.sourceID = e.sourceID) :
    Safe pool (incarnationRule id) i (fun _ s => s.DeletesMarked id) (EventService.replace e')
      fun s => s.DeletesMarked id ∧ (e.eventType = .delete → e.sourceID = id → s.Marked id) := by
  have hcalls : (EventService.replace e').Calls Answers
      (fun c => c = .saveEvent e' ∨ ∃ err, c = .markForRollback err) fun _ => True :=
    replace_calls (Or.inl rfl) fun err => Or.inr ⟨err,rfl⟩
  refine (hpool.safe_rest (kept_read hpool e) ?_ hcalls).weaken (fun _ h => h) fun _ _ h => h.1
  rintro c s (rfl | ⟨err,rfl⟩) hs
  · exact fun ht' hid' => hs.2 (ht ▸ ht') (hid ▸ hid')
  · trivial

/-- `OnCreate` and `OnUpdate` of either server. -/
theorem safe_write {f : Except ServiceError Resource → M (Except String Unit)}
    {action : EventAction} (ha : action = .createRequest ∨ action = .updateRequest)
    (herr : ∀ err, ∃ x, f (.error err) = .ret x)
    (hok : ∀ res : Resource, f (.ok res) = if res.deletedAt.time.isSome then .ret (.ok ())
      else perform (.publish action res) >>= fun sent => .ret (publishErr sent))
    {F : State → Prop} (hF : Kept pool (incarnationRule id) F) :
    Safe pool (incarnationRule id) i (fun _ => F) (ResourceService.get ext key >>= f) F := by
  refine hpool.safe_read_publish hF (fun _ _ => trivial) herr fun row s hs hrow => ?_
  rw [hok,syncTimestamps_deletedAt]
  split
  · exact Or.inl ⟨_,rfl⟩
  · next hlive =>
    refine Or.inr ⟨_,rfl,fun s _ hread => ?_⟩
    have hkey : row.id = key := Table.find_some_key hrow
    have hnone : row.deletedAt = none := by simpa [ResourceRow.scan] using hlive
    have hpub : (syncTimestampsFromResourceMeta ext row.scan).id = id →
        ∃ row, row.deletedAt = none ∧ [.readResource id (some row)] <:+ s.acts i := by
      rw [syncTimestamps_id]
      rintro rfl
      subst hkey
      exact ⟨row,hnone,hread⟩
    rcases ha with rfl | rfl
    · exact hpub
    · exact hpub

/-- `OnDelete` of either server, for an event that it has read. -/
theorem safe_deletion {f : Except ServiceError Resource → M (Except String Unit)} {e : Event}
    (he : e.eventType = .delete) (herr : ∀ err, ∃ x, f (.error err) = .ret x)
    (hok : ∀ res : Resource, (∃ x, f (.ok res) = .ret x) ∨
      f (.ok res) = perform (.publish .deleteRequest res) >>= fun sent => .ret (publishErr sent)) :
    Safe pool (incarnationRule id) i
      (fun _ s => s.DeletesMarked id ∧ (e.eventType = .delete → e.sourceID = id → s.Marked id))
      (ResourceService.get ext e.sourceID >>= f)
      fun s => s.DeletesMarked id ∧ (e.eventType = .delete → e.sourceID = id → s.Marked id) := by
  refine hpool.safe_read_publish (kept_read hpool e) (fun _ _ => trivial) herr
    fun row s hs hrow => (hok _).imp_right fun hpub => ⟨_,hpub,fun s hs _ => ?_⟩
  have hkey : row.id = e.sourceID := Table.find_some_key hrow
  intro hid
  rw [syncTimestamps_id] at hid
  exact hs.2 he (hkey.symm.trans hid)

/-- `processEvent` with the handlers of either server. -/
theorem safe_incarnationEvent {onCreate onUpdate onDelete : ControllerHandlerFunc}
    (hc : ∀ F, Kept pool (incarnationRule id) F → ∀ key,
      Safe pool (incarnationRule id) i (fun _ => F) (onCreate key) F)
    (hu : ∀ F, Kept pool (incarnationRule id) F → ∀ key,
      Safe pool (incarnationRule id) i (fun _ => F) (onUpdate key) F)
    (hd : ∀ e : Event, e.eventType = .delete → Safe pool (incarnationRule id) i
      (fun _ s => s.DeletesMarked id ∧ (e.eventType = .delete → e.sourceID = id → s.Marked id))
      (onDelete e.sourceID)
      fun s => s.DeletesMarked id ∧ (e.eventType = .delete → e.sourceID = id → s.Marked id)) :
    Safe pool (incarnationRule id) i (fun _ s => s.DeletesMarked id)
      (processEvent (resourceControllers onCreate onUpdate onDelete) key)
      fun s => s.DeletesMarked id := by
  refine hpool.safe_processEvent ((kept_deletesMarked hpool).stable i) (fun _ _ => trivial)
    (fun _ h => h) fun e s source fns hs hrow _ hsource hfns => ?_
  refine ⟨_,_,(kept_read hpool e).stable i,⟨hs,hs key e hrow⟩,(kept_read hpool e).stable i,
    fun _ _ => trivial,(Executes.safe_runHandlers fun fn hfn => ?_).weaken (fun _ h => h)
      fun _ _ h => ⟨h.1,fun _ => h⟩,fun now => safe_replaceRead hpool rfl rfl⟩
  rcases resourceControllers_handlers hsource hfns with ⟨-,rfl⟩ | ⟨-,rfl⟩ | ⟨ht,rfl⟩ <;>
    rw [List.mem_singleton.mp hfn]
  · exact hc _ (kept_read hpool e) e.sourceID
  · exact hu _ (kept_read hpool e) e.sourceID
  · exact hd e ht

theorem safe_predicate :
    Safe pool (incarnationRule id) i (fun _ s => s.DeletesMarked id)
      (GRPCBroker.predicateEvent ext key) fun s => s.DeletesMarked id :=
  hpool.safe_predicateEvent ((kept_deletesMarked hpool).stable i) (fun _ _ => trivial)
    (fun _ h => h) fun e _ hs hrow _ => ⟨_,kept_read hpool e,⟨hs,hs key e hrow⟩,
      fun _ hs => ⟨hs.1,trivial,trivial,fun _ => trivial⟩,
      fun _ => (safe_replaceRead hpool rfl rfl).weaken (fun _ h => h.1) fun _ _ h => h⟩

/-- A read tells that the row is there from then on. -/
theorem kept_present : Kept pool (incarnationRule id) fun s => ∃ row, s.resources.find id = some row := by
  intro j ch c s r s' ha hx hrow
  refine (exec_rowEffect (hpool j ch c s r s' hx)).present ?_ hrow
  rintro id' rfl
  exact ha

/-- What follows the mark may write the event. -/
theorem safe_marked {p : M (Except ServiceError Unit)} (hp : p.Calls Answers
      (fun c => c.outside id ∨ c = .createEvent (ResourceService.deleteEvent id)) fun _ => True) :
    Safe pool (incarnationRule id) i (fun _ s => s.DeletesMarked id) p
      fun s => s.DeletesMarked id ∧ s.Marked id := by
  refine (hpool.safe_rest ((kept_deletesMarked hpool).and (kept_marked hpool)) (fun c s hc hs => ?_)
    hp).weaken (fun _ h => h) fun _ _ h => h.1
  rcases hc with hc | rfl
  · exact hc.allowed
  · exact fun _ _ => hs.2

/-- A soft delete of a row that is there. -/
theorem safe_softDelete :
    Safe pool (incarnationRule id) i (fun r s => s.DeletesMarked id ∧ (r = .ok () → s.Marked id))
      (ResourceDao.delete id false)
      fun s => s.DeletesMarked id ∧ ∃ row, s.resources.find id = some row := by
  have hkept : Kept pool (incarnationRule id) fun s => s.DeletesMarked id :=
    kept_deletesMarked hpool
  have herr : ∀ err, Safe pool (incarnationRule id) i
      (fun r s => s.DeletesMarked id ∧ (r = .ok () → s.Marked id))
      (markForRollback err >>= fun _ => (pure (.error err) : M (Except DbErr Unit)))
      fun s => s.DeletesMarked id := by
    intro err
    have hmark : (markForRollback err).Calls Answers (Call.outside id) fun _ => True :=
      ⟨trivial,fun _ _ => trivial⟩
    exact (safe_outside hpool hmark).bind fun _ => Safe.ret fun s hs => ⟨hs,fun he => by cases he⟩
  refine Safe.call fun s ⟨hs,row,hrow⟩ => ⟨trivial,fun ch r s' hx => ?_⟩
  have hs' := hkept i ch (.deleteResource id false) s r s' trivial hx hs
  rcases exec_cases (hpool i ch _ s r s' hx) with ⟨err,-,he,rfl⟩ | ⟨-,hc⟩
  · cases he
    exact ⟨_,hkept.stable i,hs,herr err⟩
  · have hdone : s'.Marked id → ∃ P', Stable pool (incarnationRule id) i P' ∧ P' s' ∧
        Safe pool (incarnationRule id) i
          (fun r s => s.DeletesMarked id ∧ (r = .ok () → s.Marked id))
          (.ret (.ok ()) : M (Except DbErr Unit)) P' := fun hm =>
      ⟨_,(hkept.and (kept_marked hpool)).stable i,⟨hs',hm⟩,Safe.ret fun s hs => ⟨hs.1,fun _ => hs.2⟩⟩
    rcases commit_softDelete hc with ⟨-,rfl,rfl⟩ | ⟨-,rfl,⟨row',hrow',-,rfl⟩ | ⟨hm,rfl⟩⟩
    · exact ⟨_,hkept.stable i,hs,herr _⟩
    · refine hdone ⟨row'.setDeletedAt ch.now,?_,by simp [ResourceRow.setDeletedAt]⟩
      rw [State.find_softDelete,if_pos rfl,hrow']
      rfl
    · exact hdone ⟨row,hrow,hm row hrow⟩

/-- `MarkAsDeleting` writes a Delete event only after the mark. -/
theorem safe_marking (interval : Time) :
    Safe pool (incarnationRule id) i (fun _ s => s.DeletesMarked id)
      (ResourceService.markAsDeleting interval id) fun s => s.DeletesMarked id := by
  have hkept : Kept pool (incarnationRule id) fun s => s.DeletesMarked id :=
    kept_deletesMarked hpool
  have hn : ∀ c : Call, c.neutral → c.outside id := fun c hc => by cases c <;> trivial
  have hn' : ∀ c : Call, c.neutral →
      (c.outside id ∨ c = .createEvent (ResourceService.deleteEvent id)) :=
    fun c hc => Or.inl (hn c hc)
  refine Safe.call fun s hs => ⟨trivial,fun ch r s' hx => ⟨_,hkept.stable i,
    hkept i ch _ s r s' trivial hx hs,?_⟩⟩
  obtain ⟨owner,lockErr⟩ := r
  have hunlock : ∀ a : Except ServiceError Unit, (unlock owner >>= fun _ => (pure a : M _)).Calls
      Answers (Call.outside id) fun _ => True :=
    fun a => (unlock_calls hn owner).bind fun _ _ => trivial
  change Safe _ _ i _ (Prog.deferring (unlock owner) _) _
  refine Safe.bind (Q := fun _ s => s.DeletesMarked id) ?_ fun a => safe_outside hpool (hunlock a)
  cases lockErr with
  | some err => exact Safe.ret fun _ h => h
  | none =>
    refine Safe.call fun s hs => ⟨trivial,fun ch r s' hx => ?_⟩
    have hs' := hkept i ch _ s r s' trivial hx hs
    rcases exec_cases (hpool i ch _ s r s' hx) with ⟨err,-,he,rfl⟩ | ⟨-,hc⟩
    · cases he
      refine ⟨_,hkept.stable i,hs,?_⟩
      change Safe _ _ i _ (if (handleGetError "Resource" "id" id err).is404 then _ else _) _
      split <;> exact Safe.ret fun _ h => h
    · obtain ⟨rfl,⟨-,rfl⟩ | ⟨row,hrow,rfl⟩⟩ := commit_takeResource hc
      · exact ⟨_,hkept.stable i,hs',Safe.ret fun _ h => h⟩
      · have hpresent := kept_present hpool i ch (.takeResource id) s _ _ trivial hx ⟨row,hrow⟩
        by_cases hd : row.deletedAt = none
        · refine ⟨_,(hkept.and (kept_present hpool)).stable i,⟨hs',hpresent⟩,?_⟩
          change Safe _ _ i _ (if row.deletedAt.isSome then _ else _) _
          rw [if_neg (by simp [hd])]
          refine Safe.bind (safe_softDelete hpool) fun r => ?_
          cases r with
          | error err => exact Safe.ret fun _ h => h.1
          | ok u =>
            refine (safe_marked hpool (announce_calls hn' (Or.inr rfl) _ _)).weaken
              (fun s hs => ⟨hs.1,hs.2 rfl⟩) fun _ _ h => h
        · have hm := kept_marked hpool i ch (.takeResource id) s _ _ trivial hx ⟨row,hrow,hd⟩
          refine ⟨_,(hkept.and (kept_marked hpool)).stable i,⟨hs',hm⟩,?_⟩
          change Safe _ _ i _ (if row.deletedAt.isSome then _ else _) _
          rw [if_pos (Option.isSome_iff_ne_none.mpr hd)]
          exact safe_marked hpool (republishDeleteEvent_calls hn' interval id (Or.inl trivial)
            (Or.inr rfl))

theorem safe_operation {op : Op} (hop : op ≠ .delete id) :
    Safe pool (incarnationRule id) i (fun _ s => s.DeletesMarked id) (op.run ext)
      fun s => s.DeletesMarked id := by
  by_cases hm : ∃ interval, op = .markAsDeleting interval id
  · obtain ⟨interval,rfl⟩ := hm
    exact Safe.map (safe_marking hpool interval) fun _ _ h => h
  · exact safe_outside hpool (op.run_outside ext hop fun interval he => hm ⟨interval,he⟩)

theorem deliveryStart_incarnation {tasks : Fin n → DeliveryTask} {s₀ : State}
    (htasks : ∀ i, (tasks i).spares id) (h₀ : s₀.DeletesMarked id) :
    Verified pool (incarnationRule id) (fun _ _ s => s.DeletesMarked id)
      (deliveryStart ext tasks s₀) := by
  intro i
  have hkept : Kept pool (incarnationRule id) fun s => s.DeletesMarked id :=
    kept_deletesMarked hpool
  refine ⟨_,hkept.stable i,h₀,?_⟩
  have hspares := htasks i
  change Safe _ _ i _ ((tasks i).run ext) _
  cases htask : tasks i with
  | source key =>
    refine Safe.map (hpool.safe_handleEvent hkept (fun _ _ _ => trivial) (safe_outside hpool ?_)
      (safe_incarnationEvent hpool ?_ ?_ ?_)) fun _ _ h => h
    · exact (filter_calls (lockBased_make (fun _ => trivial) fun _ => trivial) key).mono
        (fun _ h => h) fun _ _ => trivial
    · refine fun F hF key => safe_write hpool (Or.inl rfl) (fun err => ?_) (fun _ => rfl) hF
      dsimp only
      split <;> exact ⟨_,rfl⟩
    · refine fun F hF key => safe_write hpool (Or.inr rfl) (fun err => ?_) (fun _ => rfl) hF
      dsimp only
      split <;> exact ⟨_,rfl⟩
    · refine fun e he => safe_deletion hpool he (fun err => ?_) fun res => ?_
      · dsimp only
        split <;> exact ⟨_,rfl⟩
      · dsimp only
        split
        · exact Or.inl ⟨_,rfl⟩
        · exact Or.inr rfl
  | broker key =>
    refine Safe.map (hpool.safe_handleEvent hkept (fun _ _ _ => trivial)
      (Safe.bind (safe_predicate hpool) fun _ => Safe.ret fun _ h => h)
      (safe_incarnationEvent hpool ?_ ?_ ?_)) fun _ _ h => h
    · refine fun F hF key => safe_write hpool (Or.inl rfl) (fun err => ?_) (fun _ => rfl) hF
      dsimp only
      split <;> exact ⟨_,rfl⟩
    · refine fun F hF key => safe_write hpool (Or.inr rfl) (fun err => ?_) (fun _ => rfl) hF
      dsimp only
      split <;> exact ⟨_,rfl⟩
    · refine fun e he => safe_deletion hpool he (fun err => ?_) fun res => Or.inr rfl
      dsimp only
      split <;> exact ⟨_,rfl⟩
  | operation op =>
    rw [htask] at hspares
    exact Safe.map (safe_operation hpool hspares) fun _ _ h => h

end Incarnation

/-- An entry that asks the agent to delete the resource. -/
def Entry.deleteRequest (id : String) (e : Entry) : Bool :=
  match e.act with
  | .published .deleteRequest res => res.id = id
  | _ => false

/-- An entry that asks the agent to create or to update the resource. -/
def Entry.assertion (id : String) (e : Entry) : Bool :=
  match e.act with
  | .published .createRequest res | .published .updateRequest res => res.id = id
  | _ => false

/-- A read of the row of the resource. -/
def Entry.reads (id : String) (e : Entry) : Bool :=
  match e.act with
  | .readResource id' _ => id' = id
  | _ => false

/-- A read that found the row without a deletion mark. -/
def Entry.liveRead (id : String) (e : Entry) : Bool :=
  match e.act with
  | .readResource id' (some row) => decide (id' = id ∧ row.deletedAt = none)
  | _ => false

theorem Entry.deleteRequest_iff {id : String} {e : Entry} :
    e.deleteRequest id ↔ ∃ res, e.act = .published .deleteRequest res ∧ res.id = id := by
  unfold Entry.deleteRequest
  split <;> simp_all

theorem Entry.assertion_iff {id : String} {e : Entry} :
    e.assertion id ↔ ∃ action res, (action = .createRequest ∨ action = .updateRequest) ∧
      e.act = .published action res ∧ res.id = id := by
  unfold Entry.assertion
  split <;> simp_all

theorem Entry.liveRead_iff {id : String} {e : Entry} :
    e.liveRead id ↔ ∃ row, e.act = .readResource id (some row) ∧ row.deletedAt = none := by
  unfold Entry.liveRead
  split <;> simp_all

/-- No delete request has been published since the session read the resource. -/
def State.unraced (s : State) (i : ℕ) (id : String) : Bool :=
  (s.journal.reverse.takeWhile fun e => !(decide (e.session = i) && e.reads id)).all
    fun e => !e.deleteRequest id

/-- A create or update request is not overtaken by a delete request. -/
def Call.unraced (i : ℕ) (s : State) : Call → Bool
  | .publish .createRequest res | .publish .updateRequest res => s.unraced i res.id
  | _ => true

/-- Create and update requests are published only if no delete request for the resource was
published since its row was read. -/
def unracedPool (n : ℕ) (i : Fin n) (ch : Choice) (c : Call) (s : State) :
    Option (c.Resp × State) :=
  if c.unraced i s then exec i ch c s else none

/-- A row whose deletion was asked for is marked. -/
def State.RequestsMarked (s : State) (id : String) : Prop :=
  (∃ e ∈ s.journal, e.deleteRequest id) → s.Marked id

/-- After a delete request no read finds the row without the mark and nothing is asked but
deletion. -/
structure OneWay (id : String) (s : State) : Prop where
  order : s.journal.Pairwise fun a b => a.deleteRequest id → ¬ b.assertion id ∧ ¬ b.liveRead id
  marked : s.RequestsMarked id

section Order

variable {ext : External} {n : ℕ} {i : Fin n} {id : String} {ch : Choice} {c : Call} {r : c.Resp}
    {s s' : State}

theorem unracedPool_exec (h : unracedPool n i ch c s = some (r,s')) :
    exec i ch c s = some (r,s') ∧ c.unraced i s := by
  unfold unracedPool at h
  split at h
  · next hc => exact ⟨h,hc⟩
  · cases h

theorem unracedPool_executes : Executes (unracedPool n) := fun _ _ _ _ _ _ hx => (unracedPool_exec hx).1

/-- Where the last act of a session stands in the journal. -/
theorem State.last_act {t : ℕ} {a : Act} (h : [a] <:+ s.acts t) :
    ∃ pre post, s.journal = pre ++ ⟨t,a⟩ :: post ∧ ∀ e ∈ post, e.session ≠ t := by
  obtain ⟨A,hA⟩ := h
  obtain ⟨l₁,l₂,hsplit,-,hl₂⟩ := List.map_eq_append_iff.mp hA.symm
  obtain ⟨e,rest,rfl,he,hrest⟩ := List.map_eq_cons_iff.mp hl₂
  cases List.map_eq_nil_iff.mp hrest
  obtain ⟨J₁,J₂,hJ,-,hJ₂⟩ := List.filter_eq_append_iff.mp hsplit
  obtain ⟨mid,post,hmid,-,hsession,hpost⟩ := List.filter_eq_cons_iff.mp hJ₂
  refine ⟨J₁ ++ mid,post,?_,fun e hm => ?_⟩
  · obtain ⟨u,b⟩ := e
    cases of_decide_eq_true hsession
    cases he
    rw [hJ,hmid,List.append_assoc]
  · simpa using List.filter_eq_nil_iff.mp hpost e hm

/-- A session that has just read the row, with no delete request since. -/
theorem State.unraced_read {t : ℕ} {row : Option ResourceRow}
    (h : [.readResource id row] <:+ s.acts t) (hu : s.unraced t id) :
    ∃ pre post, s.journal = pre ++ ⟨t,.readResource id row⟩ :: post ∧
      ∀ e ∈ post, ¬ e.deleteRequest id := by
  obtain ⟨pre,post,hJ,hpost⟩ := State.last_act h
  refine ⟨pre,post,hJ,fun e hm => ?_⟩
  have hskip : ∀ e ∈ post.reverse, (!(decide (e.session = t) && e.reads id)) = true := by
    intro e he
    simp [hpost e (List.mem_reverse.mp he)]
  rw [State.unraced,hJ,List.reverse_append,List.reverse_cons,List.append_assoc,
    List.takeWhile_append_of_pos hskip,List.all_append,Bool.and_eq_true] at hu
  simpa using List.all_eq_true.mp hu.1 e (List.mem_reverse.mpr hm)

/-- A request for the resource that may be published now comes after no delete request. -/
theorem OneWay.unrequested (h : OneWay id s) {row : ResourceRow} (hlive : row.deletedAt = none)
    (hread : [.readResource id (some row)] <:+ s.acts i) (hu : s.unraced i id) :
    ∀ e ∈ s.journal, ¬ e.deleteRequest id := by
  obtain ⟨pre,post,hJ,hpost⟩ := State.unraced_read hread hu
  intro e hm hdel
  have horder := h.order
  rw [hJ] at hm horder
  rcases List.mem_append.mp hm with hm | hm
  · refine ((List.pairwise_append.mp horder).2.2 e hm _ List.mem_cons_self hdel).2 ?_
    simp [Entry.liveRead,hlive]
  · rcases List.mem_cons.mp hm with rfl | hm
    · cases hdel
    · exact hpost e hm hdel

theorem exec_entries (h : exec i ch c s = some (r,s')) : ∃ new : List Entry,
    s'.journal = s.journal ++ new ∧ ∀ b ∈ new, b.act.quiet → b.act.recordedBy s c := by
  obtain ⟨acts,hj,hb⟩ := exec_acts h
  refine ⟨_,hj,fun b hm hq => ?_⟩
  obtain ⟨a,hmem,rfl⟩ := List.mem_map.mp hm
  exact (hb a hmem).resolve_right fun hn => hn hq

/-- The call that recorded a delete request. -/
theorem Entry.deleteRequest_call {e : Entry} (h : e.deleteRequest id)
    (hnew : e.act.quiet → e.act.recordedBy s c) :
    ∃ res, c = .publish .deleteRequest res ∧ res.id = id := by
  obtain ⟨res,hact,hid⟩ := Entry.deleteRequest_iff.mp h
  rw [hact] at hnew
  exact ⟨res,hnew trivial,hid⟩

theorem Entry.assertion_call {e : Entry} (h : e.assertion id)
    (hnew : e.act.quiet → e.act.recordedBy s c) :
    ∃ action res, (action = .createRequest ∨ action = .updateRequest) ∧
      c = .publish action res ∧ res.id = id := by
  obtain ⟨action,res,haction,hact,hid⟩ := Entry.assertion_iff.mp h
  rw [hact] at hnew
  exact ⟨action,res,haction,hnew trivial,hid⟩

theorem Entry.liveRead_call {e : Entry} (h : e.liveRead id)
    (hnew : e.act.quiet → e.act.recordedBy s c) :
    c = .takeResource id ∧ ∃ row, s.resources.find id = some row ∧ row.deletedAt = none := by
  obtain ⟨row,hact,hlive⟩ := Entry.liveRead_iff.mp h
  rw [hact] at hnew
  obtain ⟨hc,hrow⟩ := hnew trivial
  exact ⟨hc,row,hrow.symm,hlive⟩

theorem kept_requestsMarked {pool : Fin n → Choice → (c : Call) → State → Option (c.Resp × State)}
    (hpool : Executes pool) : Kept pool (incarnationRule id) fun s => s.RequestsMarked id := by
  rintro j ch c s r s' ha hx h ⟨e,hm,hreq⟩
  refine kept_marked hpool j ch c s r s' ha hx ?_
  obtain ⟨new,hj,hnew⟩ := exec_entries (hpool j ch c s r s' hx)
  rw [hj] at hm
  rcases List.mem_append.mp hm with hm | hm
  · exact h ⟨e,hm,hreq⟩
  · obtain ⟨res,rfl,hid⟩ := Entry.deleteRequest_call hreq (hnew e hm)
    exact ha hid

theorem OneWay.step (ha : incarnationRule id i c s) (hx : unracedPool n i ch c s = some (r,s'))
    (h : OneWay id s) : OneWay id s' := by
  refine ⟨?_,kept_requestsMarked unracedPool_executes i ch c s r s' ha hx h.marked⟩
  obtain ⟨hx,hu⟩ := unracedPool_exec hx
  obtain ⟨new,hj,hnew⟩ := exec_entries hx
  rw [hj,List.pairwise_append]
  refine ⟨h.order,List.pairwise_iff_forall_sublist.mpr fun {a b} hab hreq => ?_,
    fun a ham b hbm hreq => ?_⟩
  · -- a call that publishes a delete request records nothing else
    obtain ⟨res,hc,-⟩ := Entry.deleteRequest_call hreq (hnew a (hab.subset (by simp)))
    have hb := hnew b (hab.subset (by simp))
    refine ⟨fun hassert => ?_,fun hlive => ?_⟩
    · obtain ⟨action,res',haction,hcall,-⟩ := Entry.assertion_call hassert hb
      cases hc.symm.trans hcall
      exact haction.elim (fun he => by cases he) fun he => by cases he
    · cases hc.symm.trans (Entry.liveRead_call hlive hb).1
  · refine ⟨fun hassert => ?_,fun hlive => ?_⟩
    · obtain ⟨action,res,haction,rfl,hid⟩ := Entry.assertion_call hassert (hnew b hbm)
      rcases haction with rfl | rfl <;>
      · obtain ⟨row,hlive,hread⟩ := ha hid
        exact h.unrequested hlive hread (hid ▸ hu) a ham hreq
    · obtain ⟨-,row,hrow,hlive⟩ := Entry.liveRead_call hlive (hnew b hbm)
      obtain ⟨row',hrow',hd⟩ := h.marked ⟨a,ham,hreq⟩
      cases hrow.symm.trans hrow'
      exact hd hlive

end Order

/-- A schedule in which every consumer is subscribed. -/
def subscribedTurns {n : ℕ} (sessions : List (Fin n)) : List (Fin n × Choice) :=
  (turns sessions).map fun p => (p.1,{ p.2 with subscribed := fun _ => true })

theorem State.single_deletesMarked (row : ResourceRow) (id : String) :
    (State.single row).DeletesMarked id := fun _ _ hrow => by cases hrow

/-- A deletion, and an instance of the source client that handles its event. -/
def deletionTasks : Fin 2 → DeliveryTask
  | 0 => .operation (.markAsDeleting 0 "web")
  | 1 => .source "uuid-3"

def deletionStart : Config (Fin 2) State Call Call.Resp Unit :=
  deliveryStart Reference.packages deletionTasks (.single Reference.webRow)

/-- The delete request of a session that ends the journal. -/
def lastDeleteRequest (t : ℕ) (J : List Entry) : Option Resource :=
  match J.getLast? with
  | some ⟨u,.published .deleteRequest res⟩ => if u = t then some res else none
  | _ => none

theorem eq_concat_of_lastDeleteRequest {t : ℕ} {J : List Entry} {res : Resource}
    (h : lastDeleteRequest t J = some res) :
    ∃ pre, J = pre ++ [⟨t,.published .deleteRequest res⟩] := by
  unfold lastDeleteRequest at h
  split at h
  · next u res' hlast =>
    split at h
    · next hu =>
      cases h
      obtain ⟨pre,hpre⟩ := List.getLast?_eq_some_iff.mp hlast
      exact ⟨pre,hu ▸ hpre⟩
    · cases h
  · cases h

/-- A deletion that is asked for twice, and an instance for each of the two events. The resource is
removed and created again before the second instance starts. -/
def leftoverTasks (handle : String → DeliveryTask) : Fin 6 → DeliveryTask
  | 0 => .operation (.markAsDeleting 1 "web")
  | 1 => handle "uuid-3"
  | 2 => .operation (.markAsDeleting 1 "web")
  | 3 => .operation (.delete "web")
  | 4 => .operation (.create { Reference.webRow.scan with version := 0 } rfl)
  | 5 => handle "uuid-18"

def leftoverStart : Config (Fin 6) State Call Call.Resp Unit :=
  deliveryStart Reference.packages (leftoverTasks .broker) (.single Reference.webRow)

/-- The last two acts read a resource and publish a delete request. -/
def readThenDelete (A : List Act) : Option (String × ResourceRow × Resource) :=
  match A.reverse with
  | .published .deleteRequest res :: .readResource id (some row) :: _ => some (id,row,res)
  | _ => none

theorem suffix_of_readThenDelete {A : List Act} {id : String} {row : ResourceRow} {res : Resource}
    (h : readThenDelete A = some (id,row,res)) :
    [.readResource id (some row),.published .deleteRequest res] <:+ A := by
  unfold readThenDelete at h
  split at h
  · next hacts =>
    cases h
    rw [← List.reverse_prefix,hacts]
    exact ⟨_,rfl⟩
  · cases h

/-- Once a delete request for a resource has been published, no create or update request for it is
published, as long as none is overtaken by the delete request after its row was read. -/
theorem no_reassertion (ext : External) {n : ℕ} {tasks : Fin n → DeliveryTask} {id : String}
    (htasks : ∀ i, (tasks i).spares id) {s₀ : State} (h₀ : s₀.journal = [])
    (hmarked : s₀.DeletesMarked id) {cfg : Config (Fin n) State Call Call.Resp Unit}
    (hr : Reach (unracedPool n) (deliveryStart ext tasks s₀) cfg) :
    cfg.shared.journal.Pairwise fun a b => a.deleteRequest id → ¬ b.assertion id := by
  have hone : OneWay id cfg.shared :=
    (deliveryStart_incarnation unracedPool_executes htasks hmarked).invariant
      (fun i o c s r s' ha hx h => h.step ha hx) hr
      ⟨by simp [deliveryStart,h₀],fun ⟨e,hm,_⟩ => by simp [deliveryStart,h₀] at hm⟩
  exact hone.order.imp fun h hreq => (h hreq).1

/-- An update and a deletion, and an instance for the event of each. -/
def overtakingTasks (handle : String → DeliveryTask) (deleteEvent : String) : Fin 4 → DeliveryTask
  | 0 => .operation (.update { Reference.webRow.scan with payload := Reference.bundle "first" "web" })
  | 1 => handle "uuid-3"
  | 2 => .operation (.markAsDeleting 0 "web")
  | 3 => handle deleteEvent

def overtakingStart (handle : String → DeliveryTask) (deleteEvent : String) :
    Config (Fin 4) State Call Call.Resp Unit :=
  deliveryStart Reference.packages (overtakingTasks handle deleteEvent) (.single Reference.webRow)

/-- The update is asked for before the deletion. -/
theorem no_reassertion_in_order : ∃ cfg : Config (Fin 4) State Call Call.Resp Unit,
    Reach (unracedPool 4) (overtakingStart .source "uuid-13") cfg ∧
    (∃ a ∈ cfg.shared.journal, a.assertion "web") ∧
    (∃ a ∈ cfg.shared.journal, a.deleteRequest "web") ∧
    cfg.shared.journal.Pairwise fun a b => a.deleteRequest "web" → ¬ b.assertion "web" := by
  have h : (follow (unracedPool 4) (turns ([0,0,0,0,0,0] ++ [1,1,1,1] ++ [2,2,2,2,2,2] ++ [3,3,3,3]))
      (overtakingStart .source "uuid-13")).any fun cfg =>
      cfg.shared.journal.any (fun a => a.assertion "web") &&
      cfg.shared.journal.any fun a => a.deleteRequest "web" := by
    decide +kernel
  obtain ⟨cfg,hr,h⟩ := (Option.any_eq_true _ _).mp h
  obtain ⟨ha,hd⟩ := (Bool.and_eq_true _ _).mp h
  have htasks : ∀ i, (overtakingTasks .source "uuid-13" i).spares "web"
    | 0 => fun he => by cases he
    | 1 => trivial
    | 2 => fun he => by cases he
    | 3 => trivial
  exact ⟨cfg,.of_follow _ hr,List.any_eq_true.mp ha,List.any_eq_true.mp hd,
    no_reassertion Reference.packages htasks rfl (State.single_deletesMarked _ _) (.of_follow _ hr)⟩

/-- An instance reads the row of an update, the resource is deleted and another instance asks for
the deletion, then the first one asks for the update. This happens with either server. -/
theorem reasserted_after_delete :
    (∃ cfg, Reach (faultyPool 4) (overtakingStart .source "uuid-12") cfg ∧
      ¬ cfg.shared.journal.Pairwise fun a b => a.deleteRequest "web" → ¬ b.assertion "web") ∧
    ∃ cfg, Reach (faultyPool 4) (overtakingStart .broker "uuid-14") cfg ∧
      ¬ cfg.shared.journal.Pairwise fun a b => a.deleteRequest "web" → ¬ b.assertion "web" := by
  have hsource : (follow (faultyPool 4) (subscribedTurns ([0,0,0,0,0,0] ++ [1,1,1] ++
      [2,2,2,2,2,2] ++ [3,3,3,3] ++ [1])) (overtakingStart .source "uuid-12")).any fun cfg =>
      decide (¬ cfg.shared.journal.Pairwise fun a b =>
        a.deleteRequest "web" → ¬ b.assertion "web") := by
    decide +kernel
  have hbroker : (follow (faultyPool 4) (subscribedTurns ([0,0,0,0,0,0] ++ [1,1,1,1,1] ++
      [2,2,2,2,2,2] ++ [3,3,3,3,3,3] ++ [1])) (overtakingStart .broker "uuid-14")).any fun cfg =>
      decide (¬ cfg.shared.journal.Pairwise fun a b =>
        a.deleteRequest "web" → ¬ b.assertion "web") := by
    decide +kernel
  obtain ⟨cfg,hr,h⟩ := (Option.any_eq_true _ _).mp hsource
  obtain ⟨cfg',hr',h'⟩ := (Option.any_eq_true _ _).mp hbroker
  exact ⟨⟨cfg,.of_follow _ hr,of_decide_eq_true h⟩,cfg',.of_follow _ hr',of_decide_eq_true h'⟩

end Maestro
