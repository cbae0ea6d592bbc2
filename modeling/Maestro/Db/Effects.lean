import Maestro.Db.Store

/-!
# What a statement can do

One inversion lemma for each statement that writes, and the calls that always
succeed. Everything later about a run rests on these.
-/

namespace Maestro
open Data Concurrent

variable {t : ℕ} {ch : Choice} {s s' : State}

/-- A call is refused and changes nothing, or it is committed. -/
theorem exec_cases {c : Call} {r : c.Resp} (h : exec t ch c s = some (r,s')) :
    (∃ err, ch.fault c = some err ∧ c.failure err = some r ∧ s' = s) ∨
      ((ch.fault c).bind (fun err => c.failure err) = none ∧ commit t ch c s = some (r,s')) := by
  unfold exec at h
  split at h
  · next r' hr =>
    obtain ⟨err,he,hf⟩ := Option.bind_eq_some_iff.mp hr
    cases h
    exact Or.inl ⟨err,he,hf,rfl⟩
  · next hn => exact Or.inr ⟨hn,h⟩

/-- A committed call that can be refused was not. -/
theorem no_fault {c : Call} (h : (ch.fault c).bind (fun err => c.failure err) = none)
    (hc : ∀ err, c.failure err ≠ none) : ch.fault c = none := by
  cases hf : ch.fault c with
  | none => rfl
  | some err => rw [hf] at h; exact absurd h (hc err)

/-- A call that cannot be refused is committed. -/
theorem exec_eq_commit {c : Call} (hc : ∀ err, c.failure err = none) :
    exec t ch c s = commit t ch c s := by
  have hn : (ch.fault c).bind (fun err => c.failure err) = none :=
    Option.bind_eq_none_iff.mpr fun err _ => hc err
  rw [exec,hn]

@[simp] theorem exec_markForRollback (err : DbErr) :
    exec t ch (.markForRollback err) s = some ((),s) :=
  exec_eq_commit fun _ => rfl

@[simp] theorem exec_now : exec t ch .now s = some (ch.now,s) := exec_eq_commit fun _ => rfl

@[simp] theorem exec_unlock (owner : String) :
    exec t ch (.unlock owner) s = some ((),{ s with locks := s.locks.release owner }) :=
  exec_eq_commit fun _ => rfl

@[simp] theorem exec_handler (handler : ℕ) (sourceID : String) :
    exec t ch (.handler handler sourceID) s = some (errToExcept ch.remoteErr,
      s.record t [.handled handler sourceID ch.remoteErr.isNone]) :=
  exec_eq_commit fun _ => rfl

@[simp] theorem exec_queue (queue : ℕ) (op : QueueOp) (key : String) :
    exec t ch (.queue queue op key) s = some ((),s.record t [.queued queue op key]) :=
  exec_eq_commit fun _ => rfl

theorem commit_takeResource {id : String} {r : Except DbErr Resource}
    (h : commit t ch (.takeResource id) s = some (r,s')) :
    s' = s.record t [.readResource id (s.resources.find id)] ∧
      ((s.resources.find id = none ∧ r = .error .recordNotFound) ∨
        ∃ row, s.resources.find id = some row ∧ r = .ok row.scan) := by
  simp only [commit] at h
  cases hrow : s.resources.find id with
  | none => rw [hrow] at h; cases h; exact ⟨rfl,Or.inl ⟨rfl,rfl⟩⟩
  | some row => rw [hrow] at h; cases h; exact ⟨rfl,Or.inr ⟨row,rfl,rfl⟩⟩

/-- The state after an insert into `resources`. -/
def State.insertResource (s : State) (t : ℕ) (row : ResourceRow)
    (h : s.resources.find row.id = none) : State :=
  { s with resources := s.resources.insert row h }.record t [.insertedResource row]

theorem State.insertResource_ne (s : State) (t : ℕ) (row : ResourceRow)
    (h : s.resources.find row.id = none) : (s.insertResource t row h).resources ≠ s.resources :=
  fun he => by simpa [insertResource,Table.insert] using congrArg Table.rows he

/-- Whether a row violates no unique index. -/
def State.canInsert (s : State) (row : ResourceRow) : Prop :=
  s.resources.find row.id = none ∧ ∀ other ∈ s.resources.rows, other.name ≠ row.name

instance (s : State) (row : ResourceRow) : Decidable (s.canInsert row) := by
  unfold State.canInsert; infer_instance

/-- The unique index that refuses a row. -/
def State.insertError (s : State) (row : ResourceRow) : DbErr :=
  if s.resources.find row.id = none then errUniqueViolation "idx_resources_name"
  else errUniqueViolation "resources_pkey"

/-- The state after a write of the version and the payload of a row. -/
def State.writeSpec (s : State) (t : ℕ) (id : String) (version : Int32) (payload : JSONMap)
    (now : Time) : State :=
  let resources := s.resources.modify id (.setSpec version payload now)
    (ResourceRow.setSpec_id _ _ _)
  { s with resources := resources }.record t [.wroteSpec id version payload]

theorem State.writeSpec_ne {id : String} {row : ResourceRow} {version : Int32}
    (h : s.resources.find id = some row) (hv : version ≠ row.version) (payload : JSONMap)
    (now : Time) : (s.writeSpec t id version payload now).resources ≠ s.resources := fun he => by
  have hf := congrArg (Table.find · id) he
  simp only [writeSpec,record_resources,Table.find_modify_self,h,Option.map_some,
    Option.some.injEq] at hf
  exact hv (congrArg ResourceRow.version hf)

/-- The state after a soft delete of a row. -/
def State.softDelete (s : State) (t : ℕ) (id : String) (now : Time) : State :=
  let resources := s.resources.modify id (.setDeletedAt now) (ResourceRow.setDeletedAt_id _)
  { s with resources := resources }.record t [.softDeleted id now]

theorem State.softDelete_ne {id : String} {row : ResourceRow} (h : s.resources.find id = some row)
    (hd : row.deletedAt = none) (now : Time) :
    (s.softDelete t id now).resources ≠ s.resources := fun he => by
  have hf := congrArg (Table.find · id) he
  simp only [softDelete,record_resources,Table.find_modify_self,h,Option.map_some,
    Option.some.injEq] at hf
  simpa [ResourceRow.setDeletedAt,hd] using congrArg ResourceRow.deletedAt hf

/-- The state after a hard delete of a row. -/
def State.hardDelete (s : State) (t : ℕ) (row : ResourceRow) : State :=
  { s with resources := s.resources.erase row.id }.record t [.hardDeleted row]

/-- The state after a write of the status of a row. -/
def State.writeStatus (s : State) (t : ℕ) (id : String) (status : JSONMap) (now : Time) : State :=
  let resources := s.resources.modify id (.setStatus status now) (ResourceRow.setStatus_id _ _)
  { s with resources := resources }.record t [.wroteStatus id status]

section Find

variable (t : ℕ) (k : String)

theorem State.find_insertResource (row : ResourceRow) (h : s.resources.find row.id = none) :
    (s.insertResource t row h).resources.find k =
      if k = row.id then some row else s.resources.find k :=
  Table.find_insert _ _ h _

theorem State.find_writeSpec (id : String) (version : Int32) (payload : JSONMap) (now : Time) :
    (s.writeSpec t id version payload now).resources.find k =
      if k = id then (s.resources.find k).map (.setSpec version payload now)
      else s.resources.find k :=
  Table.find_modify _ _ _ _ (ResourceRow.setSpec_id _ _ _)

theorem State.find_writeStatus (id : String) (status : JSONMap) (now : Time) :
    (s.writeStatus t id status now).resources.find k =
      if k = id then (s.resources.find k).map (.setStatus status now) else s.resources.find k :=
  Table.find_modify _ _ _ _ (ResourceRow.setStatus_id _ _)

theorem State.find_softDelete (id : String) (now : Time) :
    (s.softDelete t id now).resources.find k =
      if k = id then (s.resources.find k).map (.setDeletedAt now) else s.resources.find k :=
  Table.find_modify _ _ _ _ (ResourceRow.setDeletedAt_id _)

theorem State.find_hardDelete (row : ResourceRow) :
    (s.hardDelete t row).resources.find k = if k = row.id then none else s.resources.find k :=
  Table.find_erase _ _ _

end Find

/-- Acts that leave the resources alone. -/
def Act.quiet : Act → Prop
  | .insertedResource _ => False
  | .wroteSpec _ _ _ => False
  | .wroteStatus _ _ => False
  | .softDeleted _ _ => False
  | .hardDeleted _ => False
  | _ => True

/-- The call that records an act which leaves the resources alone, and what it saw. -/
def Act.recordedBy (s : State) (c : Call) : Act → Prop
  | .readResource id row => c = .takeResource id ∧ row = s.resources.find id
  | .insertedEvent e => ∃ event now uuid, c = .createEvent event ∧ e = event.beforeCreate now uuid
  | .savedEvent e => ∃ event now, c = .saveEvent event ∧ e = { event with updatedAt := now }
  | .purgedEvents events => c = .deleteReconciledEvents ∧
    events = s.events.rows.filter fun e => e.reconciledDate.isSome
  | .listedEvents events => c = .findUnreconciledEvents ∧
    events.Perm (s.events.rows.filter fun e => e.reconciledDate.isNone)
  | .retiredEvents events => ∃ cutoff now, c = .reconcileStaleDeleteEvents cutoff now ∧
    ∀ e ∈ events, e ∈ s.staleDeleteEvents cutoff
  | .insertedStatusEvent e => ∃ event now uuid, c = .createStatusEvent event ∧
    e = event.beforeCreate now uuid
  | .notified channel id => c = .notify channel id
  | .published action resource => c = .publish action resource
  | .broadcast resource => c = .broadcast resource
  | .handled handler sourceID _ => c = .handler handler sourceID
  | .queued queue op key => c = .queue queue op key
  | _ => False

theorem Act.recordedBy.quiet {c : Call} {a : Act} (h : a.recordedBy s c) : a.quiet := by
  cases a <;> trivial

/-- What a call of session `t` does to the resources and to the journal. -/
inductive RowEffect (t : ℕ) (s : State) : Call → State → Prop
  | quiet {c : Call} {s' : State} (acts : List Act) (hr : s'.resources = s.resources)
      (hj : s'.journal = s.journal ++ acts.map (Entry.mk t))
      (hb : ∀ a ∈ acts, a.recordedBy s c) :
      RowEffect t s c s'
  | insert (resource : Resource) (now : Time) (uuid : String)
      (h : s.canInsert ((resource.beforeCreate now uuid).row now)) :
      RowEffect t s (.createResource resource)
        (s.insertResource t ((resource.beforeCreate now uuid).row now) h.1)
  | spec {id : String} {row : ResourceRow} (version : Int32) (payload : JSONMap) (now : Time)
      (h : s.resources.find id = some row) :
      RowEffect t s (.updateResource id version payload) (s.writeSpec t id version payload now)
  | status {id : String} {row : ResourceRow} (status : JSONMap) (now : Time)
      (h : s.resources.find id = some row) :
      RowEffect t s (.updateResourceStatus id status) (s.writeStatus t id status now)
  | soft {id : String} {row : ResourceRow} (now : Time) (h : s.resources.find id = some row)
      (hd : row.deletedAt = none) :
      RowEffect t s (.deleteResource id false) (s.softDelete t id now)
  | hard {id : String} {row : ResourceRow} (h : s.resources.find id = some row) :
      RowEffect t s (.deleteResource id true) (s.hardDelete t row)

theorem RowEffect.same (c : Call) : RowEffect t s c s := .quiet [] rfl (by simp) (by simp)

theorem RowEffect.one {c : Call} {a : Act} (hr : s'.resources = s.resources)
    (hj : s'.journal = s.journal ++ [⟨t,a⟩]) (hb : a.recordedBy s c) : RowEffect t s c s' :=
  .quiet [a] hr hj (by simpa using hb)

theorem commit_createResource {resource : Resource} {r : Except DbErr Resource}
    (h : commit t ch (.createResource resource) s = some (r,s')) :
    let x := resource.beforeCreate ch.now ch.uuid
    (∃ hx : s.canInsert (x.row ch.now), r = .ok x ∧ s' = s.insertResource t (x.row ch.now) hx.1) ∨
      (¬ s.canInsert (x.row ch.now) ∧ r = .error (s.insertError (x.row ch.now)) ∧ s' = s) := by
  simp only [State.insertError]
  simp only [commit,List.any_eq_true,decide_eq_true_eq] at h
  split at h
  · next hfree =>
    split at h
    · next hname =>
      cases h
      obtain ⟨row,hm,hn⟩ := hname
      exact Or.inr ⟨fun hc => hc.2 row hm hn,by rw [if_pos hfree],rfl⟩
    · next hname =>
      cases h
      exact Or.inl ⟨⟨hfree,fun row hm hn => hname ⟨row,hm,hn⟩⟩,rfl,rfl⟩
  · next hfree =>
    split at h
    · cases h
    · cases h
      exact Or.inr ⟨fun hc => hfree hc.1,by rw [if_neg hfree],rfl⟩

theorem commit_updateResource {id : String} {version : Int32} {payload : JSONMap}
    {r : Except DbErr Unit} (h : commit t ch (.updateResource id version payload) s = some (r,s')) :
    r = .ok () ∧ ((s.resources.find id = none ∧ s' = s) ∨
      ∃ row, s.resources.find id = some row ∧ s' = s.writeSpec t id version payload ch.now) := by
  simp only [commit] at h
  cases hrow : s.resources.find id with
  | none => rw [hrow] at h; cases h; exact ⟨rfl,Or.inl ⟨rfl,rfl⟩⟩
  | some row => rw [hrow] at h; cases h; exact ⟨rfl,Or.inr ⟨row,rfl,rfl⟩⟩

theorem commit_softDelete {id : String} {r : Except DbErr Unit}
    (h : commit t ch (.deleteResource id false) s = some (r,s')) :
    (id = "" ∧ r = .error errMissingWhereClause ∧ s' = s) ∨ (id ≠ "" ∧ r = .ok () ∧
      ((∃ row, s.resources.find id = some row ∧ row.deletedAt = none ∧
        s' = s.softDelete t id ch.now) ∨
      ((∀ row, s.resources.find id = some row → row.deletedAt ≠ none) ∧ s' = s))) := by
  simp only [commit] at h
  split at h
  · next hid => cases h; exact Or.inl ⟨hid,rfl,rfl⟩
  · next hid =>
    refine Or.inr ⟨hid,?_⟩
    cases hrow : s.resources.find id with
    | none => rw [hrow] at h; cases h; exact ⟨rfl,Or.inr ⟨by simp,rfl⟩⟩
    | some row =>
      simp only [hrow,Bool.false_eq_true,if_false] at h
      split at h
      · next hd =>
        cases h
        refine ⟨rfl,Or.inr ⟨fun row' he => ?_,rfl⟩⟩
        exact Option.some.inj he ▸ Option.isSome_iff_ne_none.mp hd
      · next hd => cases h; exact ⟨rfl,Or.inl ⟨row,rfl,by simpa using hd,rfl⟩⟩

theorem commit_hardDelete {id : String} {r : Except DbErr Unit}
    (h : commit t ch (.deleteResource id true) s = some (r,s')) :
    (id = "" ∧ r = .error errMissingWhereClause ∧ s' = s) ∨ (id ≠ "" ∧ r = .ok () ∧
      ((s.resources.find id = none ∧ s' = s) ∨ ∃ row, s.resources.find id = some row ∧
        s' = s.hardDelete t row)) := by
  simp only [commit] at h
  split at h
  · next hid => cases h; exact Or.inl ⟨hid,rfl,rfl⟩
  · next hid =>
    refine Or.inr ⟨hid,?_⟩
    cases hrow : s.resources.find id with
    | none => rw [hrow] at h; cases h; exact ⟨rfl,Or.inl ⟨rfl,rfl⟩⟩
    | some row =>
      rw [hrow] at h
      cases h
      exact ⟨rfl,Or.inr ⟨row,rfl,by rw [State.hardDelete,Table.find_some_key hrow]⟩⟩

theorem commit_updateResourceStatus {id : String} {status : JSONMap} {r : Except DbErr Unit}
    (h : commit t ch (.updateResourceStatus id status) s = some (r,s')) :
    r = .ok () ∧ ((s.resources.find id = none ∧ s' = s) ∨
      ∃ row, s.resources.find id = some row ∧ s' = s.writeStatus t id status ch.now) := by
  simp only [commit] at h
  cases hrow : s.resources.find id with
  | none => rw [hrow] at h; cases h; exact ⟨rfl,Or.inl ⟨rfl,rfl⟩⟩
  | some row => rw [hrow] at h; cases h; exact ⟨rfl,Or.inr ⟨row,rfl,rfl⟩⟩

theorem commit_createEvent {event : Event} {r : Except DbErr Event}
    (h : commit t ch (.createEvent event) s = some (r,s')) :
    let e := event.beforeCreate ch.now ch.uuid
    ∃ hfree : s.events.find e.id = none, r = .ok e ∧
      s' = { s with events := s.events.insert e hfree }.record t [.insertedEvent e] := by
  simp only [commit] at h
  split at h
  · next hfree => cases h; exact ⟨hfree,rfl,rfl⟩
  · cases h

theorem commit_createStatusEvent {event : StatusEvent} {r : Except DbErr StatusEvent}
    (h : commit t ch (.createStatusEvent event) s = some (r,s')) :
    let e := event.beforeCreate ch.now ch.uuid
    ∃ hfree : s.statusEvents.find e.id = none, r = .ok e ∧
      s' = { s with statusEvents := s.statusEvents.insert e hfree }.record t
        [.insertedStatusEvent e] := by
  simp only [commit] at h
  split at h
  · next hfree => cases h; exact ⟨hfree,rfl,rfl⟩
  · cases h

theorem commit_rowEffect {c : Call} {r : c.Resp} (h : commit t ch c s = some (r,s')) :
    RowEffect t s c s' := by
  cases c with
  | createResource resource =>
    rcases commit_createResource h with ⟨hx,-,rfl⟩ | ⟨-,-,rfl⟩
    · exact .insert resource ch.now ch.uuid hx
    · exact .same _
  | updateResource id version payload =>
    obtain ⟨-,⟨-,rfl⟩ | ⟨row,hrow,rfl⟩⟩ := commit_updateResource h
    · exact .same _
    · exact .spec version payload ch.now hrow
  | updateResourceStatus id status =>
    obtain ⟨-,⟨-,rfl⟩ | ⟨row,hrow,rfl⟩⟩ := commit_updateResourceStatus h
    · exact .same _
    · exact .status status ch.now hrow
  | deleteResource id unscoped =>
    cases unscoped with
    | false =>
      rcases commit_softDelete h with ⟨-,-,rfl⟩ | ⟨-,-,⟨row,hrow,hd,rfl⟩ | ⟨-,rfl⟩⟩
      · exact .same _
      · exact .soft ch.now hrow hd
      · exact .same _
    | true =>
      rcases commit_hardDelete h with ⟨-,-,rfl⟩ | ⟨-,-,⟨-,rfl⟩ | ⟨row,hrow,rfl⟩⟩
      · exact .same _
      · exact .same _
      · exact .hard hrow
  | createEvent event =>
    obtain ⟨-,-,rfl⟩ := commit_createEvent h
    exact .one rfl rfl ⟨event,ch.now,ch.uuid,rfl,rfl⟩
  | newAdvisoryLock id lockType =>
    obtain ⟨locks,-,hl⟩ := Option.map_eq_some_iff.mp h
    cases hl
    exact .quiet [] rfl (by simp) (by simp)
  | newNonBlockingLock id lockType =>
    simp only [commit] at h
    split at h
    · cases h
      exact .same _
    · obtain ⟨locks,-,hl⟩ := Option.map_eq_some_iff.mp h
      cases hl
      exact .quiet [] rfl (by simp) (by simp)
  | createStatusEvent event =>
    obtain ⟨-,-,rfl⟩ := commit_createStatusEvent h
    exact .one rfl rfl ⟨event,ch.now,ch.uuid,rfl,rfl⟩
  | findUnreconciledEvents =>
    simp only [commit] at h
    split at h
    · next hperm =>
      cases h
      exact .one rfl rfl ⟨rfl,hperm⟩
    · cases h
  | reconcileStaleDeleteEvents cutoff now =>
    simp only [commit] at h
    split at h
    · next hperm =>
      cases h
      exact .one rfl rfl ⟨cutoff,now,rfl,fun e he => hperm.mem_iff.mp (List.mem_of_mem_take he)⟩
    · cases h
  | publish action resource =>
    simp only [commit] at h
    split at h
    · cases h
      exact .one rfl rfl rfl
    · cases h
      exact .same _
  | saveEvent event =>
    cases h
    exact .one rfl rfl ⟨event,ch.now,rfl,rfl⟩
  | now | markForRollback | unlock | findResourcesBySource | takeEvent | findLatestDeleteEvent
  | subscribers =>
    cases h
    exact .quiet [] rfl (by simp) (by simp)
  | takeResource | deleteReconciledEvents =>
    cases h
    exact .one rfl rfl ⟨rfl,rfl⟩
  | notify | broadcast | handler | queue =>
    cases h
    exact .one rfl rfl rfl

theorem exec_rowEffect {c : Call} {r : c.Resp} (h : exec t ch c s = some (r,s')) :
    RowEffect t s c s' := by
  rcases exec_cases h with ⟨-,-,-,rfl⟩ | ⟨-,hc⟩
  · exact .same c
  · exact commit_rowEffect hc

/-- What a call of session `t` does to the locks. -/
theorem commit_locks {c : Call} {r : c.Resp} (h : commit t ch c s = some (r,s')) :
    s'.locks = s.locks ∨ (∃ owner, c = .unlock owner ∧ s'.locks = s.locks.release owner) ∨
      ∃ k, s.locks.acquire k ch.uuid t = some s'.locks := by
  cases c with
  | unlock owner => cases h; exact Or.inr (Or.inl ⟨owner,rfl,rfl⟩)
  | newAdvisoryLock id lockType =>
    obtain ⟨locks,hl,he⟩ := Option.map_eq_some_iff.mp h
    cases he
    exact Or.inr (Or.inr ⟨_,hl⟩)
  | newNonBlockingLock id lockType =>
    simp only [commit] at h
    split at h
    · cases h; exact Or.inl rfl
    · obtain ⟨locks,hl,he⟩ := Option.map_eq_some_iff.mp h
      cases he
      exact Or.inr (Or.inr ⟨_,hl⟩)
  | createResource resource =>
    rcases commit_createResource h with ⟨-,-,rfl⟩ | ⟨-,-,rfl⟩ <;> exact Or.inl rfl
  | updateResource id version payload =>
    obtain ⟨-,⟨-,rfl⟩ | ⟨-,-,rfl⟩⟩ := commit_updateResource h <;> exact Or.inl rfl
  | updateResourceStatus id status =>
    obtain ⟨-,⟨-,rfl⟩ | ⟨-,-,rfl⟩⟩ := commit_updateResourceStatus h <;> exact Or.inl rfl
  | deleteResource id unscoped =>
    left
    cases unscoped with
    | false => rcases commit_softDelete h with ⟨-,-,rfl⟩ | ⟨-,-,⟨-,-,-,rfl⟩ | ⟨-,rfl⟩⟩ <;> rfl
    | true => rcases commit_hardDelete h with ⟨-,-,rfl⟩ | ⟨-,-,⟨-,rfl⟩ | ⟨-,-,rfl⟩⟩ <;> rfl
  | createEvent event => obtain ⟨-,-,rfl⟩ := commit_createEvent h; exact Or.inl rfl
  | createStatusEvent event => obtain ⟨-,-,rfl⟩ := commit_createStatusEvent h; exact Or.inl rfl
  | findUnreconciledEvents | reconcileStaleDeleteEvents | publish =>
    simp only [commit] at h
    split at h <;> (cases h; try exact Or.inl rfl)
  | now | markForRollback | findResourcesBySource | takeEvent | findLatestDeleteEvent
  | subscribers | takeResource | saveEvent | deleteReconciledEvents | notify | broadcast | handler
  | queue =>
    cases h
    exact Or.inl rfl

theorem exec_locks {c : Call} {r : c.Resp} (h : exec t ch c s = some (r,s')) :
    s'.locks = s.locks ∨ (∃ uuid, c = .unlock uuid ∧ s'.locks = s.locks.release uuid) ∨
      ∃ k, s.locks.acquire k ch.uuid t = some s'.locks := by
  rcases exec_cases h with ⟨-,-,-,rfl⟩ | ⟨-,hc⟩
  · exact Or.inl rfl
  · exact commit_locks hc

end Maestro
