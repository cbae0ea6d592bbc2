import Maestro.Concurrent.Interleaving
import Maestro.Db.Effects
import Maestro.Services.Resource

/-!
# The locking protocol of the resource operations

What an operation may do to a resource, and which lock it has to hold for that.
Operations run interleaved, one statement at a time, on sessions `0, …, n-1`, and no
statement fails. Every assertion here is kept by the permitted calls of the
other sessions.
-/

namespace Maestro
open Concurrent Data

/-- The acts of one session, in order. -/
def State.acts (s : State) (t : ℕ) : List Act :=
  (s.journal.filter fun e => e.session = t).map Entry.act

/-- The row of this ID was hard-deleted. -/
def State.Removed (s : State) (id : String) : Prop :=
  ∃ t row, (⟨t,.hardDeleted row⟩ : Entry) ∈ s.journal ∧ row.id = id

/-- The session holds no advisory lock. -/
def State.Free (s : State) (t : ℕ) : Prop := ∀ l ∈ s.locks.held, l.session ≠ t

def State.HasLock (s : State) (t : ℕ) (id : String) (lockType : LockType) : Prop :=
  ∃ owner, (⟨lockKey id lockType,owner,t⟩ : Lock LockKey String ℕ) ∈ s.locks.held

/-- The session holds this lock and no other. -/
def State.Holds (s : State) (t : ℕ) (id : String) (lockType : LockType) (owner : String) : Prop :=
  ∀ l, l ∈ s.locks.held ∧ l.session = t ↔ l = ⟨lockKey id lockType,owner,t⟩

/-- The row without the columns that a status update writes. -/
def ResourceRow.core (row : ResourceRow) : ResourceRow :=
  { row with status := none, updatedAt := 0 }

theorem ResourceRow.core_fields {row row' : ResourceRow} (h : row'.core = row.core) :
    row'.version = row.version ∧ row'.payload = row.payload ∧ row'.source = row.source ∧
      row'.consumerName = row.consumerName ∧ row'.deletedAt = row.deletedAt := by
  simp only [ResourceRow.core,ResourceRow.mk.injEq] at h
  exact ⟨h.2.2.2.2.1,h.2.2.2.2.2.2.2.2.1,h.2.2.2.2.2.1,h.2.2.2.2.2.2.1,h.2.2.2.1⟩

/-- No row of this ID is marked as deleting. -/
def State.Live (s : State) (id : String) : Prop :=
  ∀ row, s.resources.find id = some row → row.deletedAt = none

/-- The row that was read has not changed since, but for its status, or it is gone. -/
def State.Seen (s : State) (id : String) (row : ResourceRow) : Prop :=
  (∃ row', s.resources.find id = some row' ∧ row'.core = row.core) ∨ s.Removed id

/-- The status that was read is still the stored one, or the row is gone. -/
def State.SeenStatus (s : State) (id : String) (row : ResourceRow) : Prop :=
  (∃ row', s.resources.find id = some row' ∧ row'.status = row.status) ∨ s.Removed id

/-- What session `t` may do: a spec is written, or a row marked, under the resource
lock; a status is written under the status lock. -/
def Call.permitted (ext : External) (t : ℕ) (s : State) : Call → Prop
  | .newAdvisoryLock _ _ => s.Free t
  | .unlock owner => ∀ l ∈ s.locks.held, l.owner = owner → l.session = t
  | .createResource resource => resource.deletedAt.valid = false
  | .updateResource id version _ => s.HasLock t id .resources ∧ s.Live id ∧
    (s.Removed id ∨ ∀ row, s.resources.find id = some row → version = row.version + 1)
  | .updateResourceStatus id status => s.HasLock t id .resourceStatus ∧
    (s.Removed id ∨ ∀ row, s.resources.find id = some row →
      ResourceService.newerStatus ext status row.status.scan = .ok true)
  | .deleteResource id false => s.HasLock t id .resources
  | .createEvent event => event.eventType = .update → s.Live event.sourceID
  | _ => True

/-- The statements of the sessions of a pool; none fails. -/
abbrev pool (n : ℕ) (i : Fin n) (ch : Choice) (c : Call) (s : State) : Option (c.Resp × State) :=
  commit i ch c s

abbrev permits (ext : External) (n : ℕ) (i : Fin n) (c : Call) (s : State) : Prop :=
  c.permitted ext i s

variable {ext : External} {t u : ℕ} {ch : Choice} {s s' : State} {c : Call} {r : c.Resp}
    {id owner : String} {lockType : LockType} {row : ResourceRow}

section Journal

theorem commit_journal (h : commit t ch c s = some (r,s')) :
    ∃ acts : List Act, s'.journal = s.journal ++ acts.map (Entry.mk t) := by
  cases commit_rowEffect h with
  | quiet acts _ hj => exact ⟨acts,hj⟩
  | insert | spec | status | soft | hard => exact ⟨[_],rfl⟩

@[simp] theorem State.acts_record (s : State) (t : ℕ) (acts : List Act) :
    (s.record t acts).acts t = s.acts t ++ acts := by
  simp [State.acts,List.filter_map,Function.comp_def]

theorem State.mem_acts {a : Act} : a ∈ s.acts t ↔ (⟨t,a⟩ : Entry) ∈ s.journal := by
  simp only [State.acts,List.mem_map,List.mem_filter,decide_eq_true_eq]
  constructor
  · rintro ⟨⟨_,_⟩,⟨hm,rfl⟩,rfl⟩
    exact hm
  · exact fun hm => ⟨_,⟨hm,rfl⟩,rfl⟩

theorem acts_other (h : commit u ch c s = some (r,s')) (hu : u ≠ t) : s'.acts t = s.acts t := by
  obtain ⟨acts,hj⟩ := commit_journal h
  simp [State.acts,hj,List.filter_map,Function.comp_def,hu]

theorem State.Removed.mono (h : s.Removed id) (hx : commit t ch c s = some (r,s')) :
    s'.Removed id := by
  obtain ⟨u,row,hm,hid⟩ := h
  obtain ⟨acts,hj⟩ := commit_journal hx
  exact ⟨u,row,by rw [hj]; exact List.mem_append_left _ hm,hid⟩

end Journal

section Locks

theorem State.Holds.mem (h : s.Holds t id lockType owner) :
    (⟨lockKey id lockType,owner,t⟩ : Lock LockKey String ℕ) ∈ s.locks.held :=
  ((h _).mpr rfl).1

theorem State.Holds.hasLock (h : s.Holds t id lockType owner) : s.HasLock t id lockType :=
  ⟨owner,h.mem⟩

/-- Exclusion: the lock of one session is not held by another. -/
theorem State.HasLock.exclusive (h : s.HasLock t id lockType) (h' : s.HasLock u id lockType) :
    t = u := by
  obtain ⟨o,hl⟩ := h
  obtain ⟨o',hl'⟩ := h'
  exact congrArg Lock.session (LockTable.eq_of_key hl hl' rfl)

/-- The lock is kept by the calls that do not release it. -/
theorem State.HasLock.exec {c : Call} {r : c.Resp} (h : s.HasLock t id lockType)
    (hx : exec u ch c s = some (r,s'))
    (hc : ∀ owner, c = .unlock owner → ∀ l ∈ s.locks.held, l.owner = owner → l.session ≠ t) :
    s'.HasLock t id lockType := by
  obtain ⟨owner,hl⟩ := h
  refine ⟨owner,?_⟩
  rcases exec_locks hx with he | ⟨uuid,rfl,he⟩ | ⟨k,he⟩
  · rw [he]
    exact hl
  · rw [he]
    exact LockTable.mem_release.mpr ⟨hl,fun hu => hc uuid rfl _ hl hu rfl⟩
  · exact (LockTable.mem_acquire he).mpr (Or.inr hl)

/-- Permitted calls leave the locks of other sessions alone. -/
theorem locks_other (ha : c.permitted ext u s) (h : commit u ch c s = some (r,s')) (hu : u ≠ t)
    {l : Lock LockKey String ℕ} (hl : l.session = t) :
    l ∈ s'.locks.held ↔ l ∈ s.locks.held := by
  have hne : l.session ≠ u := fun he => hu (he.symm.trans hl)
  rcases commit_locks h with he | ⟨owner,rfl,he⟩ | ⟨k,he⟩
  · rw [he]
  · rw [he,LockTable.mem_release]
    exact ⟨fun hm => hm.1,fun hm => ⟨hm,fun ho => hne (ha l hm ho)⟩⟩
  · rw [LockTable.mem_acquire he]
    exact ⟨fun hm => hm.resolve_left fun hk => hne (by rw [hk]),Or.inr⟩

end Locks

section Rows

/-- While a session holds the resource lock, calls of others leave the spec of the
row alone: they change its status, remove it or insert a live one. -/
theorem row_under_lock (hu : u ≠ t) (hl : s.HasLock t id .resources)
    (ha : c.permitted ext u s) (h : commit u ch c s = some (r,s')) :
    (∀ row, s.resources.find id = some row →
      (∃ row', s'.resources.find id = some row' ∧ row'.core = row.core) ∨ s'.Removed id) ∧
    (s.Live id → s'.Live id) := by
  cases commit_rowEffect h with
  | quiet acts hr =>
    unfold State.Live
    rw [hr]
    exact ⟨fun row hrow => Or.inl ⟨row,hrow,rfl⟩,fun h => h⟩
  | insert resource now uuid hi =>
    have hdead : resource.deletedAt.valid = false := ha
    refine ⟨fun row hrow => Or.inl ⟨row,?_,rfl⟩,fun hlive row hrow => ?_⟩
    · rw [State.find_insertResource,if_neg]
      · exact hrow
      · rintro rfl
        simp [hi.1] at hrow
    · rw [State.find_insertResource] at hrow
      split at hrow
      · cases hrow
        simp [Resource.row,Resource.beforeCreate,hdead]
      · exact hlive row hrow
  | @spec id' row' version payload now hrow' =>
    have hid : id ≠ id' := by
      rintro rfl
      exact hu (ha.1.exclusive hl)
    unfold State.Live
    simp only [State.find_writeSpec,if_neg hid]
    exact ⟨fun row hrow => Or.inl ⟨row,hrow,rfl⟩,fun h => h⟩
  | @status id' row' status now hrow' =>
    unfold State.Live
    simp only [State.find_writeStatus]
    by_cases hid : id = id'
    · simp only [if_pos hid,Option.map_eq_some_iff]
      refine ⟨fun row hrow => Or.inl ⟨_,⟨row,hrow,rfl⟩,rfl⟩,?_⟩
      rintro hlive _ ⟨row,hrow,rfl⟩
      exact hlive row hrow
    · simp only [if_neg hid]
      exact ⟨fun row hrow => Or.inl ⟨row,hrow,rfl⟩,fun h => h⟩
  | @soft id' row' now hrow' hd =>
    have hid : id ≠ id' := by
      rintro rfl
      exact hu (State.HasLock.exclusive ha hl)
    unfold State.Live
    simp only [State.find_softDelete,if_neg hid]
    exact ⟨fun row hrow => Or.inl ⟨row,hrow,rfl⟩,fun h => h⟩
  | @hard id' row' hrow' =>
    unfold State.Live
    simp only [State.find_hardDelete]
    by_cases hid : id = row'.id
    · simp only [if_pos hid]
      exact ⟨fun row hrow => Or.inr ⟨u,row',by simp [State.hardDelete],hid.symm⟩,by simp⟩
    · simp only [if_neg hid]
      exact ⟨fun row hrow => Or.inl ⟨row,hrow,rfl⟩,fun h => h⟩

theorem RowEffect.removed {t : ℕ} (h : RowEffect t s c s') (hr : s.Removed id) : s'.Removed id := by
  obtain ⟨u,row,hm,hid⟩ := hr
  cases h with
  | quiet acts _ hj _ => exact ⟨u,row,by rw [hj]; exact List.mem_append_left _ hm,hid⟩
  | insert | spec | status | soft | hard => exact ⟨u,row,List.mem_append_left _ hm,hid⟩

/-- A row stays until it is removed, and its status until one is written. -/
theorem RowEffect.seenStatus {t : ℕ} (h : RowEffect t s c s')
    (hc : ∀ status, c ≠ .updateResourceStatus id status) (hs : s.SeenStatus id row) :
    s'.SeenStatus id row := by
  rcases hs with ⟨cur,hcur,hst⟩ | hr
  · have hkeep : ∀ row', s'.resources.find id = some row' → row'.status = cur.status →
        s'.SeenStatus id row := fun row' hrow' he => Or.inl ⟨row',hrow',he.trans hst⟩
    cases h with
    | quiet acts hres _ _ => exact hkeep cur (by rw [hres]; exact hcur) rfl
    | insert resource now uuid hi =>
      refine hkeep cur ?_ rfl
      rw [State.find_insertResource,if_neg]
      · exact hcur
      · rintro rfl
        exact absurd (hi.1.symm.trans hcur) (by simp)
    | @spec id' _ version payload now hrow =>
      by_cases hid : id = id'
      · refine hkeep (cur.setSpec version payload now) ?_ rfl
        rw [State.find_writeSpec,if_pos hid,hcur]
        rfl
      · refine hkeep cur ?_ rfl
        rw [State.find_writeSpec,if_neg hid]
        exact hcur
    | @status id' _ status now hrow =>
      refine hkeep cur ?_ rfl
      rw [State.find_writeStatus,if_neg]
      · exact hcur
      · rintro rfl
        exact hc status rfl
    | @soft id' _ now hrow hd =>
      by_cases hid : id = id'
      · refine hkeep (cur.setDeletedAt now) ?_ rfl
        rw [State.find_softDelete,if_pos hid,hcur]
        rfl
      · refine hkeep cur ?_ rfl
        rw [State.find_softDelete,if_neg hid]
        exact hcur
    | @hard id' gone hrow =>
      by_cases hid : id = gone.id
      · exact Or.inr ⟨t,gone,List.mem_append_right _ List.mem_cons_self,hid.symm⟩
      · refine hkeep cur ?_ rfl
        rw [State.find_hardDelete,if_neg hid]
        exact hcur
  · exact Or.inr (h.removed hr)

end Rows

section Stability

variable {n : ℕ} {i : Fin n}

theorem val_ne {j : Fin n} (h : j ≠ i) : (j : ℕ) ≠ i := fun he => h (Fin.ext he)

theorem stable_acts (A : List Act) : Stable (pool n) (permits ext n) i fun s => s.acts i = A :=
  fun _ hj _ _ _ _ _ _ hx hp => (acts_other hx (val_ne hj)).trans hp

theorem stable_free : Stable (pool n) (permits ext n) i fun s => s.Free i :=
  fun _ hj _ _ _ _ _ ha hx hp l hl he => hp l ((locks_other ha hx (val_ne hj) he).mp hl) he

theorem stable_holds (id : String) (lockType : LockType) (owner : String) :
    Stable (pool n) (permits ext n) i fun s => s.Holds i id lockType owner := by
  intro j hj ch c s r s' ha hx hp l
  rw [← hp l]
  exact and_congr_left fun hl => locks_other ha hx (val_ne hj) hl

theorem stable_seen (id owner : String) (row : ResourceRow) :
    Stable (pool n) (permits ext n) i fun s => s.Holds i id .resources owner ∧ s.Seen id row := by
  intro j hj ch c s r s' ha hx ⟨hh,hs⟩
  refine ⟨stable_holds _ _ _ j hj ch c s r s' ha hx hh,?_⟩
  rcases hs with ⟨row',hrow',he⟩ | hr
  · rcases (row_under_lock (val_ne hj) hh.hasLock ha hx).1 row' hrow' with ⟨row₂,hrow₂,he₂⟩ | hr
    · exact Or.inl ⟨row₂,hrow₂,he₂.trans he⟩
    · exact Or.inr hr
  · exact Or.inr (hr.mono hx)

theorem stable_live (id owner : String) :
    Stable (pool n) (permits ext n) i fun s => s.Holds i id .resources owner ∧ s.Live id :=
  fun j hj ch c s r s' ha hx ⟨hh,hs⟩ => ⟨stable_holds _ _ _ j hj ch c s r s' ha hx hh,
    (row_under_lock (val_ne hj) hh.hasLock ha hx).2 hs⟩

theorem stable_seenStatus (id owner : String) (row : ResourceRow) :
    Stable (pool n) (permits ext n) i fun s =>
      s.Holds i id .resourceStatus owner ∧ s.SeenStatus id row := by
  intro j hj ch c s r s' ha hx ⟨hh,hs⟩
  refine ⟨stable_holds _ _ _ j hj ch c s r s' ha hx hh,
    (commit_rowEffect hx).seenStatus (fun status hc => ?_) hs⟩
  subst hc
  exact val_ne hj (ha.1.exclusive hh.hasLock)

end Stability

end Maestro
