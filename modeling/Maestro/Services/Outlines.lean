import Maestro.Services.Locking

/-!
# Proof outlines of the resource operations

Each operation, run among others that keep to the locking protocol, keeps to it as
well, and what it wrote to the journal fits the result that it returns.
-/

namespace Maestro
open Concurrent Data ResourceService

/-- The two acts of an announced event. -/
def EventActs (event : Event) (acts : List Act) : Prop :=
  ∃ now uuid, acts = [.insertedEvent (event.beforeCreate now uuid),.notified "events" uuid]

/-- The acts and the result of `Update`. The row may be hard-deleted between the read
and the write only if `gone`. -/
inductive UpdateRun (ext : External) (res : Resource) (gone : Prop) :
    List Act → Except ServiceError Resource → Prop
  | missing : UpdateRun ext res gone [.readResource res.id none]
      (.error (handleGetError "Resource" "id" res.id .recordNotFound))
  | refused {row : ResourceRow} {r : Except ServiceError Resource}
      (h : checkUpdate ext res row.scan = some r) :
      UpdateRun ext res gone [.readResource res.id (some row)] r
  | written {row : ResourceRow} {acts : List Act} (h : checkUpdate ext res row.scan = none)
      (he : EventActs (updateEvent res.id) acts) :
      UpdateRun ext res gone (.readResource res.id (some row) ::
        .wroteSpec res.id (row.version + 1) res.payload :: acts)
        (.ok (nextVersion row.scan res.payload))
  | removed {row : ResourceRow} {acts : List Act} (hg : gone)
      (h : checkUpdate ext res row.scan = none) (he : EventActs (updateEvent res.id) acts) :
      UpdateRun ext res gone (.readResource res.id (some row) :: acts)
        (.ok (nextVersion row.scan res.payload))

/-- The acts and the result of `UpdateStatus`. -/
inductive StatusRun (ext : External) (res : Resource) (gone : Prop) :
    List Act → Except ServiceError (Resource × Bool) → Prop
  | missing : StatusRun ext res gone [.readResource res.id none]
      (.error (handleGetError "Resource" "id" res.id .recordNotFound))
  | invalid {row : ResourceRow} {err : ServiceError}
      (h : acceptsStatus ext res row.scan = .error err) :
      StatusRun ext res gone [.readResource res.id (some row)] (.error err)
  | unchanged {row : ResourceRow} (h : acceptsStatus ext res row.scan = .ok false) :
      StatusRun ext res gone [.readResource res.id (some row)] (.ok (row.scan,false))
  | written {row : ResourceRow} (h : acceptsStatus ext res row.scan = .ok true) :
      StatusRun ext res gone
        [.readResource res.id (some row),.wroteStatus res.id res.status]
        (.ok ({ row.scan with status := res.status },true))
  | removed {row : ResourceRow} (hg : gone) (h : acceptsStatus ext res row.scan = .ok true) :
      StatusRun ext res gone [.readResource res.id (some row)]
        (.ok ({ row.scan with status := res.status },true))

/-- The acts and the result of `MarkAsDeleting`. -/
inductive MarkRun (id : String) (gone : Prop) : List Act → Except ServiceError Unit → Prop
  | missing : MarkRun id gone [.readResource id none] (.ok ())
  | marked {row : ResourceRow} {acts : List Act} (h : row.deletedAt ≠ none)
      (he : acts = [] ∨ EventActs (deleteEvent id) acts) :
      MarkRun id gone (.readResource id (some row) :: acts) (.ok ())
  | deleted {row : ResourceRow} {time : Time} {acts : List Act} (h : row.deletedAt = none)
      (he : EventActs (deleteEvent id) acts) :
      MarkRun id gone (.readResource id (some row) :: .softDeleted id time :: acts) (.ok ())
  | removed {row : ResourceRow} {acts : List Act} (hg : gone) (h : row.deletedAt = none)
      (he : EventActs (deleteEvent id) acts) :
      MarkRun id gone (.readResource id (some row) :: acts) (.ok ())
  | unnamed {row : ResourceRow} {err : ServiceError} (hid : id = "") (h : row.deletedAt = none) :
      MarkRun id gone [.readResource id (some row)] (.error err)

/-- More runs are possible where rows may be gone. -/
def MonoRun {α : Type} (Run : Prop → List Act → α → Prop) : Prop :=
  ∀ gone gone' acts a, (gone → gone') → Run gone acts a → Run gone' acts a

theorem UpdateRun.mono (ext : External) (res : Resource) : MonoRun (UpdateRun ext res) := by
  intro gone gone' acts r hg h
  cases h with
  | missing => exact .missing
  | refused h => exact .refused h
  | written h he => exact .written h he
  | removed h₀ h he => exact .removed (hg h₀) h he

theorem StatusRun.mono (ext : External) (res : Resource) : MonoRun (StatusRun ext res) := by
  intro gone gone' acts r hg h
  cases h with
  | missing => exact .missing
  | invalid h => exact .invalid h
  | unchanged h => exact .unchanged h
  | written h => exact .written h
  | removed h₀ h => exact .removed (hg h₀) h

theorem MarkRun.mono (id : String) : MonoRun (MarkRun id) := by
  intro gone gone' acts r hg h
  cases h with
  | missing => exact .missing
  | marked h he => exact .marked h he
  | deleted h he => exact .deleted h he
  | removed h₀ h he => exact .removed (hg h₀) h he
  | unnamed hid h => exact .unnamed hid h

/-- After the acts `A`, session `t` did what `Run` allows for its result. -/
def Ran {α : Type} (t : ℕ) (A : List Act) (id : String) (Run : Prop → List Act → α → Prop) (a : α)
    (s : State) : Prop :=
  ∃ acts, s.acts t = A ++ acts ∧ Run (s.Removed id) acts a

variable {ext : External} {n : ℕ} {i : Fin n} {α : Type} {A : List Act} {id owner : String}
    {lockType : LockType}

theorem stable_ran {Run : Prop → List Act → α → Prop} (hRun : MonoRun Run) (a : α) :
    Stable (pool n) (permits ext n) i (Ran i A id Run a) := by
  rintro j hj ch c s r s' ha hx ⟨acts,he,hr⟩
  exact ⟨acts,(acts_other hx (val_ne hj)).trans he,hRun _ _ acts a (fun h => h.mono hx) hr⟩

/-- An assertion that a session's own calls keep, as long as they take no lock. -/
def Persists (F : State → Prop) : Prop :=
  ∀ (s s' : State) more, s'.locks = s.locks → s'.journal = s.journal ++ more → F s → F s'

theorem persists_holds (t : ℕ) (id : String) (lockType : LockType) (owner : String) :
    Persists fun s => s.Holds t id lockType owner := fun s s' _ he _ h l => by
  rw [he]; exact h l

theorem persists_free (t : ℕ) : Persists fun s => s.Free t := fun s s' _ he _ h l => by
  rw [he]; exact h l

theorem persists_removed (id : String) : Persists fun s => s.Removed id := by
  rintro s s' more - hj ⟨t,row,hm,hid⟩
  exact ⟨t,row,by rw [hj]; exact List.mem_append_left _ hm,hid⟩

theorem Persists.and {F F' : State → Prop} (h : Persists F) (h' : Persists F') :
    Persists fun s => F s ∧ F' s :=
  fun s s' more hl hj hf => ⟨h s s' more hl hj hf.1,h' s s' more hl hj hf.2⟩

/-- Lock, body, unlock. -/
theorem safe_withAdvisoryLock {body : M (Except ServiceError α)}
    {Run : Prop → List Act → Except ServiceError α → Prop}
    (hbody : ∀ owner, Safe (pool n) (permits ext n) i
      (fun a s => s.Holds i id lockType owner ∧ Ran i A id Run a s) body
      fun s => s.Holds i id lockType owner ∧ s.acts i = A)
    (hRun : MonoRun Run) :
    Safe (pool n) (permits ext n) i (fun a s => s.Free i ∧ Ran i A id Run a s)
      (withAdvisoryLock id lockType body) fun s => s.Free i ∧ s.acts i = A := by
  refine Safe.call fun s ⟨hfree,hacts⟩ => ⟨hfree,fun ch r s' hx => ?_⟩
  obtain ⟨locks,hl,he⟩ := Option.map_eq_some_iff.mp hx
  cases he
  refine ⟨_,(stable_holds id lockType ch.uuid).and (stable_acts A),⟨fun l => ?_,hacts⟩,?_⟩
  · dsimp only
    rw [LockTable.mem_acquire hl]
    constructor
    · rintro ⟨hl | hl,hs⟩
      · exact hl
      · exact absurd hs (hfree l hl)
    · rintro rfl
      exact ⟨Or.inl rfl,rfl⟩
  · change Safe _ _ i _ (body >>= fun a => unlock ch.uuid >>= fun _ => Prog.ret a) _
    refine Safe.bind (hbody ch.uuid) fun a => ?_
    rw [unlock,if_neg ch.uuid_ne]
    refine Safe.call fun s ⟨hh,hran⟩ => ⟨fun l hl ho => ?_,fun ch' r s' hx => ?_⟩
    · rw [LockTable.eq_of_owner hl hh.mem ho]
    · cases hx
      refine ⟨_,stable_free.and (stable_ran hRun a),⟨fun l hl hs => ?_,hran⟩,?_⟩
      · obtain ⟨hm,hne⟩ := LockTable.mem_release.mp hl
        exact hne (by rw [(hh l).mp ⟨hm,hs⟩])
      · exact Safe.ret fun s h => h

/-- An event is inserted and notified. An update event needs a live resource. -/
theorem safe_announce {F : State → Prop} (hF : Stable (pool n) (permits ext n) i F)
    (hl : Persists F) (event : Event) (handle : String → String → ServiceError) (result : α) :
    Safe (pool n) (permits ext n) i
      (fun a s => F s ∧ ∃ acts, s.acts i = A ++ acts ∧ EventActs event acts ∧ a = .ok result)
      (announce event handle result)
      fun s => F s ∧ s.acts i = A ∧ (event.eventType = .update → s.Live event.sourceID) := by
  refine Safe.call fun s ⟨hf,hacts,hlive⟩ => ⟨hlive,fun ch r s' hx => ?_⟩
  obtain ⟨-,rfl,rfl⟩ := commit_createEvent hx
  refine ⟨_,hF.and (stable_acts (A ++ [.insertedEvent (event.beforeCreate ch.now ch.uuid)])),
    ⟨hl s _ _ rfl rfl hf,?_⟩,?_⟩
  · rw [State.acts_record]
    exact congrArg (· ++ _) hacts
  · refine Safe.call fun s ⟨hf,hacts⟩ => ⟨trivial,fun ch' r s' hx => ?_⟩
    cases hx
    refine ⟨_,hF.and (stable_acts (A ++ [.insertedEvent (event.beforeCreate ch.now ch.uuid),
      .notified "events" ch.uuid])),⟨hl s _ _ rfl rfl hf,?_⟩,?_⟩
    · rw [State.acts_record,hacts,List.append_assoc]
      rfl
    · exact Safe.ret fun s ⟨hf,hacts⟩ => ⟨hf,_,hacts,⟨ch.now,ch.uuid,rfl⟩,rfl⟩

theorem stable_removed (id : String) :
    Stable (pool n) (permits ext n) i fun s => s.Removed id :=
  fun _ _ _ _ _ _ _ _ hx h => h.mono hx

/-- A row is read; `E row` is what stays true of it under the locks in `F`. -/
theorem safe_take {β : Type} {Q : β → State → Prop} {k : Except DbErr Resource → M β}
    {F : State → Prop} {E : ResourceRow → State → Prop}
    (hF : Stable (pool n) (permits ext n) i F) (hp : Persists F)
    (hE : ∀ row, Stable (pool n) (permits ext n) i fun s => F s ∧ E row s)
    (hE₀ : ∀ s row, s.resources.find id = some row → E row s)
    (hnone : Safe (pool n) (permits ext n) i Q (k (.error .recordNotFound))
      fun s => F s ∧ s.acts i = A ++ [.readResource id none])
    (hsome : ∀ row : ResourceRow, row.id = id → Safe (pool n) (permits ext n) i Q (k (.ok row.scan))
      fun s => (F s ∧ E row s) ∧ s.acts i = A ++ [.readResource id (some row)]) :
    Safe (pool n) (permits ext n) i Q (perform (.takeResource id) >>= k)
      fun s => F s ∧ s.acts i = A := by
  refine Safe.call fun s ⟨hf,hacts⟩ => ⟨trivial,fun ch r s' hx => ?_⟩
  obtain ⟨rfl,⟨hfind,rfl⟩ | ⟨row,hfind,rfl⟩⟩ := commit_takeResource hx
  · refine ⟨_,hF.and (stable_acts (A ++ [Act.readResource id none])),⟨hp s _ _ rfl rfl hf,?_⟩,hnone⟩
    rw [State.acts_record,hacts,hfind]
  · refine ⟨_,(hE row).and (stable_acts (A ++ [Act.readResource id (some row)])),
      ⟨⟨hp s _ _ rfl rfl hf,hE₀ _ row hfind⟩,?_⟩,hsome row (Table.find_some_key hfind)⟩
    rw [State.acts_record,hacts,hfind]

/-- What stays true of a row that was read under the resource lock. -/
def State.StillRead (s : State) (id : String) (row : ResourceRow) : Prop :=
  s.Seen id row ∧ (row.deletedAt = none → s.Live id)

theorem stable_stillRead (id owner : String) (row : ResourceRow) :
    Stable (pool n) (permits ext n) i fun s =>
      s.Holds i id .resources owner ∧ s.StillRead id row := by
  rintro j hj ch c s r s' ha hx ⟨hh,hseen,hlive⟩
  obtain ⟨hh',hseen'⟩ := stable_seen id owner row j hj ch c s r s' ha hx ⟨hh,hseen⟩
  exact ⟨hh',hseen',fun hd => (stable_live id owner j hj ch c s r s' ha hx ⟨hh,hlive hd⟩).2⟩

theorem State.stillRead_of_find {s : State} {row : ResourceRow}
    (h : s.resources.find id = some row) : s.StillRead id row := by
  refine ⟨Or.inl ⟨row,h,rfl⟩,fun hd row' hrow' => ?_⟩
  cases h.symm.trans hrow'
  exact hd

/-- What `Update` has checked when it goes on to write. -/
theorem checkUpdate_eq_none {res found : Resource} (h : checkUpdate ext res found = none) :
    found.deletedAt.time = none ∧ found.version = res.version ∧ res.payload ≠ found.payload := by
  unfold checkUpdate at h
  split at h
  · cases h
  · next hd =>
    split at h
    · cases h
    · next hv =>
      split at h
      · cases h
      · next hp => exact ⟨by simpa using hd,not_not.mp hv,hp⟩

theorem checkUpdate_eq_some {res found : Resource} {r : Except ServiceError Resource}
    (h : checkUpdate ext res found = some r) :
    (∃ err, r = .error err) ∨ r = .ok found ∧ res.payload = found.payload := by
  unfold checkUpdate at h
  split at h
  · cases h; exact Or.inl ⟨_,rfl⟩
  · split at h
    · cases h; exact Or.inl ⟨_,rfl⟩
    · split at h
      · next hp => cases h; exact Or.inr ⟨rfl,hp⟩
      · split at h
        · cases h; exact Or.inl ⟨_,rfl⟩
        · cases h

theorem State.Live.writeSpec {s : State} (h : s.Live id) (t : ℕ) (id' : String) (version : Int32)
    (payload : JSONMap) (now : Time) : (s.writeSpec t id' version payload now).Live id := by
  intro row hrow
  rw [State.find_writeSpec] at hrow
  split at hrow
  · obtain ⟨row',hrow',rfl⟩ := Option.map_eq_some_iff.mp hrow
    exact h row' hrow'
  · exact h row hrow

theorem safe_update (res : Resource) :
    Safe (pool n) (permits ext n) i
      (fun a s => s.Free i ∧ Ran i A res.id (UpdateRun ext res) a s)
      (update ext res) fun s => s.Free i ∧ s.acts i = A := by
  refine safe_withAdvisoryLock (fun owner => ?_) (UpdateRun.mono ext res)
  refine safe_take (stable_holds res.id .resources owner) (persists_holds _ _ _ _)
    (stable_stillRead res.id owner) (fun s row => State.stillRead_of_find) ?_ fun row hid => ?_
  · exact Safe.ret fun s ⟨hh,hacts⟩ => ⟨hh,_,hacts,.missing⟩
  replace hid : row.scan.id = res.id := hid
  cases hc : checkUpdate ext res row.scan with
  | some result =>
    simp only [hc]
    exact Safe.ret fun s ⟨⟨hh,_⟩,hacts⟩ => ⟨hh,_,hacts,.refused hc⟩
  | none =>
    obtain ⟨hd,-,-⟩ := checkUpdate_eq_none hc
    simp only [hc]
    refine Safe.call fun s ⟨⟨hh,hseen,hlive⟩,hacts⟩ => ⟨?_,fun ch r s' hx => ?_⟩
    · change Call.permitted ext i s (.updateResource row.scan.id (row.version + 1) res.payload)
      rw [hid]
      refine ⟨hh.hasLock,hlive hd,hseen.symm.imp_right ?_⟩
      rintro ⟨row₁,hrow₁,hcore⟩ row₂ hrow₂
      cases hrow₁.symm.trans hrow₂
      exact congrArg (· + 1) (congrArg ResourceRow.version hcore).symm
    obtain ⟨rfl,⟨hnone,rfl⟩ | ⟨cur,hcur,rfl⟩⟩ := commit_updateResource hx
    · have hgone : s'.Removed res.id := hseen.resolve_left fun ⟨row₁,hrow₁,_⟩ => by
        rw [← hid] at hrow₁
        exact absurd (hrow₁.symm.trans hnone) (by simp)
      refine ⟨_,((stable_live res.id owner).and (stable_removed res.id)).and (stable_acts
        (A ++ [.readResource res.id (some row)])),⟨⟨⟨hh,hlive hd⟩,hgone⟩,hacts⟩,?_⟩
      refine (safe_announce (A := A ++ [.readResource res.id (some row)])
        ((stable_holds res.id .resources owner).and (stable_removed res.id))
        ((persists_holds _ _ _ _).and (persists_removed _)) _ _ _).weaken ?_ ?_
      · rintro s ⟨⟨⟨hh,hlive⟩,hgone⟩,hacts⟩
        exact ⟨⟨hh,hgone⟩,hacts,fun _ => hid ▸ hlive⟩
      · rintro a s ⟨⟨hh,hgone⟩,acts,hacts,he,rfl⟩
        refine ⟨hh,.readResource res.id (some row) :: acts,by rw [hacts]; simp,?_⟩
        exact .removed hgone hc (hid ▸ he)
    · have hacts₂ : (s.writeSpec i row.id (row.version + 1) res.payload ch.now).acts i =
          A ++ [.readResource res.id (some row),
            .wroteSpec res.id (row.version + 1) res.payload] := by
        rw [State.writeSpec,State.acts_record]
        exact (congrArg (· ++ _) hacts).trans (by simp [← hid,ResourceRow.scan])
      refine ⟨_,(stable_live res.id owner).and (stable_acts _),
        ⟨⟨hh,(hlive hd).writeSpec _ _ _ _ _⟩,hacts₂⟩,?_⟩
      refine (safe_announce (A := A ++ [.readResource res.id (some row),
          .wroteSpec res.id (row.version + 1) res.payload])
        (stable_holds res.id .resources owner) (persists_holds _ _ _ _) _ _ _).weaken ?_ ?_
      · rintro s ⟨⟨hh,hlive⟩,hacts⟩
        exact ⟨hh,hacts,fun _ => hid ▸ hlive⟩
      · rintro a s ⟨hh,acts,hacts,he,rfl⟩
        refine ⟨hh,.readResource res.id (some row) :: .wroteSpec res.id (row.version + 1)
          res.payload :: acts,by rw [hacts]; simp,?_⟩
        exact .written hc (hid ▸ he)

theorem acceptsStatus_eq_true {res found : Resource} (h : acceptsStatus ext res found = .ok true) :
    found.version = res.version ∧ newerStatus ext res.status found.status = .ok true := by
  unfold acceptsStatus at h
  split at h
  · cases h
  · next hv => exact ⟨not_not.mp hv,h⟩

theorem safe_updateStatus (res : Resource) :
    Safe (pool n) (permits ext n) i
      (fun a s => s.Free i ∧ Ran i A res.id (StatusRun ext res) a s)
      (updateStatus ext res) fun s => s.Free i ∧ s.acts i = A := by
  refine safe_withAdvisoryLock (fun owner => ?_) (StatusRun.mono ext res)
  refine safe_take (stable_holds res.id .resourceStatus owner) (persists_holds _ _ _ _)
    (stable_seenStatus res.id owner) (fun s row h => Or.inl ⟨row,h,rfl⟩) ?_ fun row hid => ?_
  · exact Safe.ret fun s ⟨hh,hacts⟩ => ⟨hh,_,hacts,.missing⟩
  replace hid : row.scan.id = res.id := hid
  cases hc : acceptsStatus ext res row.scan with
  | error err =>
    simp only [hc]
    exact Safe.ret fun s ⟨⟨hh,_⟩,hacts⟩ => ⟨hh,_,hacts,.invalid hc⟩
  | ok accepted =>
    cases accepted with
    | false =>
      simp only [hc]
      exact Safe.ret fun s ⟨⟨hh,_⟩,hacts⟩ => ⟨hh,_,hacts,.unchanged hc⟩
    | true =>
      obtain ⟨-,hnew⟩ := acceptsStatus_eq_true hc
      simp only [hc]
      refine Safe.call fun s ⟨⟨hh,hseen⟩,hacts⟩ => ⟨?_,fun ch r s' hx => ?_⟩
      · change Call.permitted ext i s (.updateResourceStatus row.scan.id res.status)
        rw [hid]
        refine ⟨hh.hasLock,hseen.symm.imp_right ?_⟩
        rintro ⟨row₁,hrow₁,hst⟩ row₂ hrow₂
        cases hrow₁.symm.trans hrow₂
        rw [hst]
        exact hnew
      obtain ⟨rfl,⟨hnone,rfl⟩ | ⟨cur,hcur,rfl⟩⟩ := commit_updateResourceStatus hx
      · have hgone : s'.Removed res.id := hseen.resolve_left fun ⟨row₁,hrow₁,_⟩ => by
          rw [← hid] at hrow₁
          exact absurd (hrow₁.symm.trans hnone) (by simp)
        refine ⟨_,((stable_holds res.id .resourceStatus owner).and (stable_removed res.id)).and
          (stable_acts _),⟨⟨hh,hgone⟩,hacts⟩,?_⟩
        exact Safe.ret fun s ⟨⟨hh,hgone⟩,hacts⟩ => ⟨hh,_,hacts,.removed hgone hc⟩
      · have hacts₂ : (s.writeStatus i row.id res.status ch.now).acts i =
            A ++ [.readResource res.id (some row),.wroteStatus res.id res.status] := by
          rw [State.writeStatus,State.acts_record]
          exact (congrArg (· ++ _) hacts).trans (by simp [← hid,ResourceRow.scan])
        refine ⟨_,(stable_holds res.id .resourceStatus owner).and (stable_acts _),⟨hh,hacts₂⟩,?_⟩
        exact Safe.ret fun s ⟨hh,hacts⟩ => ⟨hh,_,hacts,.written hc⟩

/-- A delete event is published again, or it is not. -/
theorem safe_republishDeleteEvent {F : State → Prop}
    (hF : Stable (pool n) (permits ext n) i F) (hp : Persists F) (interval : Time) (id : String) :
    Safe (pool n) (permits ext n) i
      (fun a s => F s ∧ ∃ acts, s.acts i = A ++ acts ∧
        (acts = [] ∨ EventActs (deleteEvent id) acts) ∧ a = .ok ())
      (republishDeleteEvent interval id) fun s => F s ∧ s.acts i = A := by
  have hdone : ∀ s, F s ∧ s.acts i = A → F s ∧ ∃ acts, s.acts i = A ++ acts ∧
      (acts = [] ∨ EventActs (deleteEvent id) acts) ∧ (.ok () : Except ServiceError Unit) = .ok () :=
    fun s ⟨hf,hacts⟩ => ⟨hf,[],by simpa using hacts,Or.inl rfl,rfl⟩
  have hagain : Safe (pool n) (permits ext n) i
      (fun a s => F s ∧ ∃ acts, s.acts i = A ++ acts ∧
        (acts = [] ∨ EventActs (deleteEvent id) acts) ∧ a = .ok ())
      (announce (deleteEvent id) handleDeleteError ()) fun s => F s ∧ s.acts i = A := by
    refine (safe_announce (A := A) hF hp _ _ _).weaken ?_ ?_
    · exact fun s ⟨hf,hacts⟩ => ⟨hf,hacts,fun he => by cases he⟩
    · exact fun a s ⟨hf,acts,hacts,he,ha⟩ => ⟨hf,acts,hacts,Or.inr he,ha⟩
  unfold republishDeleteEvent
  split
  · exact Safe.ret hdone
  · refine Safe.call fun s ⟨hf,hacts⟩ => ⟨trivial,fun ch r s' hx => ?_⟩
    refine ⟨_,hF.and (stable_acts A),?_,?_⟩
    · cases hx
      exact ⟨hf,hacts⟩
    · cases r with
      | error err =>
        cases err with
        | recordNotFound => exact hagain
        | other msg => exact Safe.ret hdone
      | ok latest =>
        refine Safe.call fun s ⟨hf,hacts⟩ => ⟨trivial,fun ch' now s' hx => ?_⟩
        cases hx
        refine ⟨_,hF.and (stable_acts A),⟨hf,hacts⟩,?_⟩
        simp only [Prog.bind,Prog.pure_eq]
        split
        · exact Safe.ret hdone
        · exact hagain

theorem safe_markAsDeleting (interval : Time) (id : String) :
    Safe (pool n) (permits ext n) i (fun a s => s.Free i ∧ Ran i A id (MarkRun id) a s)
      (markAsDeleting interval id) fun s => s.Free i ∧ s.acts i = A := by
  refine safe_withAdvisoryLock (fun owner => ?_) (MarkRun.mono id)
  refine safe_take (stable_holds id .resources owner) (persists_holds _ _ _ _)
    (stable_stillRead id owner) (fun s row => State.stillRead_of_find) ?_ fun row hid => ?_
  · exact Safe.ret fun s hs => ⟨hs.1,_,hs.2,.missing⟩
  cases hd : row.deletedAt with
  | some time =>
    have hvalid : row.scan.deletedAt.valid = true := by simp [ResourceRow.scan,hd]
    simp only [hvalid,if_true]
    refine (safe_republishDeleteEvent (A := A ++ [.readResource id (some row)])
      (stable_holds id .resources owner) (persists_holds _ _ _ _) interval id).weaken ?_ ?_
    · exact fun s hs => ⟨hs.1.1,hs.2⟩
    · rintro a s ⟨hh,acts,hacts,he,rfl⟩
      exact ⟨hh,.readResource id (some row) :: acts,by rw [hacts]; simp,
        .marked (by simp [hd]) he⟩
  | none =>
    have hvalid : row.scan.deletedAt.valid = false := by simp [ResourceRow.scan,hd]
    simp only [hvalid,Bool.false_eq_true,if_false]
    refine Safe.call fun s hs => ⟨hs.1.1.hasLock,fun ch r s' hx => ?_⟩
    obtain ⟨⟨hh,hseen,hlive⟩,hacts⟩ := hs
    rcases commit_softDelete hx with ⟨hempty,rfl,rfl⟩ | ⟨-,rfl,⟨cur,hcur,-,rfl⟩ | ⟨hall,rfl⟩⟩
    · refine ⟨_,(stable_holds id .resources owner).and (stable_acts _),⟨hh,hacts⟩,?_⟩
      refine Safe.call fun s hs => ⟨trivial,fun ch' r s' hx => ?_⟩
      cases hx
      refine ⟨_,(stable_holds id .resources owner).and (stable_acts _),hs,?_⟩
      exact Safe.ret fun s hs => ⟨hs.1,_,hs.2,.unnamed hempty hd⟩
    · have hacts₂ : (s.softDelete i id ch.now).acts i =
          A ++ [.readResource id (some row),.softDeleted id ch.now] := by
        rw [State.softDelete,State.acts_record]
        exact (congrArg (· ++ _) hacts).trans (by simp)
      refine ⟨_,(stable_holds id .resources owner).and (stable_acts _),⟨hh,hacts₂⟩,?_⟩
      refine (safe_announce (A := A ++ [.readResource id (some row),.softDeleted id ch.now])
        (stable_holds id .resources owner) (persists_holds _ _ _ _) _ _ _).weaken ?_ ?_
      · exact fun s hs => ⟨hs.1,hs.2,fun he => by cases he⟩
      · rintro a s ⟨hh,acts,hacts,he,rfl⟩
        exact ⟨hh,.readResource id (some row) :: .softDeleted id ch.now :: acts,
          by rw [hacts]; simp,.deleted hd he⟩
    · have hgone : s'.Removed id := by
        rcases hseen with ⟨row₁,hrow₁,-⟩ | hgone
        · exact absurd (hlive hd row₁ hrow₁) (hall row₁ hrow₁)
        · exact hgone
      refine ⟨_,((stable_holds id .resources owner).and (stable_removed id)).and (stable_acts _),
        ⟨⟨hh,hgone⟩,hacts⟩,?_⟩
      refine (safe_announce (A := A ++ [.readResource id (some row)])
        ((stable_holds id .resources owner).and (stable_removed id))
        ((persists_holds _ _ _ _).and (persists_removed _)) _ _ _).weaken ?_ ?_
      · exact fun s hs => ⟨hs.1,hs.2,fun he => by cases he⟩
      · rintro a s ⟨⟨hh,hgone⟩,acts,hacts,he,rfl⟩
        exact ⟨hh,.readResource id (some row) :: acts,by rw [hacts]; simp,.removed hgone hd he⟩

theorem safe_create (res : Resource) (hres : res.deletedAt.valid = false) :
    Safe (pool n) (permits ext n) i (fun _ s => s.Free i) (create ext res)
      fun s => s.Free i := by
  unfold create
  split
  · exact Safe.ret fun s h => h
  · refine Safe.call fun s hfree => ⟨hres,fun ch r s' hx => ?_⟩
    rcases commit_createResource hx with ⟨hi,rfl,rfl⟩ | ⟨-,rfl,rfl⟩
    · refine ⟨_,stable_free.and (stable_acts _),⟨hfree,rfl⟩,?_⟩
      refine (safe_announce (A := (s.insertResource i _ hi.1).acts i) stable_free
        (persists_free _) _ _ _).weaken ?_ fun a s h => h.1
      exact fun s ⟨hf,hacts⟩ => ⟨hf,hacts,fun he => by cases he⟩
    · refine ⟨_,stable_free,hfree,?_⟩
      refine Safe.call fun s hs => ⟨trivial,fun ch' r s' hx => ?_⟩
      cases hx
      exact ⟨_,stable_free,hs,Safe.ret fun s h => h⟩

theorem safe_delete (id : String) :
    Safe (pool n) (permits ext n) i (fun _ s => s.Free i) (delete id) fun s => s.Free i := by
  refine Safe.call fun s hfree => ⟨trivial,fun ch r s' hx => ?_⟩
  rcases commit_hardDelete hx with ⟨-,rfl,rfl⟩ | ⟨-,rfl,⟨-,rfl⟩ | ⟨row,-,rfl⟩⟩
  · refine ⟨_,stable_free,hfree,?_⟩
    refine Safe.call fun s hs => ⟨trivial,fun ch' r s' hx => ?_⟩
    cases hx
    exact ⟨_,stable_free,hs,Safe.ret fun s h => h⟩
  · exact ⟨_,stable_free,hfree,Safe.ret fun s h => h⟩
  · exact ⟨_,stable_free,hfree,Safe.ret fun s h => h⟩

end Maestro
