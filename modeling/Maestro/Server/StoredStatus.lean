import Maestro.Server.Requests
import Maestro.Server.StatusConvergence

/-!
# The stored status of a resource

Any number of sessions whose statements may fail. As long as a resource is not created again, the
status in its row is only ever replaced by a newer one, under the status lock.
-/

namespace Maestro
open Concurrent Data ResourceService

/-- The new status is not older than the old one. -/
def NotOlder (ext : External) (old new : JSONMap) : Prop :=
  ∀ a, HasID ext old a → ∃ b, HasID ext new b ∧ a ≤ b

def State.removed (s : State) (id : String) : Bool :=
  s.journal.any fun e => match e.act with
    | .hardDeleted row => decide (row.id = id)
    | _ => false

/-- An `Unlock` names no lock of another session, and the ID is not created again after its row
was removed. -/
def Choice.once (ch : Choice) (id : String) (i : ℕ) (s : State) : Call → Bool
  | .unlock uuid => s.locks.held.all fun l => decide (l.owner = uuid → l.session = i)
  | .createResource resource =>
    decide ((resource.beforeCreate ch.now ch.uuid).id = id → s.removed id = false)
  | _ => true

def oncePool (id : String) (n : ℕ) (i : Fin n) (ch : Choice) (c : Call) (s : State) :
    Option (c.Resp × State) :=
  if ch.once id i s c then exec i ch c s else none

/-- A status is written under its lock, if it is newer than the one in the row. -/
def statusRule (ext : External) (id : String) {n : ℕ} (filled : Fin n → JSONMap → Prop) (i : Fin n)
    (c : Call) (s : State) : Prop :=
  match c with
  | .updateResourceStatus id' status => id' = id → filled i status ∧
    s.HasLock i id .resourceStatus ∧ (s.Removed id ∨ ∀ row, s.resources.find id = some row →
      newerStatus ext status row.status.scan = .ok true)
  | .createResource resource => resource.status = none
  | _ => True

/-- Calls without a rule. -/
def Call.specOnly (id : String) : Call → Prop
  | .updateResourceStatus id' _ => id' ≠ id
  | .createResource resource => resource.status = none
  | _ => True

section Order

variable {ext : External} {a b c : JSONMap}

theorem NotOlder.refl (a : JSONMap) : NotOlder ext a a := fun x hx => ⟨x,hx,Int64.le_refl x⟩

theorem NotOlder.trans (h : NotOlder ext a b) (h' : NotOlder ext b c) : NotOlder ext a c := by
  intro x hx
  obtain ⟨y,hy,hxy⟩ := h x hx
  obtain ⟨z,hz,hyz⟩ := h' y hy
  exact ⟨z,hz,Int64.le_trans hxy hyz⟩

theorem hasID_scan {x : Int64} : HasID ext a.scan x ↔ HasID ext a x := by
  refine ⟨fun ⟨sequenceID,hne,hread,hparse⟩ => ⟨sequenceID,hne,fun what => ?_,hparse⟩,HasID.scan⟩
  rw [← hread what,sequenceIDOf,sequenceIDOf,jsonMapToCloudEvent_scan]

@[simp] theorem notOlder_scan_left : NotOlder ext a.scan b ↔ NotOlder ext a b := by
  simp only [NotOlder,hasID_scan]

@[simp] theorem notOlder_scan_right : NotOlder ext a b.scan ↔ NotOlder ext a b := by
  simp only [NotOlder,hasID_scan]

theorem sequenceIDOf_ok {what what' sequenceID : String} (h : sequenceIDOf ext a what = .ok sequenceID) :
    sequenceIDOf ext a what' = .ok sequenceID := by
  unfold sequenceIDOf at h ⊢
  cases hevt : jsonMapToCloudEvent ext a with
  | error err => simp only [hevt,reduceCtorEq] at h
  | ok evt =>
    simp only [hevt] at h ⊢
    cases hs : ext.toString (evt.extension extensionStatusUpdateSequenceID) with
    | error err => simp only [hs,reduceCtorEq] at h
    | ok sequenceID' =>
      simp only [hs] at h ⊢
      exact h

/-- What `newerStatus` lets pass is newer, whatever the nodes of the IDs are. -/
theorem newerStatus_notOlder (hlay : DefaultLayout ext.snowflake)
    (hempty : ∀ x, ext.snowflake.parseString "" ≠ .ok x) (h : newerStatus ext b a = .ok true) :
    NotOlder ext a b := by
  intro old hold
  obtain ⟨oldID,hne,hread,hparse⟩ := hold.read
  unfold newerStatus at h
  split at h
  · cases h
  split at h
  · cases h
  · next newID hnew =>
    rw [if_pos hold.len_ne,hread] at h
    dsimp only at h
    split at h
    · cases h
    · next newer hcmp =>
      cases h
      rw [compareSequenceIDs,if_neg (fun h => hne h.2)] at hcmp
      split at hcmp
      · cases hcmp
      · next x hx =>
        rw [hparse] at hcmp
        dsimp only at hcmp
        split at hcmp
        · cases hcmp
        · next hnode =>
          have hlt := hlay.lt_iff (not_not.mp hnode)
          refine ⟨x,⟨newID,?_,fun what => sequenceIDOf_ok hnew,hx⟩,Int64.le_of_lt (hlt.mpr ?_)⟩
          · rintro rfl
            exact hempty x hx
          · split at hcmp
            · next ht =>
              rw [if_pos ht]
              exact of_decide_eq_true (Except.ok.inj hcmp)
            · next ht =>
              rw [if_neg ht]
              exact of_decide_eq_true (Except.ok.inj hcmp)

end Order

section Step

variable {ext : External} {id : String} {n : ℕ} {filled : Fin n → JSONMap → Prop} {i j : Fin n}
    {ch : Choice} {c : Call} {r : c.Resp} {s s' : State} {row : ResourceRow}

theorem State.removed_iff : s.removed id = true ↔ s.Removed id := by
  simp only [State.removed,State.Removed,List.any_eq_true]
  constructor
  · rintro ⟨⟨t,act⟩,hm,he⟩
    cases act with
    | hardDeleted row => exact ⟨t,row,hm,of_decide_eq_true he⟩
    | _ => cases he
  · rintro ⟨t,row,hm,hid⟩
    exact ⟨_,hm,decide_eq_true hid⟩

theorem oncePool_exec (h : oncePool id n i ch c s = some (r,s')) :
    exec i ch c s = some (r,s') ∧ ch.once id i s c := by
  unfold oncePool at h
  split at h
  · next ho => exact ⟨h,ho⟩
  · cases h

theorem oncePool_answers : ∀ (j : Fin n) ch c s r s', oncePool id n j ch c s = some (r,s') →
    Answers c r := fun _ _ _ _ _ _ hx => exec_answers (oncePool_exec hx).1

/-- The lock is kept by all calls but the session's own unlock. -/
theorem oncePool_hasLock {key : String} {lockType : LockType}
    (hx : oncePool id n j ch c s = some (r,s')) (hc : j ≠ i ∨ ∀ uuid, c ≠ .unlock uuid)
    (h : s.HasLock i key lockType) : s'.HasLock i key lockType := by
  obtain ⟨hx,ho⟩ := oncePool_exec hx
  refine h.exec hx ?_
  rintro uuid rfl l hl hu
  have hj := hc.resolve_right fun hne => hne uuid rfl
  rw [of_decide_eq_true (List.all_eq_true.mp ho l hl) hu]
  exact val_ne hj

theorem State.Removed.of_append {new : List Entry} (h : s'.Removed id)
    (hj : s'.journal = s.journal ++ new)
    (hnew : ∀ u row, (⟨u,.hardDeleted row⟩ : Entry) ∈ new → row.id ≠ id) : s.Removed id := by
  obtain ⟨u,row,hm,hid⟩ := h
  rw [hj] at hm
  exact ⟨u,row,(List.mem_append.mp hm).resolve_right fun hm => hnew u row hm hid,hid⟩

/-- The removed row does not come back, a row has the status that it had or one that was filled
in, and while it stays its status does not go back. -/
structure RowKept (ext : External) (id : String) (filled : JSONMap → Prop) (s s' : State) :
    Prop where
  gone : s'.Removed id → s'.resources.find id = none
  source : ∀ row', s'.resources.find id = some row' → row'.status = none ∨ filled row'.status ∨
    ∃ row, s.resources.find id = some row ∧ row'.status = row.status
  forward : ∀ row, s.resources.find id = some row → s'.Removed id ∨
    ∃ row', s'.resources.find id = some row' ∧ NotOlder ext row.status row'.status

theorem RowKept.of_map {filled : JSONMap → Prop} (hgone : s.Removed id → s.resources.find id = none)
    (hr : s'.Removed id → s.Removed id) (f : ResourceRow → ResourceRow)
    (hfind : s'.resources.find id = (s.resources.find id).map f)
    (hf : ∀ row, (f row).status = row.status) : RowKept ext id filled s s' where
  gone h := by rw [hfind,hgone (hr h),Option.map_none]
  source row' hrow' := by
    rw [hfind] at hrow'
    obtain ⟨row,hrow,rfl⟩ := Option.map_eq_some_iff.mp hrow'
    exact Or.inr (Or.inr ⟨row,hrow,hf row⟩)
  forward row hrow := by
    refine Or.inr ⟨f row,by rw [hfind,hrow,Option.map_some],?_⟩
    rw [hf]
    exact .refl _

theorem RowKept.same {filled : JSONMap → Prop} (hgone : s.Removed id → s.resources.find id = none)
    (hr : s'.Removed id → s.Removed id) (hfind : s'.resources.find id = s.resources.find id) :
    RowKept ext id filled s s' :=
  .of_map hgone hr (fun row => row) (by rw [hfind,Option.map_id']) fun _ => rfl

/-- An ID that is created was not removed before. -/
theorem not_removed_of_created {resource : Resource} {r : Except DbErr Resource}
    (hx : exec i ch (.createResource resource) s = some (r,s'))
    (ho : ch.once id i s (.createResource resource)) (hnone : s.resources.find id = none)
    (hthere : s'.resources.find id ≠ none) : ¬ s.Removed id := by
  rcases exec_cases hx with ⟨-,-,-,rfl⟩ | ⟨-,hc⟩
  · exact absurd hnone hthere
  rcases commit_createResource hc with ⟨hi,-,rfl⟩ | ⟨-,-,rfl⟩
  · have hid : id = ((resource.beforeCreate ch.now ch.uuid).row ch.now).id := by
      by_contra hne
      rw [State.find_insertResource,if_neg hne] at hthere
      exact hthere hnone
    intro hr
    have hfalse := of_decide_eq_true ho hid.symm
    rw [State.removed_iff.mpr hr] at hfalse
    cases hfalse
  · exact absurd hnone hthere

theorem oncePool_row (hlay : DefaultLayout ext.snowflake)
    (hempty : ∀ x, ext.snowflake.parseString "" ≠ .ok x) (ha : statusRule ext id filled i c s)
    (hx : oncePool id n i ch c s = some (r,s')) (hgone : s.Removed id → s.resources.find id = none) :
    RowKept ext id (filled i) s s' := by
  obtain ⟨hx,ho⟩ := oncePool_exec hx
  -- only `hard` records a removal
  have hold : ∀ a : Act, (∀ row, a ≠ .hardDeleted row) →
      s'.journal = s.journal ++ [⟨i,a⟩] → s'.Removed id → s.Removed id := by
    intro a ha hj h
    refine h.of_append hj fun u row hm => ?_
    cases List.mem_singleton.mp hm
    exact absurd rfl (ha row)
  -- a row that is there was not removed
  have hthere : ∀ row, s.resources.find id = some row → ¬ s.Removed id :=
    fun row hrow hr => absurd (hrow.symm.trans (hgone hr)) (by simp)
  cases exec_rowEffect hx with
  | quiet acts hres hj hb =>
    refine .same hgone (fun h => h.of_append hj fun u row hm => ?_) (by rw [hres])
    obtain ⟨a,ha,he⟩ := List.mem_map.mp hm
    cases he
    exact (hb _ ha).elim
  | insert resource now uuid hi =>
    have hr := hold _ (fun _ => Act.noConfusion) rfl
    by_cases hid : id = ((resource.beforeCreate now uuid).row now).id
    · have hnone : s.resources.find id = none := by rw [hid]; exact hi.1
      have hfind : (s.insertResource i _ hi.1).resources.find id =
          some ((resource.beforeCreate now uuid).row now) := by
        rw [State.find_insertResource,if_pos hid]
      have hnew := not_removed_of_created hx ho hnone (by rw [hfind]; simp)
      refine ⟨fun h => absurd (hr h) hnew,fun row' hrow' => ?_,fun row hrow => ?_⟩
      · cases hfind.symm.trans hrow'
        exact Or.inl ha
      · exact absurd (hrow.symm.trans hnone) (by simp)
    · refine .same hgone hr ?_
      rw [State.find_insertResource,if_neg hid]
  | @spec id' _ version payload now hrow =>
    have hr := hold _ (fun _ => Act.noConfusion) rfl
    by_cases hid : id = id'
    · refine .of_map hgone hr (fun row => row.setSpec version payload now) ?_ fun _ => rfl
      rw [State.find_writeSpec,if_pos hid]
    · refine .same hgone hr ?_
      rw [State.find_writeSpec,if_neg hid]
  | @status id' _ status now hrow =>
    have hr := hold _ (fun _ => Act.noConfusion) rfl
    by_cases hid : id = id'
    · subst hid
      obtain ⟨hfilled,-,hnewer⟩ := ha rfl
      refine ⟨fun h => absurd (hr h) (hthere _ hrow),?_,?_⟩
      all_goals simp only [State.find_writeStatus,if_true]
      · intro row' hrow'
        obtain ⟨row,-,rfl⟩ := Option.map_eq_some_iff.mp hrow'
        exact Or.inr (Or.inl hfilled)
      · intro row hrow
        have hnew := hnewer.resolve_left (hthere _ hrow) row hrow
        exact Or.inr ⟨_,by rw [hrow]; rfl,
          notOlder_scan_left.mp (newerStatus_notOlder hlay hempty hnew)⟩
    · refine .same hgone hr ?_
      rw [State.find_writeStatus,if_neg hid]
  | @soft id' _ now hrow hd =>
    have hr := hold _ (fun _ => Act.noConfusion) rfl
    by_cases hid : id = id'
    · refine .of_map hgone hr (fun row => row.setDeletedAt now) ?_ fun _ => rfl
      rw [State.find_softDelete,if_pos hid]
    · refine .same hgone hr ?_
      rw [State.find_softDelete,if_neg hid]
  | @hard id' gone hrow =>
    by_cases hid : id = gone.id
    · have hfind : (s.hardDelete i gone).resources.find id = none := by
        rw [State.find_hardDelete,if_pos hid]
      refine ⟨fun _ => hfind,fun row' hrow' => ?_,fun row _ => Or.inl ?_⟩
      · exact absurd (hrow'.symm.trans hfind) (by simp)
      · exact ⟨i,gone,List.mem_append_right _ List.mem_cons_self,hid.symm⟩
    · refine .same hgone (fun h => h.of_append rfl fun u row hm => ?_)
        (by rw [State.find_hardDelete,if_neg hid])
      cases List.mem_singleton.mp hm
      exact fun he => hid he.symm

end Step

section Outlines

variable {ext : External} {id : String} {n : ℕ} {filled : Fin n → JSONMap → Prop} {i : Fin n}

theorem statusRule_of_specOnly {c : Call} {s : State} (h : c.specOnly id) :
    statusRule ext id filled i c s := by
  cases c with
  | updateResourceStatus id' status => exact fun he => absurd he h
  | createResource resource => exact h
  | _ => trivial

theorem safe_specOnly {α : Type} {p : M α} {P : State → Prop}
    (hp : p.Calls Answers (Call.specOnly id) fun _ => True) :
    Safe (oncePool id n) (statusRule ext id filled) i (fun _ _ => True) p P := by
  refine (Safe.of_own (P := fun _ => True) (oncePool_answers i) (.const True)
    (fun _ _ hc _ => statusRule_of_specOnly hc) (fun _ _ _ _ _ _ _ _ => trivial) hp).weaken
    (fun _ _ => trivial) fun _ _ _ => trivial

theorem stable_statusLock : Stable (oncePool id n) (statusRule ext id filled) i
    fun s => s.HasLock i id .resourceStatus :=
  fun _ hj _ _ _ _ _ _ hx h => oncePool_hasLock hx (Or.inl hj) h

/-- Under the lock of the status, it stays as it was read. -/
theorem stable_readStatus (row : ResourceRow) : Stable (oncePool id n)
    (statusRule ext id filled) i
    fun s => s.HasLock i id .resourceStatus ∧ s.SeenStatus id row := by
  intro j hj ch c s r s' ha hx ⟨hl,hs⟩
  refine ⟨oncePool_hasLock hx (Or.inl hj) hl,(exec_rowEffect (oncePool_exec hx).1).seenStatus ?_ hs⟩
  rintro status rfl
  -- another session would need the lock as well
  exact val_ne hj ((ha rfl).2.1.exclusive hl)

theorem safe_storeStatus (res : Resource) (hfill : res.id = id → filled i res.status) :
    Safe (oncePool id n) (statusRule ext id filled) i (fun _ _ => True) (updateStatus ext res)
      fun _ => True := by
  have hn : ∀ c : Call, c.neutral → c.specOnly id := fun c hc => by cases c <;> trivial
  by_cases hid : res.id = id
  swap
  · exact safe_specOnly (updateStatus_calls hn ext res trivial trivial hid)
  subst hid
  refine Safe.call fun s _ => ⟨trivial,fun ch r s' hx => ?_⟩
  obtain ⟨owner,lockErr⟩ := r
  have hunlock : ∀ (a : Except ServiceError (Resource × Bool)) (P : State → Prop),
      Safe (oncePool res.id n) (statusRule ext res.id filled) i (fun _ _ => True)
        (unlock owner >>= fun _ => (pure a : M _)) P :=
    fun a P => safe_specOnly ((unlock_calls hn owner).bind fun _ _ => trivial)
  cases lockErr with
  | some err =>
    refine ⟨_,.const True,trivial,?_⟩
    exact hunlock _ _
  | none =>
    have hlock : s'.HasLock i res.id .resourceStatus := by
      rcases exec_cases (oncePool_exec hx).1 with ⟨err,-,he,-⟩ | ⟨-,hc⟩
      · cases he
      · obtain ⟨locks,hl,he⟩ := Option.map_eq_some_iff.mp hc
        simp only [Prod.mk.injEq] at he
        refine ⟨ch.uuid,?_⟩
        rw [← he.2]
        exact (LockTable.mem_acquire hl).mpr (Or.inl rfl)
    refine ⟨_,stable_statusLock,hlock,?_⟩
    change Safe _ _ i _ (Prog.deferring (unlock owner) _) _
    refine Safe.bind (Q := fun _ _ => True) ?_ fun a => hunlock a _
    refine Safe.call fun s hl => ⟨trivial,fun ch r s' hx => ?_⟩
    have hl' := oncePool_hasLock hx (Or.inr fun _ => Call.noConfusion) hl
    have hend : ∀ a : Except ServiceError (Resource × Bool), ∃ P', Stable (oncePool res.id n)
        (statusRule ext res.id filled) i P' ∧ P' s' ∧ Safe (oncePool res.id n)
          (statusRule ext res.id filled) i (fun _ _ => True) (.ret a : M _) P' :=
      fun a => ⟨_,.const True,trivial,Safe.ret fun _ _ => trivial⟩
    rcases exec_cases (oncePool_exec hx).1 with ⟨err,-,he,-⟩ | ⟨-,hc⟩
    · cases he
      exact hend _
    obtain ⟨hs',⟨-,rfl⟩ | ⟨row,hrow,rfl⟩⟩ := commit_takeResource hc
    · exact hend _
    have hrow' : s'.SeenStatus res.id row := Or.inl ⟨row,by rw [hs']; exact hrow,rfl⟩
    refine ⟨_,stable_readStatus row,⟨hl',hrow'⟩,?_⟩
    dsimp only [Prog.bind]
    cases haccepts : acceptsStatus ext res row.scan with
    | error err => exact Safe.ret fun _ _ => trivial
    | ok accepted =>
      cases accepted with
      | false => exact Safe.ret fun _ _ => trivial
      | true =>
        obtain ⟨-,hnew⟩ := acceptsStatus_eq_true haccepts
        have hid : row.id = res.id := Table.find_some_key hrow
        refine Safe.call fun s hs => ⟨fun _ => ⟨hfill rfl,hs.1,?_⟩,fun ch r s' hx => ?_⟩
        · refine hs.2.symm.imp_right ?_
          rintro ⟨cur,hcur,hst⟩ row' hrow'
          cases hcur.symm.trans hrow'
          rw [hst]
          exact hnew
        · refine ⟨_,.const True,trivial,?_⟩
          cases r with
          | error err => exact safe_specOnly ⟨trivial,fun _ _ => trivial⟩
          | ok u => exact Safe.ret fun _ _ => trivial

/-- `HandleStatusUpdate` stores what it filled in. -/
theorem safe_reportStatus (message : Resource) (hfill : message.id = id → ∀ found status,
      fillStatus ext message found = .ok (status,false) → filled i status) :
    Safe (oncePool id n) (statusRule ext id filled) i (fun _ _ => True)
      (handleStatusUpdate ext message) fun _ => True := by
  have hn : ∀ c : Call, c.neutral → c.specOnly id := fun c hc => by cases c <;> trivial
  refine Safe.bind (Q := fun _ _ => True) (safe_specOnly (get_calls ext message.id trivial))
    fun r => ?_
  cases r with
  | error err =>
    dsimp only
    split <;> exact Safe.ret fun _ _ => trivial
  | ok found =>
    dsimp only
    split
    · exact Safe.ret fun _ _ => trivial
    cases hfilled : fillStatus ext message found with
    | error err => exact Safe.ret fun _ _ => trivial
    | ok p =>
      obtain ⟨status,deleted⟩ := p
      dsimp only
      cases deleted with
      | true => exact safe_specOnly (handleDeleted_calls hn _ _ trivial trivial)
      | false =>
        refine Safe.bind (Q := fun _ _ => True) (safe_storeStatus _ fun hid =>
          hfill hid found status hfilled) fun r => safe_specOnly ?_
        cases r with
        | error err => trivial
        | ok p =>
          dsimp only
          split
          · refine .bind (statusEvent_calls hn trivial) fun r _ => ?_
            cases r <;> trivial
          · trivial

theorem publish_specOnly (svr : GRPCServer) (req : PublishRequest) :
    (svr.publish ext req).Calls Answers (Call.specOnly id) fun _ => True := by
  have hn : ∀ c : Call, c.neutral → c.specOnly id := fun c hc => by cases c <;> trivial
  refine publish_calls ext svr req (fun _ => trivial) (fun _ => trivial) fun evt action res hreq => ?_
  have hstatus : res.status = none :=
    decodeResourceSpec_status (GRPCServer.decodeRequest_some hreq).2
  exact dispatch_calls hn ext svr action res (fun _ => ⟨hstatus,fun _ _ => trivial⟩)
    (fun _ _ _ => ⟨trivial,trivial⟩) (fun _ => ⟨trivial,trivial,trivial⟩) trivial trivial

end Outlines

end Maestro
