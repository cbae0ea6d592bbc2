import Maestro.Api.Reference
import Maestro.Server.Operations

namespace Maestro
open Concurrent Data ResourceService

/-- The act leaves a row that is marked as deleting alone. -/
def Act.spares (row : ResourceRow) : Act → Prop
  | .insertedResource row' => row'.id ≠ row.id
  | .insertedEvent e => e.eventType = .update → e.sourceID ≠ row.id
  | .readResource id found => id = row.id → ∃ row', found = some row' ∧ row'.core = row.core
  | .wroteSpec id _ _ => id ≠ row.id
  | .softDeleted id _ => id ≠ row.id
  | .hardDeleted row' => row'.id ≠ row.id
  | _ => True

/-- Since the journal was `J` the row was removed, or it is as it was, but for its
status, and nothing touched it. -/
def Absorbed (J : List Entry) (row : ResourceRow) (s : State) : Prop :=
  ∃ later, s.journal = J ++ later ∧
    ((∃ t row', (⟨t,.hardDeleted row'⟩ : Entry) ∈ later ∧ row'.id = row.id) ∨
      (∀ e ∈ later, e.act.spares row) ∧
        ∃ row', s.resources.find row.id = some row' ∧ row'.core = row.core)

section Step

variable {ext : External} {t : ℕ} {ch : Choice} {s s' : State} {c : Call} {r : c.Resp}
    {J : List Entry} {row : ResourceRow}

/-- A recorded act of a permitted call spares a row that is marked as deleting. -/
theorem Act.recordedBy.spares {a : Act} (h : a.recordedBy s c) (ha : c.permitted ext t s)
    {row' : ResourceRow} (hrow : s.resources.find row.id = some row') (hcore : row'.core = row.core)
    (hd : row.deletedAt ≠ none) : a.spares row := by
  cases a with
  | readResource id found =>
    obtain ⟨-,rfl⟩ := h
    rintro rfl
    exact ⟨row',hrow,hcore⟩
  | insertedEvent e =>
    obtain ⟨event,now,uuid,rfl,rfl⟩ := h
    rintro he hid
    have hid : event.sourceID = row.id := hid
    have hlive := ha he row' (by rw [hid]; exact hrow)
    exact hd ((congrArg ResourceRow.deletedAt hcore).symm.trans hlive)
  | insertedResource | wroteSpec | softDeleted | hardDeleted => cases h
  | _ => trivial

theorem Absorbed.step (ha : c.permitted ext t s) (hx : commit t ch c s = some (r,s'))
    (hd : row.deletedAt ≠ none) (h : Absorbed J row s) : Absorbed J row s' := by
  obtain ⟨later,hj,h⟩ := h
  obtain ⟨acts,hj'⟩ := commit_journal hx
  rcases h with ⟨u,row',hm,hid⟩ | ⟨hspare,row',hrow,hcore⟩
  · refine ⟨later ++ acts.map (Entry.mk t),by rw [hj',hj,List.append_assoc],Or.inl ⟨u,row',?_,hid⟩⟩
    exact List.mem_append_left _ hm
  -- one more act, which spares the row, and a row that is the same but for its status
  have hkeep : ∀ {s' : State} {more : List Entry}, s'.journal = s.journal ++ more →
      (∀ e ∈ more, e.act.spares row) →
      (∃ row'', s'.resources.find row.id = some row'' ∧ row''.core = row.core) →
      Absorbed J row s' := fun {s' more} hj' hm hrow' =>
    ⟨later ++ more,by rw [hj',hj,List.append_assoc],Or.inr ⟨fun e he =>
      (List.mem_append.mp he).elim (hspare e) (hm e),hrow'⟩⟩
  have hd' : row'.deletedAt ≠ none := fun he =>
    hd ((congrArg ResourceRow.deletedAt hcore).symm.trans he)
  cases commit_rowEffect hx with
  | quiet acts hr hj' hb =>
    refine hkeep hj' (fun e he => ?_) ⟨row',by rw [hr]; exact hrow,hcore⟩
    obtain ⟨a,hm,rfl⟩ := List.mem_map.mp he
    exact (hb a hm).spares ha hrow hcore hd
  | insert resource now uuid hi =>
    have hne : ((resource.beforeCreate now uuid).row now).id ≠ row.id := fun he => by
      have hfree := hi.1
      rw [he,hrow] at hfree
      cases hfree
    refine hkeep rfl (by simpa [Act.spares] using hne) ⟨row',?_,hcore⟩
    rw [State.find_insertResource,if_neg (Ne.symm hne)]
    exact hrow
  | @spec id cur version payload now hcur =>
    have hne : id ≠ row.id := by
      rintro rfl
      exact hd' (ha.2.1 row' hrow)
    refine hkeep rfl (by simpa [Act.spares] using hne) ⟨row',?_,hcore⟩
    rw [State.find_writeSpec,if_neg (Ne.symm hne)]
    exact hrow
  | @status id cur status now hcur =>
    refine hkeep rfl (by simp [Act.spares]) ?_
    rw [State.find_writeStatus]
    split
    · exact ⟨row'.setStatus status now,by rw [hrow]; rfl,hcore⟩
    · exact ⟨row',hrow,hcore⟩
  | @soft id cur now hcur hlive =>
    have hne : id ≠ row.id := by
      rintro rfl
      cases hcur.symm.trans hrow
      exact hd' hlive
    refine hkeep rfl (by simpa [Act.spares] using hne) ⟨row',?_,hcore⟩
    rw [State.find_softDelete,if_neg (Ne.symm hne)]
    exact hrow
  | @hard id cur hcur =>
    by_cases hid : cur.id = row.id
    · exact ⟨later ++ [⟨t,.hardDeleted cur⟩],by simp [State.hardDelete,hj],
        Or.inl ⟨t,cur,by simp,hid⟩⟩
    · refine hkeep rfl (by simpa [Act.spares] using hid) ⟨row',?_,hcore⟩
      rw [State.find_hardDelete,if_neg (Ne.symm hid)]
      exact hrow

end Step

/-- `Update` on a row that is marked as deleting. -/
theorem UpdateRun.conflict {ext : External} {res : Resource} {gone : Prop} {acts : List Act}
    {r : Except ServiceError Resource} (h : UpdateRun ext res gone acts r) {row : ResourceRow}
    (hm : .readResource res.id (some row) ∈ acts) (hd : row.deletedAt ≠ none) :
    r = .error (Errors.conflict ("the resource is under deletion, id: " ++ res.id)) := by
  have hsome : row.scan.deletedAt.time.isSome := Option.isSome_iff_ne_none.mpr hd
  cases h with
  | missing => simp at hm
  | refused hc =>
    simp only [List.mem_singleton,Act.readResource.injEq,true_and,Option.some.injEq] at hm
    subst hm
    rw [checkUpdate,if_pos hsome] at hc
    exact (Option.some.inj hc).symm
  | @written row' acts hc he =>
    obtain ⟨now,uuid,rfl⟩ := he
    simp at hm
    subst hm
    exact absurd (checkUpdate_eq_none hc).1 hd
  | @removed row' acts _ hc he =>
    obtain ⟨now,uuid,rfl⟩ := he
    simp at hm
    subst hm
    exact absurd (checkUpdate_eq_none hc).1 hd

/-- A row that is marked as deleting stays as it is until it is removed: nothing writes
its spec, nothing is inserted under its ID, and an `Update` that reads it ends in a
conflict. -/
theorem deleting_absorbing (ext : External) {n : ℕ} (ops : Fin n → Op) {s₀ : State}
    (h₀ : s₀.Fresh n) {cfg cfg' : Config (Fin n) State Call Call.Resp Reply}
    (hr : Reach (pool n) (start ext ops s₀) cfg) (hr' : Reach (pool n) cfg cfg')
    {row : ResourceRow} {time : Time} (hrow : cfg.shared.resources.find row.id = some row)
    (hd : row.deletedAt = some time) :
    ∃ later, cfg'.shared.journal = cfg.shared.journal ++ later ∧
      ((∃ t row', (⟨t,.hardDeleted row'⟩ : Entry) ∈ later ∧ row'.id = row.id) ∨
      (∃ row', cfg'.shared.resources.find row.id = some row' ∧
        row'.version = row.version ∧ row'.payload = row.payload ∧ row'.source = row.source ∧
        row'.consumerName = row.consumerName ∧ row'.deletedAt = some time) ∧
      (∀ t row', (⟨t,.insertedResource row'⟩ : Entry) ∈ later → row'.id ≠ row.id) ∧
      (∀ t e, (⟨t,.insertedEvent e⟩ : Entry) ∈ later → e.eventType = .update →
        e.sourceID ≠ row.id) ∧
      ∀ (i : Fin n) res found reply, ops i = .update res → res.id = row.id →
        (⟨i,.readResource row.id found⟩ : Entry) ∈ later → cfg'.threads i = .ret reply →
        reply = .resource (.error
          (Errors.conflict ("the resource is under deletion, id: " ++ res.id)))) := by
  have hv := (start_verified ext ops h₀).reach hr
  have hne : row.deletedAt ≠ none := by simp [hd]
  obtain ⟨later,hj,hgone | ⟨hspare,row',hrow',hcore⟩⟩ := hv.invariant
    (K := Absorbed cfg.shared.journal row) (fun i ch c s r s' ha hx hK => hK.step ha hx hne) hr'
    ⟨[],by simp,Or.inr ⟨by simp,row,hrow,rfl⟩⟩
  · exact ⟨later,hj,Or.inl hgone⟩
  refine ⟨later,hj,Or.inr ⟨⟨row',hrow',?_⟩,?_,?_,?_⟩⟩
  · obtain ⟨hv,hp,hs,hc,hdel⟩ := ResourceRow.core_fields hcore
    exact ⟨hv,hp,hs,hc,hdel.trans hd⟩
  · exact fun t row₁ hm => hspare _ hm
  · exact fun t e hm => hspare _ hm
  · intro i res found reply hop hid hm hret
    obtain ⟨row₁,rfl,hcore₁⟩ := hspare _ hm rfl
    obtain ⟨-,acts,hacts,hrun⟩ := (hv.reach hr').result hret
    rw [hop] at hrun
    obtain ⟨r,rfl,hrun⟩ := hrun
    have hread : Act.readResource res.id (some row₁) ∈ acts := by
      rw [hid,← List.nil_append acts,← hacts,State.mem_acts,hj]
      exact List.mem_append_right _ hm
    have hmarked : row₁.deletedAt ≠ none := by
      rw [(ResourceRow.core_fields hcore₁).2.2.2.2]
      exact hne
    rw [hrun.conflict hread hmarked]

/-- A deletion, and an update that has been waiting for its lock. -/
def deletingOps : Fin 2 → Op
  | 0 => .markAsDeleting 0 "web"
  | 1 => .update { Reference.webRow.scan with payload := Reference.bundle "src" "api" }

def deletingStart : Config (Fin 2) State Call Call.Resp Reply :=
  start Reference.packages deletingOps (.single Reference.webRow)

def deletedRow : ResourceRow := { Reference.webRow with deletedAt := some 2 }

def keepsRows (e : Entry) : Bool :=
  match e.act with
  | .hardDeleted _ => false
  | _ => true

/-- The deletion has set its mark when the update reads the row. -/
theorem deleting_absorbing_conflict :
    ∃ cfg cfg' : Config (Fin 2) State Call Call.Resp Reply,
      Reach (pool 2) deletingStart cfg ∧ Reach (pool 2) cfg cfg' ∧
      cfg.shared.resources.find "web" = some deletedRow ∧
      cfg'.threads 1 = .ret (.resource (.error
        (Errors.conflict "the resource is under deletion, id: web"))) := by
  have h : (follow (pool 2) (turns [0,0,0]) deletingStart).any fun cfg =>
      (cfg.shared.resources.find "web" = some deletedRow) &&
      (follow (pool 2) (turns [0,0,0,1,1,1]) cfg).any fun cfg' =>
        (cfg'.threads 1).result.isSome &&
        (cfg'.shared.journal.drop cfg.shared.journal.length).all keepsRows &&
        (cfg'.shared.journal.drop cfg.shared.journal.length).contains
          ⟨1,.readResource "web" (some deletedRow)⟩ := by
    decide +kernel
  obtain ⟨cfg,hr,h⟩ := (Option.any_eq_true _ _).mp h
  obtain ⟨hrow,h⟩ := (Bool.and_eq_true _ _).mp h
  obtain ⟨cfg',hr',h⟩ := (Option.any_eq_true _ _).mp h
  obtain ⟨h,hread⟩ := (Bool.and_eq_true _ _).mp h
  obtain ⟨hdone,hkept⟩ := (Bool.and_eq_true _ _).mp h
  replace hrow : cfg.shared.resources.find deletedRow.id = some deletedRow :=
    of_decide_eq_true hrow
  obtain ⟨reply,hreply⟩ := Option.isSome_iff_exists.mp hdone
  have hret := Prog.result_eq_some.mp hreply
  refine ⟨cfg,cfg',.of_follow _ hr,.of_follow _ hr',hrow,?_⟩
  obtain ⟨later,hj,hgone | ⟨-,-,-,hconflict⟩⟩ := deleting_absorbing Reference.packages deletingOps
    ⟨rfl,fun i l hl => by cases hl⟩ (.of_follow _ hr) (.of_follow _ hr') hrow rfl
  · obtain ⟨t,row,hm,-⟩ := hgone
    rw [hj,List.drop_left] at hkept
    exact absurd (List.all_eq_true.mp hkept _ hm) (by simp [keepsRows])
  · rw [hj,List.drop_left,List.contains_iff_mem] at hread
    rw [hret,hconflict 1 _ _ reply rfl rfl hread hret]
    rfl

end Maestro
