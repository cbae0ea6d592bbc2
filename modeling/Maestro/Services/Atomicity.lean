import Maestro.Api.Reference
import Maestro.Services.Evaluation

namespace Maestro
open Concurrent Data

/-- The statements of `Create`, `Update` and `MarkAsDeleting` that can fail. -/
inductive Statement
  | lock
  | readResource
  | insertResource
  | updateResource
  | deleteResource
  | lookupDeleteEvent
  | insertEvent
  | notify
deriving DecidableEq

def Call.statement : Call → Option Statement
  | .newAdvisoryLock _ _ => some .lock
  | .takeResource _ => some .readResource
  | .createResource _ => some .insertResource
  | .updateResource _ _ _ => some .updateResource
  | .deleteResource _ _ => some .deleteResource
  | .findLatestDeleteEvent _ => some .lookupDeleteEvent
  | .createEvent _ => some .insertEvent
  | .notify _ _ => some .notify
  | _ => none

/-- The statement that fails, with its error, if one does. -/
abbrev Fault := Option (Statement × DbErr)

def failing (fault : Fault) (c : Call) : Option DbErr :=
  fault.bind fun f => if c.statement = some f.1 then some f.2 else none

def Fault.hits (fault : Fault) (st : Statement) : Prop := fault.map Prod.fst = some st

instance (fault : Fault) (st : Statement) : Decidable (fault.hits st) := by
  unfold Fault.hits; infer_instance

inductive Operation
  | create (resource : Resource)
  | update (resource : Resource)
  | markAsDeleting (id : String)

def errorOf {ε α : Type} : Except ε α → Option ε
  | .error err => some err
  | .ok _ => none

namespace Operation

def run (ext : External) (interval : Time) : Operation → M (Option ServiceError)
  | .create resource => errorOf <$> ResourceService.create ext resource
  | .update resource => errorOf <$> ResourceService.update ext resource
  | .markAsDeleting id => errorOf <$> ResourceService.markAsDeleting interval id

/-- Whether the operation's checks pass and its row can be written. The choice
gives the generated ID of a resource that is created without one. -/
def writesRow (ext : External) (s : State) (ch : Choice) : Operation → Bool
  | .create resource =>
    ResourceService.validateCreate ext resource = .ok () ∧
      s.canInsert ((resource.beforeCreate ch.now ch.uuid).row ch.now)
  | .update resource =>
    (s.resources.find resource.id).any fun row =>
      ResourceService.checkUpdate ext resource row.scan = none
  | .markAsDeleting id => id ≠ "" ∧ (s.resources.find id).any fun row => row.deletedAt = none

/-- Whether a repeated delete publishes its event again at the given time. -/
def republishes (interval : Time) (s : State) (now : Time) : Operation → Bool
  | .markAsDeleting id =>
    0 < interval ∧ ((s.resources.find id).any fun row => row.deletedAt.isSome) ∧
      (latestDeleteEvent s.events.rows id).all fun event => ¬ now - event.createdAt < interval
  | _ => false

/-- The failure comes after a committed write: the event of a written row cannot be
inserted, or an inserted event cannot be notified. -/
def Tears (ext : External) (interval : Time) (fault : Fault) (env : ℕ → Choice) (s : State)
    (op : Operation) : Prop :=
  fault.hits .insertEvent ∧ op.writesRow ext s (env 0) ∨
  fault.hits .notify ∧ (op.writesRow ext s (env 0) ∨ op.republishes interval s (env 3).now)

instance (ext : External) (interval : Time) (fault : Fault) (env : ℕ → Choice) (s : State)
    (op : Operation) : Decidable (op.Tears ext interval fault env s) := by
  unfold Tears; infer_instance

end Operation

def State.SameTables (s s' : State) : Prop := s'.resources = s.resources ∧ s'.events = s.events

instance (s s' : State) : Decidable (s.SameTables s') := by
  unfold State.SameTables; infer_instance

section Faults

variable {t : ℕ} {ch : Choice} {s s' : State} {fault : Fault}

theorem hits_of_fault {c : Call} {st : Statement} {err : DbErr} (hf : ch.fault = failing fault)
    (hc : c.statement = some st) (h : ch.fault c = some err) : fault.hits st := by
  rw [hf,failing] at h
  obtain ⟨f,rfl,hif⟩ := Option.bind_eq_some_iff.mp h
  split at hif
  · next hst => exact (hc ▸ hst).symm
  · cases hif

theorem exec_failing {c : Call} {st : Statement} {r : c.Resp} (hf : ch.fault = failing fault)
    (hc : c.statement = some st) (h : exec t ch c s = some (r,s')) :
    (fault.hits st ∧ (∃ err, c.failure err = some r) ∧ s' = s) ∨
      (¬ fault.hits st ∧ commit t ch c s = some (r,s')) := by
  rcases exec_cases h with ⟨err,he,hr,rfl⟩ | ⟨hn,hx⟩
  · exact Or.inl ⟨hits_of_fault hf hc he,⟨err,hr⟩,rfl⟩
  · refine Or.inr ⟨fun hst => ?_,hx⟩
    obtain ⟨⟨st',err⟩,rfl,rfl⟩ := Option.map_eq_some_iff.mp hst
    rw [hf] at hn
    simp only [failing,Option.bind_some,hc,if_pos] at hn
    cases c <;> simp_all [Call.statement,Call.failure]

theorem Fault.hits_inj {st st' : Statement} (h : fault.hits st) (h' : fault.hits st') : st = st' :=
  Option.some.inj (h.symm.trans h')

end Faults

section Announcement

variable {t : ℕ} {env : ℕ → Choice} {s s' : State} {fault : Fault} {α : Type} {e : Event}
  {handle : String → String → ServiceError} {result : α} {a : Except ServiceError α}

/-- An announcement is refused by the insert, refused by the notification after the
insert, or made. -/
theorem announce_outcome
    (h : Prog.eval (exec t) env (ResourceService.announce e handle result) s = some (a,s'))
    (hf : ∀ n, (env n).fault = failing fault) :
    s'.resources = s.resources ∧
      if fault.hits .insertEvent then errorOf a ≠ none ∧ s'.events = s.events
      else s'.events ≠ s.events ∧ (errorOf a ≠ none ↔ fault.hits .notify) := by
  obtain ⟨r₁,s₁,m₁,hc,hr⟩ := Prog.eval_bind h
  obtain ⟨r₂,s₂,m₂,hd,hr₂⟩ := Prog.eval_bind hc
  obtain ⟨r₃,s₃,m₃,hi,hr₃⟩ := Prog.eval_bind hd
  rcases exec_failing (hf 0) rfl (Prog.eval_lift.mp (eval_flagging hi)) with
    ⟨hst,⟨err,he⟩,rfl⟩ | ⟨hst,hx⟩
  · cases he
    obtain ⟨rfl,rfl⟩ := Prog.eval_ret.mp hr₃
    obtain ⟨rfl,rfl⟩ := Prog.eval_ret.mp hr₂
    obtain ⟨rfl,rfl⟩ := Prog.eval_ret.mp hr
    simp [hst,errorOf]
  · obtain ⟨hfree,rfl,rfl⟩ := commit_createEvent hx
    obtain ⟨r₄,s₄,hx',hr₄⟩ := Prog.eval_lift_bind.mp hr₃
    have hne : ∀ e', s.events.rows ++ [e'] ≠ s.events.rows := by simp
    rw [if_neg hst]
    rcases exec_failing (hf _) rfl hx' with ⟨hst',⟨err,he⟩,rfl⟩ | ⟨hst',hx'⟩
    · cases he
      obtain ⟨rfl,rfl⟩ := Prog.eval_ret.mp hr₄
      obtain ⟨rfl,rfl⟩ := Prog.eval_ret.mp hr₂
      obtain ⟨rfl,rfl⟩ := Prog.eval_ret.mp hr
      exact ⟨rfl,fun h => hne _ (congrArg Table.rows h),by simp [errorOf,hst']⟩
    · cases hx'
      obtain ⟨rfl,rfl⟩ := Prog.eval_ret.mp hr₄
      obtain ⟨rfl,rfl⟩ := Prog.eval_ret.mp hr₂
      obtain ⟨rfl,rfl⟩ := Prog.eval_ret.mp hr
      exact ⟨rfl,fun h => hne _ (congrArg Table.rows h),by simp [errorOf,hst']⟩

/-- After a write of the row, both failures of the announcement tear it. -/
theorem announce_after_write (s₀ : State)
    (h : Prog.eval (exec t) env (ResourceService.announce e handle result) s = some (a,s'))
    (hf : ∀ n, (env n).fault = failing fault) (hw : s.resources ≠ s₀.resources) :
    (errorOf a ≠ none → s₀.SameTables s') ↔ ¬ (fault.hits .insertEvent ∨ fault.hits .notify) := by
  obtain ⟨hs,he⟩ := announce_outcome h hf
  have hn : ¬ s₀.SameTables s' := fun hsame => hw (hs ▸ hsame.1)
  split at he
  · next hst => simp [he.1,hn,hst]
  · next hst => simp [he.2,hn,hst]

/-- Without one, only the failed notification does. -/
theorem announce_alone (s₀ : State)
    (h : Prog.eval (exec t) env (ResourceService.announce e handle result) s = some (a,s'))
    (hf : ∀ n, (env n).fault = failing fault) (hw : s₀.SameTables s) :
    (errorOf a ≠ none → s₀.SameTables s') ↔ ¬ fault.hits .notify := by
  obtain ⟨hs,he⟩ := announce_outcome h hf
  obtain ⟨hr,hev⟩ := hw
  split at he
  · next hst =>
    have hn : ¬ fault.hits .notify := fun h => by cases Fault.hits_inj hst h
    simp [State.SameTables,hs,he,hr,hev,hn]
  · next hst => simp [State.SameTables,he.2,hev ▸ he.1]

end Announcement

section Operations

variable {t : ℕ} {env : ℕ → Choice} {s s' : State} {fault : Fault} {ext : External}
  {interval : Time}

theorem not_tears_of_hits {op : Operation} {st : Statement} (h : fault.hits st)
    (hi : st ≠ .insertEvent) (hn : st ≠ .notify) : ¬ op.Tears ext interval fault env s := by
  rintro (⟨h',-⟩ | ⟨h',-⟩)
  · exact hi (Fault.hits_inj h h')
  · exact hn (Fault.hits_inj h h')

theorem create_sameTables_iff {resource : Resource} {a : Except ServiceError Resource}
    (hf : ∀ n, (env n).fault = failing fault)
    (h : Prog.eval (exec t) env (ResourceService.create ext resource) s = some (a,s')) :
    (errorOf a ≠ none → s.SameTables s') ↔
      ¬ (Operation.create resource).Tears ext interval fault env s := by
  rw [ResourceService.create] at h
  cases hv : ResourceService.validateCreate ext resource with
  | error e =>
    rw [hv] at h
    cases h
    simp [State.SameTables,Operation.Tears,Operation.writesRow,Operation.republishes,hv]
  | ok u =>
    rw [hv] at h
    obtain ⟨r,s₁,m,hi,hk⟩ := Prog.eval_bind h
    rcases exec_failing (hf 0) rfl (Prog.eval_lift.mp (eval_flagging hi)) with
      ⟨hst,⟨err,he⟩,rfl⟩ | ⟨-,hx⟩
    · cases he
      obtain ⟨rfl,rfl⟩ := Prog.eval_ret.mp hk
      simp [State.SameTables,not_tears_of_hits hst]
    · rcases commit_createResource hx with ⟨hc,rfl,rfl⟩ | ⟨hc,rfl,rfl⟩
      · rw [announce_after_write s hk (fun n => hf _) (s.insertResource_ne t _ _)]
        simp [Operation.Tears,Operation.writesRow,hv,hc]
      · obtain ⟨rfl,rfl⟩ := Prog.eval_ret.mp hk
        simp [State.SameTables,Operation.Tears,Operation.writesRow,Operation.republishes,hc]

theorem update_sameTables_iff {resource : Resource} {a : Except ServiceError Resource}
    (hf : ∀ n, (env n).fault = failing fault)
    (h : Prog.eval (exec t) env (ResourceService.update ext resource) s = some (a,s')) :
    (errorOf a ≠ none → s.SameTables s') ↔
      ¬ (Operation.update resource).Tears ext interval fault env s := by
  rcases eval_withAdvisoryLock h with ⟨err,hl,rfl,rfl⟩ | ⟨locks,s₁,locks',hb,rfl⟩
  · simp [State.SameTables,not_tears_of_hits (hits_of_fault (hf 0) rfl hl)]
  · obtain ⟨r,s₂,hx,hk⟩ := Prog.eval_lift_bind.mp hb
    rcases exec_failing (hf _) rfl hx with ⟨hst,⟨err,he⟩,rfl⟩ | ⟨-,hx⟩
    · cases he
      obtain ⟨rfl,rfl⟩ := Prog.eval_ret.mp hk
      simp [State.SameTables,not_tears_of_hits hst]
    · obtain ⟨rfl,⟨hrow,rfl⟩ | ⟨row,hrow,rfl⟩⟩ := commit_takeResource hx
      · obtain ⟨rfl,rfl⟩ := Prog.eval_ret.mp hk
        simp_all [State.SameTables,Operation.Tears,Operation.writesRow,Operation.republishes]
      · cases hc : ResourceService.checkUpdate ext resource row.scan with
        | some result =>
          simp only [hc] at hk
          obtain ⟨rfl,rfl⟩ := Prog.eval_ret.mp hk
          simp_all [State.SameTables,Operation.Tears,Operation.writesRow,Operation.republishes]
        | none =>
          simp only [hc] at hk
          obtain ⟨r₁,s₃,m,hw,hk⟩ := Prog.eval_bind hk
          obtain ⟨r₂,s₄,m',hw,hk₂⟩ := Prog.eval_bind hw
          have hx := Prog.eval_lift.mp (eval_flagging hw)
          rcases exec_failing (hf _) rfl hx with ⟨hst,⟨err,he⟩,rfl⟩ | ⟨-,hx⟩
          · cases he
            obtain ⟨rfl,rfl⟩ := Prog.eval_ret.mp hk₂
            obtain ⟨rfl,rfl⟩ := Prog.eval_ret.mp hk
            simp [State.SameTables,not_tears_of_hits hst]
          · have hid : row.id = resource.id := Table.find_some_key hrow
            rw [← hid] at hrow
            obtain ⟨rfl,⟨hn,-⟩ | ⟨-,-,rfl⟩⟩ := commit_updateResource hx
            · exact absurd (hrow.symm.trans hn) (by simp)
            · obtain ⟨rfl,rfl⟩ := Prog.eval_ret.mp hk₂
              have hv : row.version + 1 ≠ row.version := by simp
              have ht := announce_after_write s hk (fun n => hf (n+m+2))
                (State.writeSpec_ne (t := t) hrow hv _ _)
              rw [Operation.Tears]
              simpa [State.SameTables,Operation.writesRow,Operation.republishes,← hid,hrow,hc] using ht

theorem republish_sameTables_iff (s₀ : State) {id : String} {a : Except ServiceError Unit}
    (h : Prog.eval (exec t) env (ResourceService.republishDeleteEvent interval id) s = some (a,s'))
    (hf : ∀ n, (env n).fault = failing fault) (hs : s₀.SameTables s) :
    (errorOf a ≠ none → s₀.SameTables s') ↔ ¬ (fault.hits .notify ∧ 0 < interval ∧
      (latestDeleteEvent s.events.rows id).all fun e => ¬ (env 1).now - e.createdAt < interval) := by
  rw [ResourceService.republishDeleteEvent] at h
  split at h
  · next hi =>
    obtain ⟨rfl,rfl⟩ := Prog.eval_ret.mp h
    simp [errorOf,not_lt.mpr hi]
  · next hi =>
    simp only [EventService.findLatestDeleteEvent,EventDao.findLatestDeleteEvent,
      bind_assoc] at h
    obtain ⟨r,s₁,hx,hk⟩ := Prog.eval_lift_bind.mp h
    rcases exec_failing (hf _) rfl hx with ⟨hst,⟨err,he⟩,rfl⟩ | ⟨-,hx⟩
    · cases he
      have hn : ¬ fault.hits .notify := fun h => by cases Fault.hits_inj hst h
      cases err with
      | recordNotFound => simp [announce_alone s₀ hk (fun n => hf (n+1)) hs,hn]
      | other text =>
        obtain ⟨rfl,rfl⟩ := Prog.eval_ret.mp hk
        simp [errorOf,hn]
    · simp only [commit,Option.some.injEq,Prod.mk.injEq] at hx
      obtain ⟨rfl,rfl⟩ := hx
      cases hl : latestDeleteEvent s.events.rows id with
      | none =>
        simp only [hl] at hk
        simp [announce_alone s₀ hk (fun n => hf (n+1)) hs,not_le.mp hi]
      | some e =>
        simp only [hl,ResourceService.recentlyPublished,timeNow] at hk
        obtain ⟨now,s₂,hn,hk⟩ := Prog.eval_lift_bind.mp hk
        rw [exec_now] at hn
        cases hn
        simp only [decide_eq_true_eq] at hk
        split at hk
        · next hr =>
          obtain ⟨rfl,rfl⟩ := Prog.eval_ret.mp hk
          simp [errorOf,not_le.mpr hr]
        · next hr =>
          simp [announce_alone s₀ hk (fun n => hf (n+2)) hs,not_le.mp hi,not_lt.mp hr]

theorem markAsDeleting_sameTables_iff {id : String} {a : Except ServiceError Unit}
    (hf : ∀ n, (env n).fault = failing fault)
    (h : Prog.eval (exec t) env (ResourceService.markAsDeleting interval id) s = some (a,s')) :
    (errorOf a ≠ none → s.SameTables s') ↔
      ¬ (Operation.markAsDeleting id).Tears ext interval fault env s := by
  rcases eval_withAdvisoryLock h with ⟨err,hl,rfl,rfl⟩ | ⟨locks,s₁,locks',hb,rfl⟩
  · simp [State.SameTables,not_tears_of_hits (hits_of_fault (hf 0) rfl hl)]
  · obtain ⟨r,s₂,hx,hk⟩ := Prog.eval_lift_bind.mp hb
    rcases exec_failing (hf _) rfl hx with ⟨hst,⟨err,he⟩,rfl⟩ | ⟨-,hx⟩
    · cases he
      have hk : s₁ = { s with locks := locks } := by
        dsimp only at hk
        split at hk <;> exact (Prog.eval_ret.mp hk).2
      subst hk
      simp [State.SameTables,not_tears_of_hits hst]
    · obtain ⟨rfl,⟨hrow,rfl⟩ | ⟨row,hrow,rfl⟩⟩ := commit_takeResource hx
      · obtain ⟨rfl,rfl⟩ := Prog.eval_ret.mp hk
        simp_all [errorOf,Operation.Tears,Operation.writesRow,Operation.republishes]
      · cases hd : row.deletedAt with
        | some time =>
          have hs : s.SameTables
            ({ s with locks := locks }.record t [.readResource id (s.resources.find id)]) := ⟨rfl,rfl⟩
          simp only [ResourceRow.scan,hd,Option.isSome_some,if_true] at hk
          have ht := republish_sameTables_iff s hk (fun n => hf (n+2)) hs
          simp_all [State.SameTables,Operation.Tears,Operation.writesRow,Operation.republishes]
        | none =>
          simp only [ResourceRow.scan,hd,Option.isSome_none,Bool.false_eq_true,if_false] at hk
          obtain ⟨r,s₃,m,hw,hk⟩ := Prog.eval_bind hk
          have hx := Prog.eval_lift.mp (eval_flagging hw)
          rcases exec_failing (hf _) rfl hx with ⟨hst,⟨err,he⟩,rfl⟩ | ⟨-,hx⟩
          · cases he
            obtain ⟨rfl,rfl⟩ := Prog.eval_ret.mp hk
            simp [State.SameTables,not_tears_of_hits hst]
          · rcases commit_softDelete hx with ⟨rfl,rfl,rfl⟩ | ⟨hid,rfl,⟨-,-,-,rfl⟩ | ⟨hl,-⟩⟩
            · obtain ⟨rfl,rfl⟩ := Prog.eval_ret.mp hk
              simp_all [State.SameTables,Operation.Tears,Operation.writesRow,Operation.republishes]
            · have ht := announce_after_write s hk (fun n => hf (n+m+2))
                (State.softDelete_ne (t := t) hrow hd _)
              rw [Operation.Tears]
              simpa [State.SameTables,Operation.writesRow,Operation.republishes,hrow,hd,hid]
                using ht
            · exact absurd hd (hl row hrow)

end Operations

/-- A bundle, and a database that refuses one statement. -/
def web : Resource :=
  { id := "web", version := 0, source := "src", consumerName := "cluster",
    payload := Reference.bundle "src" "web" }

def refusing (st : Statement) : ℕ → Choice :=
  Choice.counting (failing (some (st,.other "connection refused")))

end Maestro
