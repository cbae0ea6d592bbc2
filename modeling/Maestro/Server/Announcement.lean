import Maestro.Api.Reference
import Maestro.Server.Requests
import Maestro.Services.Evaluation

namespace Maestro
open Concurrent Data

/-- A status message, and what the environment decides while it is handled. -/
structure Delivery where
  resource : Resource
  env : ℕ → Choice

/-- Status messages handled one after the other. -/
abbrev Delivers (ext : External) (ok : State → Delivery → Prop) (s₀ : State) :
    List Delivery → State → Prop :=
  Serial exec (fun d : Delivery => handleStatusUpdate ext d.resource) Delivery.env ok s₀

/-- The act stores a status of the resource. -/
def Act.storesStatus (id : String) : Act → Prop
  | .wroteStatus id' _ => id' = id
  | _ => False

/-- The status was the last one stored for the resource, and a status event for it was
inserted and notified after that. -/
def Announced (journal : List Entry) (id : String) (status : JSONMap) : Prop :=
  ∃ pre u mid v event rest w, journal = pre ++ ⟨u,.wroteStatus id status⟩ :: mid ++
      ⟨v,.insertedStatusEvent event⟩ :: rest ∧
    ⟨w,.notified "status_events" event.id⟩ ∈ rest ∧
    event.resourceID = id ∧ event.statusEventType = .statusUpdate ∧
    ∀ e ∈ mid ++ rest, ¬ e.act.storesStatus id

/-- The status that a message reports, with the work metadata of the resource it finds;
`none` for a message that reports the resource as deleted. -/
def reportedStatus (ext : External) (s : State) (resource : Resource) : Option JSONMap :=
  match s.resources.find resource.id with
  | none => none
  | some row =>
    match fillStatus ext resource (syncTimestampsFromResourceMeta ext row.scan) with
    | .ok (status,false) => some status
    | _ => none

/-- The status that a message leads to storing, if no statement fails. -/
def acceptedStatus (ext : External) (s : State) (resource : Resource) : Option JSONMap :=
  match s.resources.find resource.id with
  | none => none
  | some row =>
    let found := syncTimestampsFromResourceMeta ext row.scan
    if found.consumerName ≠ resource.consumerName then
      none
    else
      match fillStatus ext resource found with
      | .ok (status,false) =>
        match ResourceService.acceptsStatus ext
            { resource with source := found.source, status := status } row.scan with
        | .ok true => some status
        | _ => none
      | _ => none

def statusUpdated (id : String) : StatusEvent :=
  { resourceID := id, statusEventType := .statusUpdate }

/-- The calls of a message that is stored are a read, the lock, a read, the write, the
unlock, the insert of the status event and its notification. When the write goes
through, the last two do not fail. -/
def announces (ext : External) (s : State) (d : Delivery) : Bool :=
  let id := d.resource.id
  (acceptedStatus ext s d.resource).all fun status =>
    ((d.env 0).fault (.takeResource id)).isSome ||
    ((d.env 1).fault (.newAdvisoryLock id .resourceStatus)).isSome ||
    ((d.env 2).fault (.takeResource id)).isSome ||
    ((d.env 3).fault (.updateResourceStatus id status)).isSome ||
    ((d.env 5).fault (.createStatusEvent (statusUpdated id))).isNone &&
      ((d.env 6).fault (.notify "status_events" (d.env 5).uuid)).isNone

theorem Announced.append {journal : List Entry} {id : String} {status : JSONMap}
    (h : Announced journal id status) {more : List Entry}
    (hm : ∀ e ∈ more, ¬ e.act.storesStatus id) : Announced (journal ++ more) id status := by
  obtain ⟨pre,u,mid,v,event,rest,w,rfl,hw,hid,ht,hs⟩ := h
  refine ⟨pre,u,mid,v,event,rest ++ more,w,by simp,by simp [hw],hid,ht,fun e he => ?_⟩
  rw [← List.append_assoc,List.mem_append] at he
  rcases he with he | he
  exacts [hs e he,hm e he]

/-- Every stored status is announced. -/
def State.AllAnnounced (s : State) : Prop :=
  ∀ id row, s.resources.find id = some row → row.status ≠ none →
    Announced s.journal id row.status

/-- Calls that store no status. -/
def Call.keepsStatus : Call → Prop
  | .createResource _ | .updateResourceStatus _ _ => False
  | _ => True

theorem Call.keepsStatus_of_neutral (c : Call) (h : c.neutral) : c.keepsStatus := by
  cases c <;> trivial

variable {ext : External} {s s' : State} {t : ℕ}

/-- Journal entries that store no status, and no new row or status. -/
theorem State.AllAnnounced.keep (h : s.AllAnnounced) (acts : List Act)
    (hj : s'.journal = s.journal ++ acts.map (Entry.mk t))
    (hq : ∀ a ∈ acts, ∀ id, ¬ a.storesStatus id)
    (hr : ∀ id row', s'.resources.find id = some row' →
      ∃ row, s.resources.find id = some row ∧ row'.status = row.status) : s'.AllAnnounced := by
  intro id row' hrow' hne
  obtain ⟨row,hrow,hst⟩ := hr id row' hrow'
  rw [hst] at hne ⊢
  rw [hj]
  refine (h id row hrow hne).append fun e he => ?_
  obtain ⟨a,ha,rfl⟩ := List.mem_map.mp he
  exact hq a ha id

theorem Act.not_storesStatus_of_quiet {a : Act} (h : a.quiet) (id : String) :
    ¬ a.storesStatus id := by
  cases a <;> simp_all [Act.quiet,Act.storesStatus]

theorem exec_allAnnounced {ch : Choice} {c : Call} {r : c.Resp}
    (hx : exec t ch c s = some (r,s')) (hc : c.keepsStatus) (h : s.AllAnnounced) : s'.AllAnnounced := by
  cases exec_rowEffect hx with
  | quiet acts hr hj hq =>
    exact h.keep acts hj (fun a ha => Act.not_storesStatus_of_quiet (hq a ha).quiet)
      fun id row' hrow' => ⟨row',hr ▸ hrow',rfl⟩
  | spec version payload now hrow =>
    refine h.keep [_] rfl (by simp [Act.storesStatus]) fun id row' hrow' => ?_
    rw [State.find_writeSpec] at hrow'
    split at hrow'
    · obtain ⟨row,hrow,rfl⟩ := Option.map_eq_some_iff.mp hrow'
      exact ⟨row,hrow,rfl⟩
    · exact ⟨row',hrow',rfl⟩
  | soft now hrow hd =>
    refine h.keep [_] rfl (by simp [Act.storesStatus]) fun id row' hrow' => ?_
    rw [State.find_softDelete] at hrow'
    split at hrow'
    · obtain ⟨row,hrow,rfl⟩ := Option.map_eq_some_iff.mp hrow'
      exact ⟨row,hrow,rfl⟩
    · exact ⟨row',hrow',rfl⟩
  | hard hrow =>
    refine h.keep [_] rfl (by simp [Act.storesStatus]) fun id row' hrow' => ?_
    rw [State.find_hardDelete] at hrow'
    split at hrow'
    · cases hrow'
    · exact ⟨row',hrow',rfl⟩
  | insert | status => cases hc

theorem eval_allAnnounced {α : Type} {Q : α → Prop} {p : M α} {env : ℕ → Choice} {a : α}
    (hp : p.Calls Answers Call.keepsStatus Q) (hx : Prog.eval (exec t) env p s = some (a,s'))
    (h : s.AllAnnounced) : s'.AllAnnounced :=
  eval_invariant (fun _ _ _ _ _ hc hx => exec_allAnnounced hx hc) hp h hx

section Evaluation

variable {α β : Type} {env : ℕ → Choice}

/-- The lock is released by one call when the body is done. -/
theorem eval_unlocking {u : String} (hu : u ≠ "") {a : α} {k : α → M β} {b : β}
    (h : Prog.eval (exec t) env (Prog.deferring (unlock u) (Prog.ret a) >>= k) s = some (b,s')) :
    ∃ locks, Prog.eval (exec t) (fun n => env (n+1)) (k a) { s with locks := locks } =
      some (b,s') := by
  rw [Prog.deferring_ret,unlock,if_neg hu] at h
  obtain ⟨_,s₁,hx,hk⟩ := Prog.eval_call.mp h
  rw [exec_unlock] at hx
  cases hx
  exact ⟨_,hk⟩

/-- The insert of the status event is refused, its notification is, or both are done. -/
theorem eval_statusEvent {event : StatusEvent} {r : Except ServiceError StatusEvent}
    (h : Prog.eval (exec t) env (StatusEventService.create event) s = some (r,s')) :
    s'.resources = s.resources ∧
      (((env 0).fault (.createStatusEvent event)).isSome ∧ s'.journal = s.journal ∨
      let e := event.beforeCreate (env 0).now (env 0).uuid
      ((env 1).fault (.notify "status_events" e.id)).isSome ∧
        s'.journal = s.journal ++ [⟨t,.insertedStatusEvent e⟩] ∨
      s'.journal = s.journal ++
        [⟨t,.insertedStatusEvent e⟩,⟨t,.notified "status_events" e.id⟩]) := by
  obtain ⟨x,s₁,hx,hk⟩ := Prog.eval_call.mp h
  rcases exec_cases hx with ⟨err,hf,he,rfl⟩ | ⟨-,hc⟩
  · cases he
    obtain ⟨_,s₂,hm,hk⟩ := Prog.eval_call.mp hk
    rw [exec_markForRollback] at hm
    cases hm
    obtain ⟨-,rfl⟩ := Prog.eval_ret.mp hk
    exact ⟨rfl,Or.inl ⟨Option.isSome_iff_exists.mpr ⟨err,hf⟩,rfl⟩⟩
  · obtain ⟨hfree,rfl,rfl⟩ := commit_createStatusEvent hc
    obtain ⟨y,s₂,hy,hk⟩ := Prog.eval_call.mp hk
    rcases exec_cases hy with ⟨err,hf,he,rfl⟩ | ⟨-,hc⟩
    · cases he
      obtain ⟨-,rfl⟩ := Prog.eval_ret.mp hk
      exact ⟨rfl,Or.inr (Or.inl ⟨Option.isSome_iff_exists.mpr ⟨err,hf⟩,rfl⟩)⟩
    · cases hc
      obtain ⟨-,rfl⟩ := Prog.eval_ret.mp hk
      exact ⟨rfl,Or.inr (Or.inr (by simp))⟩

/-- After its status was stored and announced, a resource is announced like the others. -/
theorem State.AllAnnounced.store (h : s.AllAnnounced) (now : Time) {id : String}
    {status : JSONMap} {event : StatusEvent} {reads : List Entry} {w : ℕ}
    (hj : s'.journal = s.journal ++ reads ++ ⟨t,.wroteStatus id status⟩ ::
      [⟨t,.insertedStatusEvent event⟩,⟨w,.notified "status_events" event.id⟩])
    (hreads : ∀ e ∈ reads, e.act.quiet)
    (hid : event.resourceID = id) (ht : event.statusEventType = .statusUpdate)
    (hr : ∀ k, s'.resources.find k = if k = id then (s.resources.find k).map (.setStatus status now)
      else s.resources.find k) : s'.AllAnnounced := by
  intro k row' hrow' hne
  rw [hr] at hrow'
  rw [hj]
  split at hrow'
  · next hk =>
    subst hk
    obtain ⟨row,hrow,rfl⟩ := Option.map_eq_some_iff.mp hrow'
    exact ⟨s.journal ++ reads,t,[],t,event,[⟨w,.notified "status_events" event.id⟩],w,by simp
      [ResourceRow.setStatus],by simp,hid,ht,by simp [Act.storesStatus]⟩
  · next hk =>
    rw [List.append_assoc]
    refine (h k row' hrow' hne).append fun e he => ?_
    simp only [List.mem_append,List.mem_cons,List.not_mem_nil,or_false] at he
    rcases he with he | rfl | rfl | rfl
    · exact Act.not_storesStatus_of_quiet (hreads e he) k
    · exact Ne.symm hk
    · simp [Act.storesStatus]
    · simp [Act.storesStatus]

/-- A message that is stored is announced, unless a statement after the write fails. -/
theorem handleUpdated_allAnnounced {resource : Resource} {a : Except String Unit}
    (hI : s.AllAnnounced)
    (hok : ∀ row, s.resources.find resource.id = some row →
      ResourceService.acceptsStatus ext resource row.scan = .ok true →
      ((env 0).fault (.newAdvisoryLock resource.id .resourceStatus)).isSome ∨
      ((env 1).fault (.takeResource resource.id)).isSome ∨
      ((env 2).fault (.updateResourceStatus resource.id resource.status)).isSome ∨
      (env 4).fault (.createStatusEvent (statusUpdated resource.id)) = none ∧
        (env 5).fault (.notify "status_events" (env 4).uuid) = none)
    (h : Prog.eval (exec t) env (handleUpdated ext resource) s = some (a,s')) :
    s'.AllAnnounced := by
  obtain ⟨r,s₁,hx,hk⟩ := Prog.eval_call.mp h
  rcases exec_cases hx with ⟨err,-,he,rfl⟩ | ⟨hf₀,hc⟩
  · cases he
    cases hk
    exact hI
  simp only [commit,Option.map_eq_some_iff] at hc
  obtain ⟨locks,-,hl⟩ := hc
  cases hl
  have hu := (env 0).uuid_ne
  obtain ⟨r,s₂,hx,hk⟩ := Prog.eval_call.mp hk
  rcases exec_cases hx with ⟨err,-,he,rfl⟩ | ⟨hf₁,hc⟩
  · cases he
    obtain ⟨locks',hk⟩ := eval_unlocking hu hk
    cases hk
    exact hI
  have hI₁ := exec_allAnnounced hx trivial hI
  obtain ⟨rfl,⟨-,rfl⟩ | ⟨row,hrow,rfl⟩⟩ := commit_takeResource hc
  · obtain ⟨locks',hk⟩ := eval_unlocking hu hk
    cases hk
    exact hI₁
  have hid : row.id = resource.id := Table.find_some_key hrow
  simp only [Prog.bind] at hk
  cases hacc : ResourceService.acceptsStatus ext resource row.scan with
  | error err =>
    rw [hacc] at hk
    obtain ⟨locks',hk⟩ := eval_unlocking hu hk
    cases hk
    exact hI₁
  | ok accepted =>
    rw [hacc] at hk
    cases accepted with
    | false =>
      obtain ⟨locks',hk⟩ := eval_unlocking hu hk
      cases hk
      exact hI₁
    | true =>
      obtain ⟨r,s₃,hx₂,hk⟩ := Prog.eval_call.mp hk
      rcases exec_cases hx₂ with ⟨err,-,he,rfl⟩ | ⟨hf₂,hc⟩
      · cases he
        obtain ⟨_,s₄,hm,hk⟩ := Prog.eval_call.mp hk
        rw [exec_markForRollback] at hm
        cases hm
        obtain ⟨locks',hk⟩ := eval_unlocking hu hk
        cases hk
        exact hI₁
      · obtain ⟨rfl,⟨hnone,-⟩ | ⟨row',hrow',rfl⟩⟩ := commit_updateResourceStatus hc
        · exact absurd ((show s.resources.find row.id = none from hnone).symm.trans
            (hid ▸ hrow)) (by simp)
        obtain ⟨locks',hk⟩ := eval_unlocking hu hk
        obtain ⟨x,s₅,m,he,hk⟩ := Prog.eval_bind hk
        obtain ⟨hres,hjournal⟩ := eval_statusEvent he
        have hs' : s' = s₅ := by cases x <;> exact (Prog.eval_ret.mp hk).2
        subst hs'
        have hwrite : Call.updateResourceStatus row.scan.id resource.status =
            .updateResourceStatus resource.id resource.status := congrArg (fun id =>
          Call.updateResourceStatus id resource.status) hid
        obtain ⟨he₄,he₅⟩ := ((hok row hrow hacc).resolve_left (by
            simp [no_fault hf₀ (by simp [Call.failure])])).resolve_left (by
            simp [no_fault hf₁ (by simp [Call.failure])]) |>.resolve_left (by
            rw [← hwrite]
            simp [no_fault hf₂ (by simp [Call.failure])])
        rcases hjournal with ⟨hf,-⟩ | ⟨hf,-⟩ | hj
        · exact absurd (hf.symm.trans (congrArg Option.isSome he₄)) (by simp)
        · exact absurd (hf.symm.trans (congrArg Option.isSome he₅)) (by simp)
        · have hj' : s'.journal = s.journal ++ [⟨t,.readResource resource.id
              (s.resources.find resource.id)⟩] ++ ⟨t,.wroteStatus row.id resource.status⟩ ::
              [⟨t,.insertedStatusEvent ((statusUpdated resource.id).beforeCreate (env 4).now
                (env 4).uuid)⟩,⟨t,.notified "status_events" (env 4).uuid⟩] := by
            rw [hj]
            simp [State.writeStatus,ResourceRow.scan,statusUpdated,StatusEvent.beforeCreate]
          refine hI.store (env 2).now hj' (by simp [Act.quiet]) hid.symm rfl fun k => ?_
          rw [hres]
          exact State.find_writeStatus t k _ _ _

end Evaluation

/-- A status that is stored is never a nil map. -/
theorem fillStatus_ne_none {resource found : Resource} {status : JSONMap} {deleted : Bool}
    (h : fillStatus ext resource found = .ok (status,deleted)) : status ≠ none := by
  rintro rfl
  obtain ⟨_,_,_,_,_,hstatus,_⟩ := fillStatus_ok h
  exact cloudEventToJSONMap_ne_none hstatus

theorem reportedStatus_ne_none {resource : Resource} {status : JSONMap}
    (h : reportedStatus ext s resource = some status) : status ≠ none := by
  unfold reportedStatus at h
  repeat' split at h
  all_goals first
    | (cases h; done)
    | (cases h; exact fillStatus_ne_none (by assumption))

theorem deliver_allAnnounced {d : Delivery} {a : Except String Unit} (hI : s.AllAnnounced)
    (hok : announces ext s d)
    (h : Prog.eval (exec t) d.env (handleStatusUpdate ext d.resource) s = some (a,s')) :
    s'.AllAnnounced := by
  obtain ⟨r,s₁,hx,hk⟩ := Prog.eval_call.mp h
  have hI₁ := exec_allAnnounced hx trivial hI
  have hfail : ∀ err : DbErr, r = .error err → s' = s₁ := by
    rintro err rfl
    simp only [Prog.bind,Prog.pure_eq] at hk
    split at hk <;> (cases hk; rfl)
  rcases exec_cases hx with ⟨err,-,he,rfl⟩ | ⟨hf₀,hc⟩
  · cases he
    exact hfail err rfl ▸ hI
  obtain ⟨rfl,⟨-,rfl⟩ | ⟨row,hrow,rfl⟩⟩ := commit_takeResource hc
  · exact hfail _ rfl ▸ hI₁
  simp only [Prog.bind,Prog.pure_eq] at hk
  split at hk
  · cases hk
    exact hI₁
  next hcons =>
  cases hfill : fillStatus ext d.resource (syncTimestampsFromResourceMeta ext row.scan) with
  | error err =>
    rw [hfill] at hk
    cases hk
    exact hI₁
  | ok p =>
    obtain ⟨status,deleted⟩ := p
    rw [hfill] at hk
    cases deleted with
    | true =>
      exact eval_allAnnounced (handleDeleted_calls Call.keepsStatus_of_neutral _ _ trivial
        trivial) hk hI₁
    | false =>
      refine handleUpdated_allAnnounced hI₁ (fun row' hrow' hacc => ?_) hk
      cases hrow.symm.trans hrow'
      have hst : acceptedStatus ext s d.resource = some status := by
        simp only [acceptedStatus,hrow,if_neg hcons,hfill,hacc]
      simp only [announces,hst,Option.all_some,Bool.or_eq_true,Bool.and_eq_true,
        Option.isNone_iff_eq_none,no_fault hf₀ (by simp [Call.failure]),Option.isSome_none,
        Bool.false_eq_true,false_or,or_assoc] at hok
      exact hok

/-- In a run in which no stored status loses its announcement to a failing statement, a
message that is handled without error, and whose status is then the stored one, was
announced after that status was stored. -/
theorem stored_status_announced (ext : External) {s₀ s s' : State} {deliveries : List Delivery}
    {d : Delivery} (h₀ : s₀.AllAnnounced)
    (h : Delivers ext (fun s d => announces ext s d) s₀ deliveries s) (hd : announces ext s d)
    (hx : Prog.eval (exec deliveries.length) d.env (handleStatusUpdate ext d.resource) s =
      some (.ok (),s'))
    {row : ResourceRow} {status : JSONMap} (hstatus : reportedStatus ext s d.resource = some status)
    (hrow : s'.resources.find d.resource.id = some row) (hstored : row.status = status) :
    Announced s'.journal d.resource.id status := by
  have hs : s.AllAnnounced := by
    clear hd hx hstatus
    induction h with
    | nil => exact h₀
    | snoc _ hok hx ih => exact deliver_allAnnounced ih hok hx
  have hs' := deliver_allAnnounced hs hd hx _ row hrow
  rw [hstored] at hs'
  exact hs' (reportedStatus_ne_none hstatus)

/-- A message of the agent of `web`, and a refused call while it is handled. -/
def report (fault : Call → Option DbErr) (k : ℕ) : Delivery where
  resource :=
    { id := "web"
      consumerName := "cluster"
      version := 1
      status := Reference.statusWith "Applied" "7" }
  env n := Choice.counting fault (100 * k + n)

def lockRefused : Call → Option DbErr
  | .newAdvisoryLock _ _ => some (.other "connection refused")
  | _ => none

def eventRefused : Call → Option DbErr
  | .createStatusEvent _ => some (.other "connection refused")
  | _ => none

/-- The message is handled without error, and its status is then the stored one. -/
def storedNow (s : State) (d : Delivery) (t : ℕ) : Option (State × JSONMap) :=
  match Prog.eval (exec t) d.env (handleStatusUpdate Reference.packages d.resource) s,
      reportedStatus Reference.packages s d.resource with
  | some (.ok (),s'),some status =>
    if (s'.resources.find d.resource.id).map ResourceRow.status = some status then
      some (s',status)
    else
      none
  | _,_ => none

theorem storedNow_some {s s' : State} {d : Delivery} {t : ℕ} {status : JSONMap}
    (h : storedNow s d t = some (s',status)) :
    Prog.eval (exec t) d.env (handleStatusUpdate Reference.packages d.resource) s =
        some (.ok (),s') ∧
      reportedStatus Reference.packages s d.resource = some status ∧
      ∃ row, s'.resources.find d.resource.id = some row ∧ row.status = status := by
  unfold storedNow at h
  split at h
  · next hx hr =>
    split at h
    · next hst =>
      cases h
      exact ⟨hx,hr,Option.map_eq_some_iff.mp hst⟩
    · cases h
  · cases h

def deliverRun (ok : State → Delivery → Bool) (run : List Delivery) : Option State :=
  serialRun exec (fun d : Delivery => handleStatusUpdate Reference.packages d.resource)
    Delivery.env ok 0 run (.single Reference.webRow)

/-- A message whose first delivery finds the lock refused is announced when it is stored. -/
theorem announced_on_redelivery : ∃ s s' status,
    Delivers Reference.packages (fun s d => announces Reference.packages s d)
      (.single Reference.webRow) [report lockRefused 0] s ∧
    storedNow s (report (fun _ => none) 1) 1 = some (s',status) ∧
    Announced s'.journal "web" status := by
  have h : (deliverRun (announces Reference.packages) [report lockRefused 0]).any fun s =>
      announces Reference.packages s (report (fun _ => none) 1) &&
        (storedNow s (report (fun _ => none) 1) 1).isSome := by decide +kernel
  obtain ⟨s,hr,hs⟩ := (Option.any_eq_true _ _).mp h
  obtain ⟨hd,hnow⟩ := (Bool.and_eq_true _ _).mp hs
  obtain ⟨⟨s',status⟩,hst⟩ := Option.isSome_iff_exists.mp hnow
  obtain ⟨hx,hrep,row,hrow,hstored⟩ := storedNow_some hst
  have hrun := Serial.of_run .nil hr
  have h₀ : (State.single Reference.webRow).AllAnnounced := fun id row hrow hne => by
    have hm : row = Reference.webRow := by
      simpa [State.single,Table.insert,Table.empty] using Table.find_some_mem hrow
    exact absurd (by rw [hm]; rfl) hne
  exact ⟨s,s',status,hrun,hst,stored_status_announced Reference.packages h₀ hrun hd hx hrep hrow
    hstored⟩

/-- The status is stored, its status event is refused and the message comes again: it is
handled without error and nothing announces it. -/
theorem stored_status_left_unannounced : ∃ s s' status,
    Delivers Reference.packages (fun _ _ => true)
      (.single Reference.webRow) [report eventRefused 0] s ∧
    storedNow s (report (fun _ => none) 1) 1 = some (s',status) ∧
    ¬ Announced s'.journal "web" status := by
  have h : (deliverRun (fun _ _ => true) [report eventRefused 0]).any fun s =>
      (storedNow s (report (fun _ => none) 1) 1).any fun p => p.1.journal.all fun e =>
        match e.act with
        | .insertedStatusEvent _ => false
        | _ => true := by decide +kernel
  obtain ⟨s,hr,hs⟩ := (Option.any_eq_true _ _).mp h
  obtain ⟨⟨s',status⟩,hst,hall⟩ := (Option.any_eq_true _ _).mp hs
  refine ⟨s,s',status,Serial.of_run .nil hr,hst,?_⟩
  rintro ⟨pre,u,mid,v,event,rest,w,hj,-⟩
  have he := List.all_eq_true.mp hall ⟨v,.insertedStatusEvent event⟩ (by rw [hj]; simp)
  simp at he

end Maestro
