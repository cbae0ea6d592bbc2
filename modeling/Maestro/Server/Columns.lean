import Maestro.Api.Reference
import Maestro.Server.History

namespace Maestro
open Concurrent Data ResourceService

/-- The reply of an update that stored this spec. -/
def Reply.stored (version : Int32) (payload : JSONMap) : Reply → Prop
  | .resource (.ok x) => x.version = version ∧ x.payload = payload
  | .published (.ok ()) => True
  | _ => False

/-- Right after an entry of session `t` the row had this version and this payload. -/
def SpecAt (id : String) (row₀ : ResourceRow) (J : List Entry) (t : ℕ) (version : Int32)
    (payload : JSONMap) : Prop :=
  ∃ pre a post, J = pre ++ ⟨t,a⟩ :: post ∧
    (row₀.after id (pre ++ [⟨t,a⟩])).version = version ∧
    (row₀.after id (pre ++ [⟨t,a⟩])).payload.scan = payload.scan

section Entries

variable {id : String} {e : Entry}

theorem Entry.status?_eq_some {t : ℕ} {status : JSONMap} (h : e.status? id = some (t,status)) :
    e = ⟨t,.wroteStatus id status⟩ := by
  obtain ⟨u,a⟩ := e
  cases a with
  | wroteStatus id' status' =>
    by_cases hid : id' = id
    · simp [Entry.status?,hid] at h
      obtain ⟨rfl,rfl⟩ := h
      rw [hid]
    · simp [Entry.status?,hid] at h
  | _ => simp [Entry.status?] at h

theorem Entry.mark?_eq_some {t : ℕ} {time : Time} (h : e.mark? id = some (t,time)) :
    e = ⟨t,.softDeleted id time⟩ := by
  obtain ⟨u,a⟩ := e
  cases a with
  | softDeleted id' time' =>
    by_cases hid : id' = id
    · simp [Entry.mark?,hid] at h
      obtain ⟨rfl,rfl⟩ := h
      rw [hid]
    · simp [Entry.mark?,hid] at h
  | _ => simp [Entry.mark?] at h

theorem mem_specWrites {J : List Entry} {t : ℕ} {version : Int32} {payload : JSONMap} :
    (t,version,payload) ∈ specWrites id J ↔ (⟨t,.wroteSpec id version payload⟩ : Entry) ∈ J := by
  rw [specWrites,List.mem_filterMap]
  constructor
  · rintro ⟨e,hm,he⟩
    rwa [Entry.spec?_eq_some he] at hm
  · exact fun hm => ⟨_,hm,by simp [Entry.spec?]⟩

theorem mem_statusWrites {J : List Entry} {t : ℕ} {status : JSONMap} :
    (t,status) ∈ statusWrites id J ↔ (⟨t,.wroteStatus id status⟩ : Entry) ∈ J := by
  rw [statusWrites,List.mem_filterMap]
  constructor
  · rintro ⟨e,hm,he⟩
    rwa [Entry.status?_eq_some he] at hm
  · exact fun hm => ⟨_,hm,by simp [Entry.status?]⟩

theorem mem_markWrites {J : List Entry} {t : ℕ} {time : Time} :
    (t,time) ∈ markWrites id J ↔ (⟨t,.softDeleted id time⟩ : Entry) ∈ J := by
  rw [markWrites,List.mem_filterMap]
  constructor
  · rintro ⟨e,hm,he⟩
    rwa [Entry.mark?_eq_some he] at hm
  · exact fun hm => ⟨_,hm,by simp [Entry.mark?]⟩

/-- A mark stays. -/
theorem ResourceRow.marked_after (row₀ : ResourceRow) {pre post : List Entry}
    (h : (row₀.after id pre).deletedAt ≠ none) : (row₀.after id (pre ++ post)).deletedAt ≠ none := by
  simp only [ResourceRow.after,markWrites,List.filterMap_append] at h ⊢
  cases hd : row₀.deletedAt with
  | some time => simp
  | none =>
    cases hm : pre.filterMap (Entry.mark? id) with
    | nil => simp [hd,hm] at h
    | cons w ws => simp

theorem ResourceRow.marked_of_mem (row₀ : ResourceRow) {J : List Entry} {t : ℕ} {time : Time}
    (h : (⟨t,.softDeleted id time⟩ : Entry) ∈ J) : (row₀.after id J).deletedAt ≠ none := by
  simp only [ResourceRow.after]
  cases hm : markWrites id J with
  | nil => rw [← mem_markWrites,hm] at h; cases h
  | cons w ws => cases row₀.deletedAt <;> simp

end Entries

section Runs

variable {ext : External} {n : ℕ} {ops : Fin n → Op} {id : String} {row₀ : ResourceRow}
    {J : List Entry} {t : ℕ} {acts : List Act} {gone : Prop}

theorem History.specAt_write (h : History ext ops id row₀ J) {version : Int32} {payload : JSONMap}
    (hm : (⟨t,.wroteSpec id version payload⟩ : Entry) ∈ J) :
    SpecAt id row₀ J t version payload := by
  obtain ⟨pre,post,rfl⟩ := List.append_of_mem hm
  refine ⟨pre,_,post,rfl,?_⟩
  rw [ResourceRow.after_snoc]
  simp [ResourceRow.apply]

theorem History.specAt_read (h : History ext ops id row₀ J) {row : ResourceRow}
    (hm : (⟨t,.readResource id (some row)⟩ : Entry) ∈ J) :
    SpecAt id row₀ J t row.scan.version row.scan.payload := by
  obtain ⟨pre,post,rfl⟩ := List.append_of_mem hm
  obtain ⟨_,hrow,hcols⟩ := h.fits_at rfl rfl
  cases hrow
  refine ⟨pre,_,post,rfl,?_⟩
  rw [ResourceRow.after_snoc,← hcols]
  exact ⟨rfl,row.payload.scan_scan.symm⟩

/-- A successful update returns the payload that it carries, with the version that this payload
had when the update was there. -/
theorem UpdateRun.specAt {res x : Resource} (h : UpdateRun ext res gone acts (.ok x))
    (hg : ¬ gone) (hist : History ext ops res.id row₀ J)
    (hm : ∀ a ∈ acts, (⟨t,a⟩ : Entry) ∈ J) :
    x.payload = res.payload ∧ SpecAt res.id row₀ J t x.version x.payload := by
  cases h with
  | @refused row _ hc =>
    rcases checkUpdate_eq_some hc with ⟨err,he⟩ | ⟨he,hp⟩
    · cases he
    · cases he
      exact ⟨hp.symm,hist.specAt_read (hm _ List.mem_cons_self)⟩
  | @written row acts hc he =>
    exact ⟨rfl,hist.specAt_write (hm (.wroteSpec res.id (row.version + 1) res.payload) (by simp))⟩
  | removed hgone => exact absurd hgone hg

theorem PublishRun.specAt {res : Resource} {r : Except String Unit}
    (h : PublishRun ext res gone acts r) (hr : r = .ok ()) (hg : ¬ gone)
    (hist : History ext ops res.id row₀ J) (hm : ∀ a ∈ acts, (⟨t,a⟩ : Entry) ∈ J) :
    ∃ version, SpecAt res.id row₀ J t version res.payload := by
  cases h with
  | missing => cases hr
  | @updated first acts r h =>
    cases r with
    | error err => cases hr
    | ok x =>
      have hid := res.withVersion_id first.version
      rw [← hid] at hist
      obtain ⟨hpay,hat⟩ := h.specAt hg hist fun a ha => hm a (List.mem_cons_of_mem _ ha)
      rw [hid,hpay,Resource.withVersion_payload] at hat
      exact ⟨_,hat⟩

/-- A spec that an update wrote is the one that it returns. -/
theorem UpdateRun.stored {res : Resource} {r : Except ServiceError Resource}
    (h : UpdateRun ext res gone acts r) {version : Int32} {payload : JSONMap}
    (hm : .wroteSpec id version payload ∈ acts) :
    ∃ x, r = .ok x ∧ x.version = version ∧ x.payload = payload := by
  cases h with
  | missing => simp at hm
  | refused => simp at hm
  | @written row acts hc he =>
    obtain ⟨now,uuid,rfl⟩ := he
    simp at hm
    obtain ⟨-,rfl,rfl⟩ := hm
    exact ⟨_,rfl,rfl,rfl⟩
  | @removed row acts _ hc he =>
    obtain ⟨now,uuid,rfl⟩ := he
    simp at hm

theorem Op.Run.stored {op : Op} {reply : Reply} {res : Resource}
    (hop : op = .update res ∨ op = .publishUpdate res) (h : op.Run ext gone acts reply)
    {version : Int32} {payload : JSONMap} (hm : .wroteSpec id version payload ∈ acts) :
    reply.stored version payload := by
  rcases hop with rfl | rfl
  · obtain ⟨r,rfl,h⟩ := h
    obtain ⟨x,rfl,hx⟩ := h.stored hm
    exact hx
  · obtain ⟨r,rfl,h⟩ := h
    cases h with
    | missing => simp at hm
    | updated h =>
      simp only [List.mem_cons,reduceCtorEq,false_or] at hm
      obtain ⟨x,rfl,-⟩ := h.stored hm
      trivial

theorem StatusRun.accepted {res : Resource} {r : Except ServiceError (Resource × Bool)}
    (h : StatusRun ext res gone acts r) (hg : ¬ gone) :
    (∃ x, r = .ok (x,true)) ↔ .wroteStatus res.id res.status ∈ acts := by
  cases h with
  | removed hgone => exact absurd hgone hg
  | _ => simp

theorem MarkRun.stored {r : Except ServiceError Unit} (h : MarkRun id gone acts r) {time : Time}
    {id' : String} (hm : .softDeleted id' time ∈ acts) : r = .ok () := by
  cases h with
  | unnamed => simp at hm
  | _ => rfl

/-- After a deletion that succeeded the row is marked. -/
theorem MarkRun.marks (h : MarkRun id gone acts (.ok ())) (hg : ¬ gone)
    (hist : History ext ops id row₀ J) (hm : ∀ a ∈ acts, (⟨t,a⟩ : Entry) ∈ J) :
    (row₀.after id J).deletedAt ≠ none := by
  cases h with
  | missing =>
    obtain ⟨pre,post,rfl⟩ := List.append_of_mem (hm _ List.mem_cons_self)
    obtain ⟨row,hrow,-⟩ := hist.fits_at rfl rfl
    cases hrow
  | @marked row acts hd he =>
    obtain ⟨pre,post,rfl⟩ := List.append_of_mem (hm _ List.mem_cons_self)
    obtain ⟨_,hrow,hcols⟩ := hist.fits_at rfl rfl
    cases hrow
    refine row₀.marked_after ?_
    rw [← hcols]
    exact hd
  | @deleted row time acts hd he => exact row₀.marked_of_mem (hm (.softDeleted id time) (by simp))
  | removed hgone => exact absurd hgone hg

end Runs

/-- The columns of the row are those that their owners wrote last, and what the owners return
is what they wrote. -/
structure ColumnsOwned {n : ℕ} (ops : Fin n → Op) (id : String) (row₀ row : ResourceRow)
    (cfg : Config (Fin n) State Call Call.Resp Reply) : Prop where
  /-- The last spec, the last status, the first mark; nothing else has changed. -/
  columns : row.columns = row₀.after id cfg.shared.journal
  /-- Specs are written by updates, which then succeed. -/
  spec_owner : ∀ t version payload, (t,version,payload) ∈ specWrites id cfg.shared.journal →
    ∃ (i : Fin n) (res : Resource), t = i ∧ (ops i = .update res ∨ ops i = .publishUpdate res) ∧
      res.id = id ∧ res.payload = payload ∧
      ∀ reply, cfg.threads i = .ret reply → reply.stored version payload
  /-- An update that succeeds returns the spec as it was at an entry of its own. -/
  updated : ∀ i res x, ops i = .update res → res.id = id →
    cfg.threads i = .ret (.resource (.ok x)) →
    x.payload = res.payload ∧ SpecAt id row₀ cfg.shared.journal i x.version x.payload
  published : ∀ i res, ops i = .publishUpdate res → res.id = id →
    cfg.threads i = .ret (.published (.ok ())) →
    ∃ version, SpecAt id row₀ cfg.shared.journal i version res.payload
  /-- Statuses are written by the status updates that report it. -/
  status_owner : ∀ t status, (t,status) ∈ statusWrites id cfg.shared.journal →
    ∃ (i : Fin n) (res : Resource), t = i ∧ ops i = .updateStatus res ∧ res.id = id ∧
      res.status = status ∧
      ∀ reply, cfg.threads i = .ret reply → ∃ x, reply = .status (.ok (x,true))
  accepted : ∀ i res x, ops i = .updateStatus res → res.id = id →
    cfg.threads i = .ret (.status (.ok (x,true))) →
    ((i : ℕ),res.status) ∈ statusWrites id cfg.shared.journal
  /-- Marks are set by deletions, which then succeed. -/
  mark_owner : ∀ t time, (t,time) ∈ markWrites id cfg.shared.journal →
    ∃ (i : Fin n) (interval : Time), t = i ∧ ops i = .markAsDeleting interval id ∧
      ∀ reply, cfg.threads i = .ret reply → reply = .done (.ok ())
  marked : ∀ i interval, ops i = .markAsDeleting interval id →
    cfg.threads i = .ret (.done (.ok ())) → row.deletedAt ≠ none

section Owners

variable {ext : External} {n : ℕ} {ops : Fin n → Op} {id : String} {s₀ : State}
    {row₀ row : ResourceRow} {cfg : Config (Fin n) State Call Call.Resp Reply}

/-- What a session did, once it has returned. -/
theorem reach_run (hops : ∀ i, ops i ≠ .delete id) (h₀ : s₀.Fresh n)
    (hrow₀ : s₀.resources.find id = some row₀) (hr : Reach (pool n) (start ext ops s₀) cfg)
    {i : Fin n} {op : Op} (hop : ops i = op) (hid : op.id = id) {reply : Reply}
    (hret : cfg.threads i = .ret reply) :
    ∃ gone, ¬ gone ∧ op.Run ext gone (cfg.shared.acts i) reply := by
  obtain ⟨-,acts,hacts,hrun⟩ := ((start_verified ext ops h₀).reach hr).result hret
  rw [List.nil_append] at hacts
  rw [hop,hid] at hrun
  rw [hacts]
  exact ⟨_,(reach_kept hops h₀ hrow₀ hr).not_removed,hrun⟩

theorem reach_columnsOwned (hops : ∀ i, ops i ≠ .delete id) (h₀ : s₀.Fresh n)
    (hrow₀ : s₀.resources.find id = some row₀) (hr : Reach (pool n) (start ext ops s₀) cfg)
    (hcols : row.columns = row₀.after id cfg.shared.journal) :
    ColumnsOwned ops id row₀ row cfg := by
  have hist := (reach_kept hops h₀ hrow₀ hr).history
  refine ⟨hcols,?_,?_,?_,?_,?_,?_,?_⟩
  · intro t version payload hm
    rw [mem_specWrites] at hm
    obtain ⟨pre,post,hsplit⟩ := List.append_of_mem hm
    obtain ⟨⟨i,rfl,res,hop,hid,hpay⟩,-⟩ := hist.fits_at hsplit rfl
    refine ⟨i,res,rfl,hop,hid,hpay,fun reply hret => ?_⟩
    have hopid : (ops i).id = id := by
      rw [← hid]
      rcases hop with hop | hop <;> rw [hop] <;> rfl
    obtain ⟨gone,-,h⟩ := reach_run hops h₀ hrow₀ hr rfl hopid hret
    exact h.stored hop (State.mem_acts.mpr hm)
  · rintro i res x hop rfl hret
    obtain ⟨gone,hg,_,he,h⟩ := reach_run hops h₀ hrow₀ hr hop rfl hret
    cases he
    exact h.specAt hg hist fun a ha => State.mem_acts.mp ha
  · rintro i res hop rfl hret
    obtain ⟨gone,hg,_,he,h⟩ := reach_run hops h₀ hrow₀ hr hop rfl hret
    exact h.specAt (Reply.published.inj he).symm hg hist fun a ha => State.mem_acts.mp ha
  · intro t status hm
    rw [mem_statusWrites] at hm
    obtain ⟨pre,post,hsplit⟩ := List.append_of_mem hm
    obtain ⟨⟨i,rfl,res,hop,rfl,rfl⟩,-⟩ := hist.fits_at hsplit rfl
    refine ⟨i,res,rfl,hop,rfl,rfl,fun reply hret => ?_⟩
    obtain ⟨gone,hg,_,rfl,h⟩ := reach_run hops h₀ hrow₀ hr hop rfl hret
    obtain ⟨x,rfl⟩ := (h.accepted hg).mpr (State.mem_acts.mpr hm)
    exact ⟨x,rfl⟩
  · rintro i res x hop rfl hret
    obtain ⟨gone,hg,_,he,h⟩ := reach_run hops h₀ hrow₀ hr hop rfl hret
    cases he
    exact mem_statusWrites.mpr (State.mem_acts.mp ((h.accepted hg).mp ⟨x,rfl⟩))
  · intro t time hm
    rw [mem_markWrites] at hm
    obtain ⟨pre,post,hsplit⟩ := List.append_of_mem hm
    obtain ⟨⟨i,rfl,interval,hop⟩,-⟩ := hist.fits_at hsplit rfl
    refine ⟨i,interval,rfl,hop,fun reply hret => ?_⟩
    obtain ⟨gone,-,_,rfl,h⟩ := reach_run hops h₀ hrow₀ hr hop rfl hret
    rw [h.stored (State.mem_acts.mpr hm)]
  · intro i interval hop hret
    obtain ⟨gone,hg,_,he,h⟩ := reach_run hops h₀ hrow₀ hr hop rfl hret
    cases he
    have hmarked := h.marks hg hist fun a ha => State.mem_acts.mp ha
    rw [← hcols] at hmarked
    exact hmarked

end Owners

/-- Writers of one resource do not clobber each other: in every configuration that is reached
each column is as its owners left it. In the end the row is marked if and only if it was at the
start or some deletion succeeded. -/
theorem writers_keep_columns (ext : External) {n : ℕ} {ops : Fin n → Op} {id : String}
    (hops : ∀ i, ops i ≠ .delete id) {s₀ : State} (h₀ : s₀.Fresh n) {row₀ : ResourceRow}
    (hrow₀ : s₀.resources.find id = some row₀) {cfg : Config (Fin n) State Call Call.Resp Reply}
    (hr : Reach (pool n) (start ext ops s₀) cfg) :
    ∃ row, cfg.shared.resources.find id = some row ∧ ColumnsOwned ops id row₀ row cfg ∧
      (Finished cfg → (row.deletedAt ≠ none ↔ row₀.deletedAt ≠ none ∨
        ∃ i interval, ops i = .markAsDeleting interval id ∧
          cfg.threads i = .ret (.done (.ok ())))) := by
  obtain ⟨row,hrow,hcols⟩ := (reach_kept hops h₀ hrow₀ hr).row
  have hown := reach_columnsOwned hops h₀ hrow₀ hr hcols
  have hdel : row.deletedAt = row₀.deletedAt.or
      ((markWrites id cfg.shared.journal).head?.map fun w => w.2) :=
    congrArg (fun r : ResourceRow => r.deletedAt) hcols
  refine ⟨row,hrow,hown,fun hfin => ⟨fun hd => ?_,?_⟩⟩
  · by_cases hd₀ : row₀.deletedAt = none
    · right
      cases hm : markWrites id cfg.shared.journal with
      | nil => simp [hdel,hd₀,hm] at hd
      | cons w ws =>
        obtain ⟨i,interval,-,hop,hreply⟩ := hown.mark_owner w.1 w.2 (by rw [hm]; simp)
        obtain ⟨reply,hret⟩ := hfin i
        exact ⟨i,interval,hop,by rw [hret,hreply reply hret]⟩
    · exact Or.inl hd₀
  · rintro (hd₀ | ⟨i,interval,hop,hret⟩)
    · rw [hdel]
      cases hd : row₀.deletedAt with
      | none => exact absurd hd hd₀
      | some time => simp
    · exact hown.marked i interval hop hret

/-- An update, a status report and a deletion of one resource. -/
def writerOps : Fin 3 → Op
  | 0 => .update { Reference.webRow.scan with payload := Reference.bundle "first" "web" }
  | 1 => .updateStatus { Reference.webRow.scan with status := Reference.statusWith "Applied" "7" }
  | 2 => .markAsDeleting 0 "web"

def writerStart : Config (Fin 3) State Call Call.Resp Reply :=
  start Reference.packages writerOps (.single Reference.webRow)

/-- The status lands between the read and the write of the update. -/
theorem writers_keep_columns_between : ∃ cfg : Config (Fin 3) State Call Call.Resp Reply,
    Reach (pool 3) writerStart cfg ∧ Finished cfg ∧
    ∃ row, cfg.shared.resources.find "web" = some row ∧ row.version = 2 ∧
      row.payload = Reference.bundle "first" "web" ∧
      row.status = Reference.statusWith "Applied" "7" ∧ row.deletedAt ≠ none := by
  have h : (follow (pool 3) (turns [0,0,1,1,1,1,0,0,0,0,2,2,2,2,2,2]) writerStart).any fun cfg =>
      (∀ i, (cfg.threads i).result.isSome) &&
      (specWrites "web" cfg.shared.journal = [(0,2,Reference.bundle "first" "web")]) &&
      (statusWrites "web" cfg.shared.journal = [(1,Reference.statusWith "Applied" "7")]) &&
      ((cfg.threads 2).result = some (.done (.ok ()))) := by
    decide +kernel
  obtain ⟨cfg,hr,h⟩ := (Option.any_eq_true _ _).mp h
  obtain ⟨h,hreply⟩ := (Bool.and_eq_true _ _).mp h
  obtain ⟨h,hstatus⟩ := (Bool.and_eq_true _ _).mp h
  obtain ⟨hdone,hspec⟩ := (Bool.and_eq_true _ _).mp h
  have hfin : Finished cfg := .of_result (of_decide_eq_true hdone)
  have hops : ∀ i, writerOps i ≠ .delete "web" := by
    intro i
    match i with
    | 0 => exact Op.noConfusion
    | 1 => exact Op.noConfusion
    | 2 => exact Op.noConfusion
  have hfresh : (State.single Reference.webRow).Fresh 3 := ⟨rfl,fun i l hl => by cases hl⟩
  obtain ⟨row,hrow,hown,hmark⟩ := writers_keep_columns Reference.packages hops hfresh
    (show _ = some Reference.webRow from rfl) (.of_follow _ hr)
  have hcols := hown.columns
  rw [ResourceRow.after,of_decide_eq_true hspec,of_decide_eq_true hstatus] at hcols
  refine ⟨cfg,.of_follow _ hr,hfin,row,hrow,?_,?_,?_,?_⟩
  · exact congrArg (fun r : ResourceRow => r.version) hcols
  · exact congrArg (fun r : ResourceRow => r.payload) hcols
  · exact congrArg (fun r : ResourceRow => r.status) hcols
  · exact (hmark hfin).mpr (Or.inr ⟨2,0,rfl,Prog.result_eq_some.mp (of_decide_eq_true hreply)⟩)

end Maestro
