import Maestro.Server.StoredStatus
import Maestro.Server.Subscribers

/-!
# The status stream of a subscriber

What one client is handed about one resource, in runs where no session broadcasts a status that
another broadcast has overtaken.
-/

namespace Maestro
open Concurrent Data ResourceService StatusController

/-- What a client of an instance was handed, in order. -/
def handedTo (x : String) (client : Client) (J : List StatusEntry) : List Resource :=
  J.filterMap fun e => match e with
    | ⟨_,y,.handed client' res⟩ => if y = x ∧ client' = client then some res else none
    | _ => none

def StatusAct.reads : StatusAct → Bool
  | .read _ => true
  | _ => false

/-- The entry is a broadcast of the resource on the instance. -/
def StatusEntry.sends (x id : String) : StatusEntry → Bool
  | ⟨_,y,.sent res⟩ => decide (y = x ∧ res.id = id)
  | _ => false

/-- The last thing that the session did is to take a StatusDelete event. -/
def tookDelete (t : ℕ) (J : List StatusEntry) : Bool :=
  match (statusActsOf t J).getLast? with
  | some (.tookEvent e) => decide (e.statusEventType = .statusDelete)
  | _ => false

/-- A StatusDelete event of the resource was broadcast on the instance. -/
def deleteSent (x id : String) (J : List StatusEntry) : Bool :=
  (splits J).any fun p => p.2.1.sends x id && tookDelete p.2.1.session p.1

/-- A StatusDelete event is broadcast once and after the row was removed. Anything else is
broadcast only if the resource was not broadcast on the instance since the session read it. -/
def Cluster.timely (s : Cluster) (x id : String) (t : ℕ) : Bool :=
  if tookDelete t s.log then
    decide (s.state.resources.find id = none) && !deleteSent x id s.log
  else
    (splits s.log).all fun p => !p.2.1.sends x id ||
      p.2.2.any fun e => decide (e.session = t) && e.act.reads

/-- The broadcasts of the resource on the instance are timely, and its ID is not created again. -/
def ClusterChoice.streams (ch : ClusterChoice) (x id : String) (inst : String) (t : ℕ)
    (s : Cluster) : ClusterCall → Bool
  | .inl c => ch.base.once id t s.state c && match c with
    | .broadcast res => !decide (inst = x ∧ res.id = id) || s.timely x id t
    | _ => true
  | .inr _ => true

def streamPool {n : ℕ} (inst : Fin n → String) (x id : String) (i : Fin n) (ch : ClusterChoice)
    (c : ClusterCall) (s : Cluster) : Option (ClusterCall.Resp c × Cluster) :=
  if ch.streams x id (inst i) i s c then clusterExec (inst i) i ch c s else none

/-- A status that the message of the session fills in for the resource. -/
def Reported (ext : External) (id : String) {n : ℕ} (tasks : Fin n → StatusTask) (deleted : Bool)
    (i : Fin n) (status : JSONMap) : Prop :=
  ∃ message found, tasks i = .report message ∧ message.id = id ∧
    fillStatus ext message found = .ok (status,deleted)

/-- The message that reports the deletion has the last sequence ID. -/
def DeletedLast (ext : External) (id : String) {n : ℕ} (tasks : Fin n → StatusTask)
    (row₀ : Option ResourceRow) : Prop :=
  ∀ j last, Reported ext id tasks true j last →
    (∀ row, row₀ = some row → NotOlder ext row.status last) ∧
    ∀ i status, Reported ext id tasks false i status → NotOlder ext status last

/-- A status that the row can have. -/
def Storable (ext : External) (id : String) {n : ℕ} (tasks : Fin n → StatusTask)
    (row₀ : Option ResourceRow) (status : JSONMap) : Prop :=
  status = none ∨ (∃ row, row₀ = some row ∧ status = row.status) ∨
    ∃ i, Reported ext id tasks false i status

/-- The status comes after all that was broadcast of the resource on the instance. -/
def Follows (ext : External) (x id : String) (pre : List StatusEntry) (status : JSONMap) : Prop :=
  deleteSent x id pre = false ∧
    ∀ u res, ⟨u,x,.sent res⟩ ∈ pre → res.id = id → NotOlder ext res.status status

/-- The status is not newer than the stored one, or the row was removed. -/
def Cluster.Past (ext : External) (id : String) (s : Cluster) (status : JSONMap) : Prop :=
  s.state.Removed id ∨ ∃ row, s.state.resources.find id = some row ∧ NotOlder ext status row.status

structure Cluster.Streaming (ext : External) (x id : String) {n : ℕ} (tasks : Fin n → StatusTask)
    (row₀ : Option ResourceRow) (s : Cluster) : Prop where
  gone : s.state.Removed id → s.state.resources.find id = none
  stored : ∀ row, s.state.resources.find id = some row → Storable ext id tasks row₀ row.status
  deletes : ∀ e ∈ s.state.statusEvents.rows, e.statusEventType = .statusDelete →
    e.resourceID = id → ∃ j, Reported ext id tasks true j e.status
  reads : ∀ t rows row, .read rows ∈ s.acts t → row ∈ rows → row.id = id →
    Storable ext id tasks row₀ row.status ∧ s.Past ext id row.status
  sends : ∀ t res, ⟨t,x,.sent res⟩ ∈ s.log → res.id = id → s.Past ext id res.status
  deleted : deleteSent x id s.log → s.state.Removed id
  readAfter : ∀ pre post t y rows row, s.log = pre ++ ⟨t,y,.read rows⟩ :: post → row ∈ rows →
    row.id = id → Follows ext x id pre row.status
  ordered : ∀ pre post t res, s.log = pre ++ ⟨t,x,.sent res⟩ :: post → res.id = id →
    Follows ext x id pre res.status
  origin : ∀ pre post t res, s.log = pre ++ ⟨t,x,.sent res⟩ :: post → res.id = id →
    tookDelete t pre ∨ ∃ row, s.Seen row ∧ row.id = id ∧ res.status = row.status.scan

section Logs

variable {ext : External} {x id : String} {t : ℕ} {J pre post : List StatusEntry}

theorem sends_iff {e : StatusEntry} : e.sends x id ↔ ∃ t res, e = ⟨t,x,.sent res⟩ ∧ res.id = id := by
  obtain ⟨t,y,a⟩ := e
  cases a with
  | sent res =>
    simp only [StatusEntry.sends,decide_eq_true_eq]
    constructor
    · rintro ⟨rfl,hid⟩
      exact ⟨t,res,rfl,hid⟩
    · rintro ⟨t,res,he,hid⟩
      cases he
      exact ⟨rfl,hid⟩
  | _ => simp [StatusEntry.sends]

theorem deleteSent_iff : deleteSent x id J ↔ ∃ pre post u res,
    J = pre ++ ⟨u,x,.sent res⟩ :: post ∧ res.id = id ∧ tookDelete u pre := by
  simp only [deleteSent,List.any_eq_true,Bool.and_eq_true]
  constructor
  · rintro ⟨⟨pre,e,post⟩,hm,hs,hd⟩
    obtain ⟨u,res,rfl,hid⟩ := sends_iff.mp hs
    exact ⟨pre,post,u,res,mem_splits.mp hm,hid,hd⟩
  · rintro ⟨pre,post,u,res,hJ,hid,hd⟩
    exact ⟨_,mem_splits.mpr hJ,sends_iff.mpr ⟨u,res,rfl,hid⟩,hd⟩

/-- What a session sends of what it read, with the place of the reading in the log. -/
theorem split_of_acts {A : List StatusAct} {rows : List ResourceRow} {sent : List Resource}
    (h : statusActsOf t J = A ++ .read rows :: sent.map .sent) :
    ∃ pre y post, J = pre ++ ⟨t,y,.read rows⟩ :: post ∧ statusActsOf t post = sent.map .sent := by
  rw [statusActsOf] at h
  generalize hfilter : J.filter (fun e => e.session = t) = rest at h
  obtain ⟨l₁,l₂,rfl,-,hl₂⟩ := List.map_eq_append_iff.mp h
  obtain ⟨e,l₃,rfl,he,hl₃⟩ := List.map_eq_cons_iff.mp hl₂
  obtain ⟨pre,J₂,rfl,-,hJ₂⟩ := List.filter_eq_append_iff.mp hfilter
  obtain ⟨mid,post,rfl,-,hmem,hpost⟩ := List.filter_eq_cons_iff.mp hJ₂
  obtain ⟨u,y,a⟩ := e
  cases he
  cases of_decide_eq_true hmem
  refine ⟨pre ++ mid,y,post,by simp,?_⟩
  rw [statusActsOf,hpost]
  exact hl₃

end Logs

section Step

variable {ext : External} {svr : GRPCServer} {x id : String} {n : ℕ} {inst : Fin n → String}
    {tasks : Fin n → StatusTask} {i : Fin n} {ch : ClusterChoice} {c : ClusterCall}
    {r : ClusterCall.Resp c} {row₀ : Option ResourceRow} {s s' : Cluster}

theorem streamPool_exec (h : streamPool inst x id i ch c s = some (r,s')) :
    clusterExec (inst i) i ch c s = some (r,s') ∧ ch.streams x id (inst i) i s c := by
  unfold streamPool at h
  split at h
  · next ho => exact ⟨h,ho⟩
  · cases h

theorem streamPool_pipelined : Pipelined inst (streamPool inst x id) :=
  fun _ _ _ _ _ _ hx => (streamPool_exec hx).1

/-- What the tables see of a call of the services. -/
theorem streamPool_once {c : Call} {r : c.Resp}
    (h : streamPool inst x id i ch (.inl c) s = some (r,s')) :
    oncePool id n i ch.base c s.state = some (r,s'.state) := by
  obtain ⟨hx,ho⟩ := streamPool_exec h
  obtain ⟨-,state,hexec,rfl⟩ := clusterExec_inl hx
  rw [oncePool,if_pos ((Bool.and_eq_true _ _).mp ho).1]
  exact hexec

theorem streamPool_timely {res : Resource} {u : Unit}
    (h : streamPool inst x id i ch (.inl (.broadcast res)) s = some (u,s')) (hi : inst i = x)
    (hid : res.id = id) : s.timely x id i := by
  have ho := (streamPool_exec h).2
  simp only [ClusterChoice.streams,Bool.and_eq_true] at ho
  simpa [hi,hid] using ho.2

/-- The rule of the tables, for the sessions of the cluster. -/
def storeRule (ext : External) (id : String) (tasks : Fin n → StatusTask) (i : Fin n)
    (c : ClusterCall) (s : Cluster) : Prop :=
  match c with
  | .inl c => statusRule ext id (Reported ext id tasks false) i c s.state
  | .inr _ => True

/-- The row of the resource after a step. -/
theorem Cluster.row_step (hlay : DefaultLayout ext.snowflake)
    (hempty : ∀ a, ext.snowflake.parseString "" ≠ .ok a) (ha : storeRule ext id tasks i c s)
    (hx : streamPool inst x id i ch c s = some (r,s'))
    (hgone : s.state.Removed id → s.state.resources.find id = none) :
    RowKept ext id (Reported ext id tasks false i) s.state s'.state := by
  cases c with
  | inl c => exact oncePool_row hlay hempty ha (streamPool_once hx) hgone
  | inr c =>
    rw [clusterExec_inr_state (streamPool_exec hx).1]
    exact .same hgone (fun h => h) rfl

theorem removed_step (hx : clusterExec (inst i) i ch c s = some (r,s'))
    (h : s.state.Removed id) : s'.state.Removed id := by
  cases c with
  | inl c =>
    obtain ⟨-,state,hexec,rfl⟩ := clusterExec_inl hx
    exact (exec_rowEffect hexec).removed h
  | inr c => rw [clusterExec_inr_state hx]; exact h

/-- The session took a StatusDelete event of the resource, so that the row was there once. -/
theorem Cluster.Streaming.removed_of_took (h : s.Streaming ext x id tasks row₀) (ht : s.Truthful ext)
    {e : StatusEvent} {t : ℕ} (he : .tookEvent e ∈ s.acts t) (hd : e.statusEventType = .statusDelete)
    (hid : e.resourceID = id) (hnone : s.state.resources.find id = none) : s.state.Removed id := by
  obtain ⟨row,⟨u,rows,hread,hrow⟩,hcopy⟩ := ht.events e (ht.took t e he) hd
  rcases (h.reads u rows row hread hrow (hcopy.id.symm.trans hid)).2 with hr | ⟨cur,hcur,-⟩
  · exact hr
  · exact absurd (hcur.symm.trans hnone) (by simp)

/-- The broadcasts before a timely one stand before its session's reading. -/
theorem Cluster.timely_before {t : ℕ} (ht : s.timely x id t) (hd : tookDelete t s.log = false)
    {pre post pre' post' : List StatusEntry} {y : String} {rows : List ResourceRow}
    {sent : List Resource} (hread : s.log = pre ++ ⟨t,y,.read rows⟩ :: post)
    (hsent : statusActsOf t post = sent.map .sent) {u : ℕ} {res : Resource} (hid : res.id = id)
    (hlog : s.log = pre' ++ ⟨u,x,.sent res⟩ :: post') :
    ∃ rest, pre = pre' ++ ⟨u,x,.sent res⟩ :: rest := by
  rw [Cluster.timely,if_neg (by simp [hd])] at ht
  have hafter := List.all_eq_true.mp ht _ (mem_splits.mpr hlog)
  rw [sends_iff.mpr ⟨u,res,rfl,hid⟩,Bool.not_true,Bool.false_or] at hafter
  obtain ⟨⟨t',y',a⟩,hm,hreads⟩ := List.any_eq_true.mp hafter
  simp only [Bool.and_eq_true,decide_eq_true_eq] at hreads
  obtain ⟨rfl,hreads⟩ := hreads
  have hnot : ∀ z, (⟨t',z,a⟩ : StatusEntry) ∉ post := by
    intro z hz
    have hact := mem_statusActsOf.mpr ⟨z,hz⟩
    rw [hsent] at hact
    obtain ⟨res',-,rfl⟩ := List.mem_map.mp hact
    cases hreads
  rcases append_split (hread.symm.trans hlog) with ⟨rest,hpre,-⟩ | ⟨mid,hmid,-⟩
  · exact ⟨rest,hpre⟩
  · cases mid with
    | nil => cases hmid
    | cons b mid =>
      obtain ⟨-,rfl⟩ := List.cons.inj hmid
      exact absurd (List.mem_append_right _ (List.mem_cons_of_mem _ hm)) (hnot y')

theorem Storable.notOlder (hlast : DeletedLast ext id tasks row₀) {status last : JSONMap}
    (h : Storable ext id tasks row₀ status) {j : Fin n} (hj : Reported ext id tasks true j last) :
    NotOlder ext status last := by
  rcases h with rfl | ⟨row,hrow,rfl⟩ | ⟨i,hi⟩
  · exact fun a ha => absurd rfl ha.len_ne
  · exact (hlast j last hj).1 row hrow
  · exact (hlast j last hj).2 i status hi

theorem Cluster.Past.step (hlay : DefaultLayout ext.snowflake)
    (hempty : ∀ a, ext.snowflake.parseString "" ≠ .ok a) (ha : storeRule ext id tasks i c s)
    (hx : streamPool inst x id i ch c s = some (r,s'))
    (hgone : s.state.Removed id → s.state.resources.find id = none) {status : JSONMap}
    (h : s.Past ext id status) : s'.Past ext id status := by
  rcases h with hr | ⟨row,hrow,hle⟩
  · exact Or.inl (removed_step (streamPool_exec hx).1 hr)
  · rcases (Cluster.row_step hlay hempty ha hx hgone).forward row hrow with hr | ⟨row',hrow',hle'⟩
    · exact Or.inl hr
    · exact Or.inr ⟨row',hrow',hle.trans hle'⟩

/-- What is broadcast of the resource on the instance. -/
theorem Cluster.Streaming.broadcast (hlast : DeletedLast ext id tasks row₀) (ht : s.Truthful ext)
    (h : s.Streaming ext x id tasks row₀) {res : Resource} (hs : Sends ext (s.acts i) res)
    (hid : res.id = id) (htime : s.timely x id i) :
    s.Past ext id res.status ∧ (tookDelete i s.log → s.state.Removed id) ∧
      Follows ext x id s.log res.status ∧
      (tookDelete i s.log ∨ ∃ row, s.Seen row ∧ row.id = id ∧ res.status = row.status.scan) := by
  generalize hacts : s.acts i = acts at hs
  cases hs with
  | @stored A rows sent row res hrow hres =>
    have hnot : tookDelete i s.log = false := by
      rw [tookDelete,← Cluster.acts,hacts]
      rcases List.eq_nil_or_concat sent with rfl | ⟨l,r,rfl⟩
      · simp
      · have hlast : A ++ .read rows :: (l.concat r).map .sent =
            (A ++ .read rows :: l.map .sent) ++ [.sent r] := by simp
        rw [hlast,List.getLast?_concat]
    have hstatus : res.status = row.status.scan := by
      rcases hres with rfl | rfl
      · rfl
      · exact syncTimestamps_status ext row.scan
    have hrowid : row.id = id := by
      rcases hres with rfl | rfl
      · exact hid
      · exact (syncTimestamps_id ext row.scan).symm.trans hid
    have hread : .read rows ∈ s.acts i := by rw [hacts]; simp
    obtain ⟨pre,y,post,hlog,hpost⟩ := split_of_acts hacts
    have hfollows := h.readAfter pre post i y rows row hlog hrow hrowid
    rw [hnot,hstatus]
    refine ⟨?_,by simp,⟨?_,fun u res' hm hid' => notOlder_scan_right.mpr ?_⟩,
      Or.inr ⟨row,⟨i,rows,hread,hrow⟩,hrowid,rfl⟩⟩
    · refine (h.reads i rows row hread hrow hrowid).2.imp_right ?_
      rintro ⟨cur,hcur,hle⟩
      exact ⟨cur,hcur,notOlder_scan_left.mpr hle⟩
    · by_contra hsent
      obtain ⟨pre',post',u,res',hlog',hid',hd⟩ := deleteSent_iff.mp (Bool.not_eq_false _ ▸ hsent)
      obtain ⟨rest,hpre⟩ := Cluster.timely_before htime hnot hlog hpost hid' hlog'
      have hsent' : deleteSent x id pre := deleteSent_iff.mpr ⟨pre',rest,u,res',hpre,hid',hd⟩
      rw [hfollows.1] at hsent'
      cases hsent'
    · obtain ⟨pre',post',hlog'⟩ := List.append_of_mem hm
      obtain ⟨rest,hpre⟩ := Cluster.timely_before htime hnot hlog hpost hid' hlog'
      exact hfollows.2 u res' (by rw [hpre]; simp) hid'
  | @deleted A e hd =>
    have htook : tookDelete i s.log := by
      rw [tookDelete,← Cluster.acts,hacts]
      simp [hd]
    have hevent : .tookEvent e ∈ s.acts i := by rw [hacts]; simp
    rw [Cluster.timely,if_pos htook] at htime
    simp only [Bool.and_eq_true,decide_eq_true_eq,Bool.not_eq_true'] at htime
    obtain ⟨hnone,hfirst⟩ := htime
    have hremoved := h.removed_of_took ht hevent hd hid hnone
    refine ⟨Or.inl hremoved,fun _ => hremoved,⟨hfirst,fun u res' hm hid' => ?_⟩,Or.inl htook⟩
    obtain ⟨pre,post,hlog⟩ := List.append_of_mem hm
    obtain ⟨j,hj⟩ := h.deletes e (ht.took i e hevent) hd hid
    rcases h.origin pre post u res' hlog hid' with hd' | ⟨row,⟨t,rows,hread,hrow⟩,hrowid,hstatus⟩
    · have hsent : deleteSent x id s.log := deleteSent_iff.mpr ⟨pre,post,u,res',hlog,hid',hd'⟩
      rw [hfirst] at hsent
      cases hsent
    · rw [hstatus]
      refine notOlder_scan_left.mpr (notOlder_scan_right.mpr ?_)
      exact (h.reads t rows row hread hrow hrowid).1.notOlder hlast hj

/-- Where a new entry of the log stands. -/
theorem clusterExec_split (hx : clusterExec (inst i) i ch c s = some (r,s'))
    {pre post : List StatusEntry} {e : StatusEntry} (h : s'.log = pre ++ e :: post) :
    (∃ rest, s.log = pre ++ e :: rest) ∨ pre = s.log ∧ e.session = i ∧ e.instanceID = inst i ∧
      e.act.RecordedBy ch (inst i) c s := by
  obtain ⟨act,hlog,hby⟩ := clusterExec_act hx
  rw [hlog] at h
  cases act with
  | none => exact Or.inl ⟨post,by simpa using h⟩
  | some a =>
    rcases snoc_split h with ⟨rest,hold⟩ | ⟨rfl,rfl⟩
    · exact Or.inl ⟨rest,hold⟩
    · exact Or.inr ⟨rfl,rfl,rfl,hby a rfl⟩

theorem Cluster.Streaming.step (hlay : DefaultLayout ext.snowflake)
    (hempty : ∀ a, ext.snowflake.parseString "" ≠ .ok a) (hlast : DeletedLast ext id tasks row₀)
    (hp : pipelineRule ext svr inst tasks i c s) (ha : storeRule ext id tasks i c s)
    (hx : streamPool inst x id i ch c s = some (r,s')) (ht : s.Truthful ext)
    (h : s.Streaming ext x id tasks row₀) : s'.Streaming ext x id tasks row₀ := by
  have hexec := (streamPool_exec hx).1
  obtain ⟨hgone,hstored,hkept⟩ := Cluster.row_step hlay hempty ha hx h.gone
  have hpast : ∀ {status}, s.Past ext id status → s'.Past ext id status :=
    fun hs => hs.step hlay hempty ha hx h.gone
  have hstay : s.state.Removed id → s'.state.Removed id := removed_step hexec
  -- a new broadcast of the resource on the instance
  have hnew : ∀ {res : Resource}, c = .inl (.broadcast res) → inst i = x → res.id = id →
      s.Past ext id res.status ∧ (tookDelete i s.log → s.state.Removed id) ∧
        Follows ext x id s.log res.status ∧
        (tookDelete i s.log ∨ ∃ row, s.Seen row ∧ row.id = id ∧ res.status = row.status.scan) := by
    rintro res rfl hi hid
    exact h.broadcast hlast ht hp hid (streamPool_timely hx hi hid)
  have hrowNow : ∀ {row : ResourceRow}, row ∈ s.state.resources.rows → row.id = id →
      s.state.resources.find id = some row := by
    rintro row hm rfl
    exact Table.find_of_mem hm
  refine ⟨hgone,?_,?_,?_,?_,?_,?_,?_,?_⟩
  · intro row' hrow'
    rcases hstored row' hrow' with he | hr | ⟨row,hrow,he⟩
    · exact Or.inl he
    · exact Or.inr (Or.inr ⟨i,hr⟩)
    · rw [he]
      exact h.stored row hrow
  · intro e he hd hid
    rcases clusterExec_reports hp hexec he with he | ⟨message,event,now,uuid,htask,hreport,rfl⟩
    · exact h.deletes e he hd hid
    · generalize s.acts i = A at hreport
      cases hreport with
      | update => cases hd
      | delete hrow hfill => exact ⟨i,message,_,htask,hid,hfill⟩
  · intro t rows row hm hrow hid
    rcases clusterExec_mem_acts hexec hm with hm | ⟨-,hby⟩
    · exact (h.reads t rows row hm hrow hid).imp_right hpast
    · have hfind := hrowNow (hby row hrow) hid
      exact ⟨h.stored row hfind,hkept row hfind⟩
  · intro t res hm hid
    obtain ⟨pre,post,hlog⟩ := List.append_of_mem hm
    rcases clusterExec_split hexec hlog with ⟨rest,hold⟩ | ⟨rfl,rfl,hi,hby⟩
    · exact hpast (h.sends t res (by rw [hold]; simp) hid)
    · exact hpast (hnew hby hi.symm hid).1
  · intro hsent
    obtain ⟨pre,post,u,res,hlog,hid,hd⟩ := deleteSent_iff.mp hsent
    rcases clusterExec_split hexec hlog with ⟨rest,hold⟩ | ⟨rfl,rfl,hi,hby⟩
    · exact hstay (h.deleted (deleteSent_iff.mpr ⟨pre,rest,u,res,hold,hid,hd⟩))
    · exact hstay ((hnew hby hi.symm hid).2.1 hd)
  · intro pre post t y rows row hlog hrow hid
    rcases clusterExec_split hexec hlog with ⟨rest,hold⟩ | ⟨rfl,-,-,hby⟩
    · exact h.readAfter pre rest t y rows row hold hrow hid
    · have hfind := hrowNow (hby row hrow) hid
      have hthere : ¬ s.state.Removed id :=
        fun hr => absurd (hfind.symm.trans (h.gone hr)) (by simp)
      refine ⟨Bool.eq_false_iff.mpr fun hsent => hthere (h.deleted hsent),fun u res hm hid' => ?_⟩
      obtain ⟨cur,hcur,hle⟩ := (h.sends u res hm hid').resolve_left hthere
      cases hfind.symm.trans hcur
      exact hle
  · intro pre post t res hlog hid
    rcases clusterExec_split hexec hlog with ⟨rest,hold⟩ | ⟨rfl,rfl,hi,hby⟩
    · exact h.ordered pre rest t res hold hid
    · exact (hnew hby hi.symm hid).2.2.1
  · intro pre post t res hlog hid
    rcases clusterExec_split hexec hlog with ⟨rest,hold⟩ | ⟨rfl,rfl,hi,hby⟩
    · exact (h.origin pre rest t res hold hid).imp_right fun ⟨row,hseen,hrow⟩ =>
        ⟨row,hseen.mono hexec,hrow⟩
    · exact (hnew hby hi.symm hid).2.2.2.imp_right fun ⟨row,hseen,hrow⟩ =>
        ⟨row,hseen.mono hexec,hrow⟩

end Step

section Hands

variable {ext : External} {svr : GRPCServer} {x id : String} {n : ℕ} {inst : Fin n → String}
    {tasks : Fin n → StatusTask} {i : Fin n} {ch : ClusterChoice} {c : ClusterCall}
    {r : ClusterCall.Resp c} {row₀ : Option ResourceRow} {s s' : Cluster}

/-- What the clients were handed. -/
structure Cluster.Handing (ext : External) (x id : String) (s : Cluster) : Prop where
  stream : ∀ client, ((handedTo x client s.log).filter fun res => res.id = id).Pairwise
    fun a b => NotOlder ext a.status b.status
  after : ∀ pre post t res, s.log = pre ++ ⟨t,x,.sent res⟩ :: post → res.id = id →
    tookDelete t pre → ∀ u client res', ⟨u,x,.handed client res'⟩ ∈ post → res'.id = id → res' = res

theorem mem_handedTo {client : Client} {J : List StatusEntry} {res : Resource}
    (h : res ∈ handedTo x client J) : ∃ t, (⟨t,x,.handed client res⟩ : StatusEntry) ∈ J := by
  obtain ⟨⟨t,y,a⟩,hm,he⟩ := List.mem_filterMap.mp h
  cases a with
  | handed client' res' =>
    simp only [Option.ite_none_right_eq_some,Option.some.injEq] at he
    obtain ⟨⟨rfl,rfl⟩,rfl⟩ := he
    exact ⟨t,hm⟩
  | _ => cases he

theorem sentOn_split {J : List StatusEntry} {L : List Resource} {res : Resource}
    (h : sentOn x J = L ++ [res]) : ∃ pre post t, J = pre ++ ⟨t,x,.sent res⟩ :: post ∧
      sentOn x pre = L ∧ sentOn x post = [] := by
  obtain ⟨J₁,J₂,rfl,hL,hres⟩ := List.filterMap_eq_append_iff.mp h
  obtain ⟨mid,⟨t,y,a⟩,post,rfl,hmid,he,hpost⟩ := List.filterMap_eq_cons_iff.mp hres
  cases a with
  | sent res' =>
    simp only [Option.ite_none_right_eq_some,Option.some.injEq] at he
    obtain ⟨rfl,rfl⟩ := he
    refine ⟨J₁ ++ mid,post,t,by simp,?_,hpost⟩
    rw [sentOn_append,sentOn,sentOn,hL,List.filterMap_eq_nil_iff.mpr hmid,List.append_nil]
  | _ => cases he

/-- `Start` hands out what was broadcast last. -/
theorem sentOn_of_hand (h : s.Serving svr inst tasks) {client : Client} {res : Resource}
    (hp : pipelineRule ext svr inst tasks i (.inr (.hand client res)) s) :
    ∃ L, sentOn (inst i) s.log = L ++ [res] := by
  obtain ⟨hb,-,rounds',clients,done,rest,-,hrule⟩ := hp
  obtain ⟨rounds,pre,hacts,hsent,hpre⟩ := h.rounds i hb
  obtain ⟨-,rfl⟩ := roundsActs_inj hpre.no_unlock (by simp) (hacts.symm.trans hrule)
  obtain ⟨res',hres,he⟩ := hpre.of_ne_nil
  cases he
  exact ⟨_,by rw [hsent,hres]; rfl⟩

theorem Cluster.Serving.sentOn_of_handed (h : s.Serving svr inst tasks) {t : ℕ} {client : Client}
    {res : Resource} (hm : ⟨t,x,.handed client res⟩ ∈ s.log) : res ∈ sentOn x s.log := by
  obtain ⟨j,rfl,rfl,hb⟩ := h.handed t x client res hm
  exact ((h.rounds j hb).handed (mem_statusActsOf.mpr ⟨_,hm⟩)).1

/-- The clients are handed what follows all that they were handed before. -/
theorem Cluster.Handing.step (hp : pipelineRule ext svr inst tasks i c s)
    (hx : clusterExec (inst i) i ch c s = some (r,s')) (hs : s.Serving svr inst tasks)
    (hstream : s.Streaming ext x id tasks row₀) (h : s.Handing ext x id) : s'.Handing ext x id := by
  obtain ⟨act,hlog,hby⟩ := clusterExec_act hx
  -- the last broadcast on the instance of a client that is handed something
  have hsplit : ∀ {client : Client} {res : Resource}, act = some (.handed client res) →
      inst i = x → ∃ pre post t, s.log = pre ++ ⟨t,x,.sent res⟩ :: post ∧ sentOn x post = [] ∧
        sentOn x s.log = sentOn x pre ++ [res] := by
    intro client res hact hi
    have hc : c = .inr (.hand client res) := hby _ hact
    subst hc
    obtain ⟨L,hL⟩ := sentOn_of_hand hs hp
    rw [hi] at hL
    obtain ⟨pre,post,t,hJ,rfl,hpost⟩ := sentOn_split hL
    exact ⟨pre,post,t,hJ,hpost,hL⟩
  constructor
  · intro client
    have hkeep : handedTo x client (act.toList.map (StatusEntry.mk i (inst i))) = [] →
        ((handedTo x client s'.log).filter fun res => res.id = id).Pairwise
          fun a b => NotOlder ext a.status b.status := by
      intro hnil
      rw [hlog,handedTo,List.filterMap_append,← handedTo,← handedTo,hnil,List.append_nil]
      exact h.stream client
    cases act with
    | none => exact hkeep rfl
    | some a =>
      cases a with
      | handed client' res =>
        by_cases hto : inst i = x ∧ client' = client
        swap
        · exact hkeep (by simp [handedTo,hto])
        obtain ⟨hi,rfl⟩ := hto
        have hnew : handedTo x client' [⟨i,inst i,.handed client' res⟩] = [res] := by
          simp [handedTo,hi]
        have hlog' : handedTo x client' s'.log = handedTo x client' s.log ++ [res] := by
          rw [hlog,handedTo,List.filterMap_append,← handedTo]
          exact congrArg (_ ++ ·) hnew
        rw [hlog',List.filter_append]
        refine List.pairwise_append.mpr ⟨h.stream client',?_,fun old hold new hnew => ?_⟩
        · exact (List.pairwise_singleton _ res).filter _
        · obtain ⟨hold,hid⟩ := List.mem_filter.mp hold
          obtain ⟨hnew,hid'⟩ := List.mem_filter.mp hnew
          obtain rfl := List.mem_singleton.mp hnew
          obtain ⟨pre,post,t,hJ,-,hsent⟩ := hsplit rfl hi
          obtain ⟨u,hm⟩ := mem_handedTo hold
          have hmem := hs.sentOn_of_handed hm
          rw [hsent] at hmem
          rcases List.mem_append.mp hmem with hmem | hmem
          · obtain ⟨u,hm⟩ := mem_sentOn.mp hmem
            exact (hstream.ordered pre post t new hJ (of_decide_eq_true hid')).2 u old hm
              (of_decide_eq_true hid)
          · rw [List.mem_singleton.mp hmem]
            exact .refl _
      | _ => exact hkeep rfl
  · intro pre post t res hJ hid hd u client res' hm hid'
    rw [hlog] at hJ
    rcases append_split hJ with ⟨rest,hold,rfl⟩ | ⟨mid,hmid,-⟩
    · rcases List.mem_append.mp hm with hm | hm
      · exact h.after pre rest t res hold hid hd u client res' hm hid'
      · obtain ⟨a,ha,he⟩ := List.mem_map.mp hm
        obtain ⟨-,hi,rfl⟩ := StatusEntry.mk.inj he
        obtain ⟨pre₂,post₂,t₂,hJ₂,hpost,-⟩ := hsplit (Option.mem_toList.mp ha) hi
        have hfirst := (hstream.ordered pre₂ post₂ t₂ res' hJ₂ hid').1
        rcases append_split (hold.symm.trans hJ₂) with ⟨mid,hpre,-⟩ | ⟨mid,hmid,hpre⟩
        · -- the later broadcast would come before the last one
          have hlater : res ∈ sentOn x post₂ := by
            obtain ⟨rest',rfl⟩ : ∃ rest', post₂ = rest' ++ ⟨t,x,.sent res⟩ :: rest := by
              rw [hpre] at hold
              have := hold.symm.trans hJ₂
              rw [List.append_assoc,List.cons_append] at this
              exact ⟨mid,(List.cons.inj (List.append_cancel_left this)).2.symm⟩
            exact mem_sentOn.mpr ⟨t,by simp⟩
          rw [hpost] at hlater
          cases hlater
        · cases mid with
          | nil =>
            obtain ⟨he,-⟩ := List.cons.inj hmid
            cases he
            rfl
          | cons b mid =>
            obtain ⟨rfl,-⟩ := List.cons.inj hmid
            have hsent : deleteSent x id pre₂ :=
              deleteSent_iff.mpr ⟨pre,mid,t,res,hpre,hid,hd⟩
            rw [hfirst] at hsent
            cases hsent
    · cases act with
      | none => simp at hmid
      | some a =>
        cases mid with
        | nil =>
          obtain ⟨-,rfl⟩ := List.cons.inj hmid
          cases hm
        | cons b mid => simp at hmid

end Hands

section Calls

variable {P : ClusterCall → Prop} (hr : ∀ c, P (.inr c)) (hf : ∀ err, P (.inl (.markForRollback err)))

include hr in
theorem getStatusEvent_calls (id : String) :
    (StatusEventService.get id).Calls ClusterAnswers P fun _ => True :=
  .lift_bind (hr _) fun r _ => by cases r <;> trivial

include hr hf

theorem deleteBatches_calls (batches : List (List String)) :
    (deleteBatches batches).Calls ClusterAnswers P fun _ => True := by
  induction batches with
  | nil => trivial
  | cons batch batches ih =>
    refine .bind (Q := fun _ => True) (.bind (Q := fun _ => True) ?_ fun r _ => ?_) fun r _ => ?_
    · unfold StatusEventDao.deleteAllEvents
      split
      · trivial
      · exact flaggingStatus_calls hf (.lift (hr _) fun _ _ => trivial)
    · cases r <;> trivial
    · cases r with
      | error err => trivial
      | ok u => exact ih

theorem syncStatusEvents_calls : syncStatusEvents.Calls ClusterAnswers P fun _ => True := by
  refine .lift_bind (hr _) fun r _ => ?_
  cases r with
  | error err => trivial
  | ok ready =>
    refine .bind (Q := fun _ => True) ?_ fun r _ => ?_
    · unfold EventInstanceDao.getEventsAssociatedWithInstances
      split
      · trivial
      · exact .lift (hr _) fun _ _ => trivial
    · cases r with
      | error err => trivial
      | ok ids => exact deleteBatches_calls hr hf _

theorem broadcastStatusEvent_calls (ext : External) (instanceID : String)
    (ht : ∀ id, P (.inl (.takeResource id))) (hb : ∀ res, P (.inl (.broadcast res)))
    (eventID resourceID : String) :
    (broadcastStatusEvent ext instanceID eventID resourceID).Calls ClusterAnswers P
      fun _ => True := by
  refine .bind (getStatusEvent_calls hr eventID) fun r _ => ?_
  cases r with
  | error err => trivial
  | ok e =>
    refine .bind (Q := fun _ => True) ?_ fun r _ => ?_
    · unfold statusResource
      split
      · trivial
      · refine .bind (Q := fun _ => True) ((get_calls (P := fun c => P (.inl c)) ext resourceID
          (ht _)).inl (fun _ _ hr => hr) fun _ hc => hc) fun r _ => ?_
        cases r with
        | error err =>
          dsimp only
          split <;> trivial
        | ok res => trivial
    · cases r with
      | error err => trivial
      | ok res =>
        cases res with
        | none => trivial
        | some res =>
          refine ⟨hb res,fun _ _ => ?_⟩
          change Prog.Calls _ _ _ (EventInstanceDao.create ⟨eventID,instanceID⟩ >>= _)
          refine .bind (Q := fun _ => True) (.bind (flaggingStatus_calls hf
            (.lift (hr _) fun _ _ => trivial)) fun r _ => ?_) fun r _ => ?_
          · cases r <;> trivial
          · cases r <;> trivial

theorem processStatusEvent_calls (ext : External) (instanceID : String)
    (ht : ∀ id, P (.inl (.takeResource id))) (hb : ∀ res, P (.inl (.broadcast res)))
    (hq : ∀ queue op key, P (.inl (.queue queue op key))) (queue : ℕ) (key : String) :
    (StatusController.processNextEvent (statusControllers ext instanceID) queue key).Calls ClusterAnswers P
      fun _ => True := by
  have hhandler := broadcastStatusEvent_calls hr hf ext instanceID ht hb
  refine .bind (Q := fun _ => True) (.bind (getStatusEvent_calls hr key) fun r _ => ?_) fun r _ => ?_
  · cases r with
    | error err =>
      dsimp only
      split <;> trivial
    | ok e =>
      dsimp only
      split
      · trivial
      · have hlookup : (statusControllers ext instanceID).lookup e.statusEventType =
            some [broadcastStatusEvent ext instanceID] := by
          cases htype : e.statusEventType <;> rfl
        rw [hlookup]
        refine .bind (Q := fun _ => True) (.bind (hhandler key _) fun r _ => ?_) fun r _ => ?_
        all_goals cases r <;> trivial
  · have hdone : ∀ op (result : Except String Unit),
        ((perform (.queue queue op key)).inl >>= fun _ => (perform (.queue queue .done key)).inl >>=
          fun _ => (.ret result : StatusM _)).Calls ClusterAnswers P fun _ => True :=
      fun op result => ⟨hq _ _ _,fun _ _ => ⟨hq _ _ _,fun _ _ => trivial⟩⟩
    cases r with
    | error err => exact hdone .addRateLimited _
    | ok u => exact hdone .forget _

omit hf in
theorem subscribe_calls (svr : GRPCServer) (req : SubscriptionRequest) :
    (svr.subscribe req).Calls ClusterAnswers P fun _ => True := by
  unfold GRPCServer.subscribe
  split
  · trivial
  · refine .lift_bind (hr _) fun clientID _ => ?_
    split
    · trivial
    · exact .lift_bind (hr _) fun _ _ => .lift_bind (hr _) fun _ _ => trivial

end Calls

section Runs

variable {ext : External} {svr : GRPCServer} {x id : String} {n : ℕ} {inst : Fin n → String}
    {tasks : Fin n → StatusTask}

/-- Every session keeps to the rule of the tables. -/
theorem safe_store (i : Fin n) :
    Safe (streamPool inst x id) (storeRule ext id tasks) i (fun _ _ => True)
      ((tasks i).run ext svr (inst i)) fun _ => True := by
  have hlift : ∀ {α : Type} {p : M α}, Safe (oncePool id n)
      (statusRule ext id (Reported ext id tasks false)) i (fun _ _ => True) p (fun _ => True) →
      Safe (streamPool inst x id) (storeRule ext id tasks) i (fun _ _ => True) (p.inl : StatusM α)
        fun _ => True := fun h =>
    Safe.inl Cluster.state (fun _ _ _ _ _ _ hx => ⟨_,streamPool_once hx⟩)
      (fun _ _ _ _ _ _ hx => clusterExec_inr_state (streamPool_exec hx).1) (fun _ _ _ h => h)
      (fun _ _ h => h) h
  have hcalls : ∀ {α : Type} {p : StatusM α}, p.Calls ClusterAnswers (fun c => match c with
        | .inl c => c.specOnly id
        | .inr _ => True) (fun _ => True) →
      Safe (streamPool inst x id) (storeRule ext id tasks) i (fun _ _ => True) p fun _ => True := by
    refine fun hp => (Safe.of_own (P := fun _ => True) (fun o c s r s' hx =>
      clusterExec_answers (streamPool_exec hx).1) (.const True) (fun c s hc _ => ?_)
      (fun _ _ _ _ _ _ _ _ => trivial) hp).weaken (fun _ h => h) fun _ _ _ => trivial
    cases c with
    | inl c => exact statusRule_of_specOnly hc
    | inr c => trivial
  cases htask : tasks i with
  | work queue key =>
    exact (hcalls (processStatusEvent_calls (fun _ => trivial) (fun _ => trivial) ext _
      (fun _ => trivial) (fun _ => trivial) (fun _ _ _ => trivial) queue key)).map fun _ _ _ => trivial
  | sync =>
    exact (hcalls (syncStatusEvents_calls (fun _ => trivial) fun _ => trivial)).map
      fun _ _ _ => trivial
  | readiness writes =>
    exact (hcalls (readinessWrites_calls (fun _ => trivial) (fun _ => trivial)
      (fun _ _ => trivial) writes)).map fun _ _ _ => trivial
  | report message =>
    refine (hlift (safe_reportStatus message fun hid found status hfill => ?_)).map fun _ _ _ => trivial
    exact ⟨message,found,htask,hid,hfill⟩
  | publish req => exact (hlift (safe_specOnly (publish_specOnly svr req))).map fun _ _ _ => trivial
  | broadcaster rounds =>
    refine (hcalls ((start_inRound rounds).mono (fun c hc => ?_) fun _ h => h)).map fun _ _ _ => trivial
    cases c with
    | inl c => exact hc.elim
    | inr c => trivial
  | subscribe req =>
    exact (hcalls (subscribe_calls (fun _ => trivial) svr req)).map fun _ _ _ => trivial

theorem Cluster.Fresh.streaming {s₀ : Cluster} (h : s₀.Fresh) (hj : s₀.state.journal = [])
    (hevents : ∀ e ∈ s₀.state.statusEvents.rows, e.statusEventType ≠ .statusDelete) :
    s₀.Streaming ext x id tasks (s₀.state.resources.find id) ∧ s₀.Handing ext x id := by
  have hacts : ∀ t, s₀.acts t = [] := fun t => by simp [Cluster.acts,h.log,statusActsOf]
  have hremoved : ¬ s₀.state.Removed id := by
    rintro ⟨t,row,hm,-⟩
    rw [hj] at hm
    cases hm
  have hsplit : ∀ {pre post : List StatusEntry} {e}, ¬ s₀.log = pre ++ e :: post := by
    intro pre post e he
    rw [h.log] at he
    simp at he
  refine ⟨⟨fun hr => absurd hr hremoved,fun row hrow => Or.inr (Or.inl ⟨row,hrow,rfl⟩),
    fun e he hd => absurd hd (hevents e he),?_,?_,?_,?_,?_,?_⟩,fun client => ?_,?_⟩
  · simp [hacts]
  · simp [h.log]
  · rw [h.log]
    exact fun hd => by cases hd
  · exact fun _ _ _ _ _ _ he => absurd he hsplit
  · exact fun _ _ _ _ he => absurd he hsplit
  · exact fun _ _ _ _ he => absurd he hsplit
  · rw [h.log]
    exact .nil
  · exact fun _ _ _ _ he => absurd he hsplit

end Runs

/-- The statuses of a resource that a client is handed do not go back, and after its StatusDelete
event was broadcast the client is handed nothing else of it, in runs where every broadcast is
timely and the ID is not created again. -/
theorem status_stream_ordered (ext : External) (hlay : DefaultLayout ext.snowflake)
    (hempty : ∀ a, ext.snowflake.parseString "" ≠ .ok a) (svr : GRPCServer) {n : ℕ}
    (inst : Fin n → String) (tasks : Fin n → StatusTask)
    (hone : ∀ i j, (tasks i).Broadcasts → (tasks j).Broadcasts → inst i = inst j → i = j)
    (x id : String) {s₀ : Cluster} (h₀ : s₀.Fresh) (hj : s₀.state.journal = [])
    (hevents : ∀ e ∈ s₀.state.statusEvents.rows, e.statusEventType ≠ .statusDelete)
    (hlast : DeletedLast ext id tasks (s₀.state.resources.find id))
    {cfg : Config (Fin n) Cluster ClusterCall ClusterCall.Resp StatusReply}
    (hr : Reach (streamPool inst x id) (pipelineStart ext svr inst tasks s₀) cfg) :
    (∀ client, ((handedTo x client cfg.shared.log).filter fun res => res.id = id).Pairwise
      fun a b => NotOlder ext a.status b.status) ∧
    ∀ pre post t res, cfg.shared.log = pre ++ ⟨t,x,.sent res⟩ :: post → res.id = id →
      tookDelete t pre → ∀ u client res', ⟨u,x,.handed client res'⟩ ∈ post → res'.id = id →
        res' = res := by
  have hpool : Pipelined inst (streamPool inst x id) := streamPool_pipelined
  have hstore : Verified (streamPool inst x id) (storeRule ext id tasks) (fun _ _ _ => True)
      (pipelineStart ext svr inst tasks s₀) :=
    fun i => ⟨_,.const True,trivial,safe_store i⟩
  have hinv : cfg.shared.Serving svr inst tasks ∧ cfg.shared.Truthful ext ∧
      cfg.shared.Streaming ext x id tasks (s₀.state.resources.find id) ∧
      cfg.shared.Handing ext x id := by
    refine ((hpool.verified_rounds ext svr tasks h₀.log).and hstore).invariant
      (K := fun s => s.Serving svr inst tasks ∧ s.Truthful ext ∧
        s.Streaming ext x id tasks (s₀.state.resources.find id) ∧ s.Handing ext x id)
      (fun i ch c s r s' ha hx h => ?_) hr ⟨h₀.serving svr inst tasks,h₀.truthful hevents,
        h₀.streaming hj hevents⟩
    obtain ⟨⟨hrule,hround⟩,hstored⟩ := ha
    obtain ⟨hserving,htruthful,hstreaming,hhanding⟩ := h
    have hexec := (streamPool_exec hx).1
    exact ⟨hserving.step hone hrule hround hexec,htruthful.step hrule hexec,
      hstreaming.step hlay hempty hlast hrule hstored hx htruthful,
      hhanding.step hrule hexec hserving hstreaming⟩
  exact ⟨hinv.2.2.2.stream,hinv.2.2.2.after⟩

namespace Reference

/-- The sequence ID of an event with an ID. -/
theorem sequenceIDOf_object {o : Object} {id sequenceID what : String}
    (hid : o.get "id" = some (.str id)) (hne : id ≠ "")
    (hs : o.get extensionStatusUpdateSequenceID = some (.str sequenceID)) :
    sequenceIDOf packages (some o) what = .ok sequenceID := by
  have hget : ∀ key v, key ≠ extensionWorkMeta → o.get key = some (.str v) →
      (metadataAsText packages (some o)).encoded.get key = some (.str v) := by
    intro key v hkey hv
    rw [Object.get_encoded,metadataAsText]
    split
    · rw [Object.get_set_ne _ hkey]
      exact congrArg (Option.map Json.encoded) hv
    · exact congrArg (Option.map Json.encoded) hv
  have hlen : JSONMap.len (some o) ≠ 0 := by
    intro h0
    have ho : o = [] := List.eq_nil_of_length_eq_zero h0
    rw [ho] at hid
    cases hid
  generalize hm : (metadataAsText packages (some o)).encoded = m at hget
  have hevent : eventOfJSON m = .ok
      { id := id
        source := text (m.get "source")
        type := text (m.get "type")
        extensions := m.filterMap extensionOf
        data := m.get "data" } := by
    rw [eventOfJSON,hget "id" id (by decide) hid]
    exact if_neg hne
  have hmap : jsonMapToCloudEvent packages (some o) = eventOfJSON m := by
    have hread : packages.eventOfJSON m = eventOfJSON m := rfl
    rw [jsonMapToCloudEvent,if_neg hlen,hm,hread,hevent]
  have hext := find_extensions (by decide)
    (hget extensionStatusUpdateSequenceID sequenceID (by decide) hs)
  rw [sequenceIDOf,hmap,hevent]
  dsimp only [CloudEvent.extension]
  rw [hext]
  rfl

/-- The event of a status. -/
def statusEventWith (condition sequenceID : String) : CloudEvent where
  id := "status"
  source := "agent"
  type := "io.open-cluster-management.works.v1alpha1.manifestbundles.status.update_request"
  extensions := [("sequenceid",.str sequenceID)]
  data := some (.obj [("conditions",
    .arr [.obj [("status",.str "True"),("type",.str condition)]])])

theorem jsonOfEvent_get {evt : CloudEvent} {o : Object} {sequenceID : String}
    {rest : List (String × ExtValue)} (hid : evt.id = "status")
    (hext : evt.extensions = ("sequenceid",.str sequenceID) :: rest)
    (hrest : ∀ p ∈ rest, p.1 = extensionWorkMeta) (h : jsonOfEvent evt = .ok o) :
    o.get "id" = some (.str "status") ∧
      o.get extensionStatusUpdateSequenceID = some (.str sequenceID) := by
  have hbase : ∀ (rest : List (String × ExtValue)) (base : Object),
      (∀ p ∈ rest, p.1 = extensionWorkMeta) →
      Object.get (rest.foldl (fun o p => o.set p.1 (jsonOfExtension p.2)) base)
        extensionStatusUpdateSequenceID = base.get extensionStatusUpdateSequenceID := by
    intro rest base hrest
    induction rest generalizing base with
    | nil => rfl
    | cons p rest ih =>
      rw [List.foldl_cons,ih _ fun q hq => hrest q (List.mem_cons_of_mem _ hq),
        hrest p List.mem_cons_self,Object.get_set_ne _ (by decide)]
  cases h
  constructor
  · rw [Object.get_set_ne _ (by decide),Object.get_set_ne _ (by decide),
      Object.get_set_ne _ (by decide),Object.get_set_self,hid]
  · rw [Object.get_set_ne _ (by decide),Object.get_set_ne _ (by decide),
      Object.get_set_ne _ (by decide),Object.get_set_ne _ (by decide)]
    split
    · rw [Object.get_set_ne _ (by decide),Object.get_set_ne _ (by decide),hext,List.foldl_cons,
        hbase rest _ hrest]
      exact Object.get_set_self [] _ _
    · rw [hext,List.foldl_cons,hbase rest _ hrest]
      exact Object.get_set_self [] _ _

/-- What is filled in does not change the sequence ID. -/
theorem fillStatus_sequenceID {condition sequenceID : String} {message found : Resource}
    {status : JSONMap} {deleted : Bool} (hm : message.status = statusWith condition sequenceID)
    (h : fillStatus packages message found = .ok (status,deleted)) :
    sequenceIDOf packages status "" = .ok sequenceID ∧ deleted = decide (condition = "Deleted") := by
  have hevent : jsonMapToCloudEvent packages message.status =
      .ok (statusEventWith condition sequenceID) := by
    rw [hm]
    rfl
  obtain ⟨evt,evt',payload,hevt,hfilled,hstatus,hst,rfl⟩ := fillStatus_ok h
  cases hevent.symm.trans hevt
  -- the two events that can be filled in
  obtain ⟨hid,hdata,rest,hext,hrest⟩ : evt'.id = "status" ∧
      evt'.data = (statusEventWith condition sequenceID).data ∧
      ∃ rest, evt'.extensions = ("sequenceid",.str sequenceID) :: rest ∧
        ∀ p ∈ rest, p.1 = extensionWorkMeta := by
    rcases hfilled with rfl | ⟨workMeta,rfl⟩
    · exact ⟨rfl,rfl,[],rfl,by simp⟩
    · exact ⟨rfl,rfl,[(extensionWorkMeta,workMeta)],rfl,by simp⟩
  have hpayload : packages.dataAsManifestBundleStatus evt' =
      .ok ⟨[⟨condition,"True",[]⟩],.null⟩ := by
    change manifestBundleStatus evt' = _
    rw [manifestBundleStatus,hdata]
    rfl
  cases hpayload.symm.trans hst
  refine ⟨?_,by simp [packages,external,resourceDeleted]⟩
  unfold cloudEventToJSONMap at hstatus
  split at hstatus
  · cases hstatus
  next o ho =>
  obtain ⟨hget,hseq⟩ := jsonOfEvent_get hid hext hrest ho
  split at hstatus
  · cases hstatus
    exact sequenceIDOf_object hget (by decide) hseq
  · split at hstatus
    · cases hstatus
    · cases hstatus
      refine sequenceIDOf_object ?_ (by decide : "status" ≠ "") ?_
      · rw [Object.get_set_ne _ (by decide),hget]
      · rw [Object.get_set_ne _ (by decide),hseq]

end Reference
/-- A status message, the message that the resource is deleted and the handling of their events. -/
def deletedTasks : Fin 6 → StatusTask
  | 0 => .subscribe { source := "src" }
  | 1 => statusReport "Applied" "7"
  | 2 => .work 0 "uuid-7"
  | 3 => statusReport "Deleted" "8"
  | 4 => .work 0 "uuid-19"
  | 5 => .broadcaster 2

abbrev deletedStart : Config (Fin 6) Cluster ClusterCall ClusterCall.Resp StatusReply :=
  pipelineStart Reference.packages pipelineServer (fun _ => "maestro-1") deletedTasks readyCluster

/-- The sequence IDs of what a client was handed. -/
def handedIDs (client : Client) (J : List StatusEntry) : List (String × Option String) :=
  (handedTo "maestro-1" client J).map fun res =>
    (res.id,(sequenceIDOf Reference.packages res.status "").toOption)

theorem hasID_of_sequenceID {status : JSONMap} {sequenceID : String} {a : Int64}
    (h : (sequenceIDOf Reference.packages status "").toOption = some sequenceID)
    (hne : sequenceID ≠ "") (ha : Reference.snowflake.parseString sequenceID = .ok a) :
    HasID Reference.packages status a :=
  ⟨sequenceID,hne,fun _ => sequenceIDOf_ok (eq_ok_of_toOption h),ha⟩

theorem handedIDs_pair {client : Client} {J : List StatusEntry} {id₁ id₂ seq₁ seq₂ : String}
    (h : handedIDs client J = [(id₁,some seq₁),(id₂,some seq₂)]) :
    ∃ a b, handedTo "maestro-1" client J = [a,b] ∧ a.id = id₁ ∧ b.id = id₂ ∧
      (sequenceIDOf Reference.packages a.status "").toOption = some seq₁ ∧
      (sequenceIDOf Reference.packages b.status "").toOption = some seq₂ := by
  obtain ⟨a,rest,hJ,ha,hrest⟩ := List.map_eq_cons_iff.mp h
  obtain ⟨b,rest',rfl,hb,hnil⟩ := List.map_eq_cons_iff.mp hrest
  rw [List.map_eq_nil_iff.mp hnil] at hJ
  obtain ⟨ha,ha'⟩ := Prod.mk.inj ha
  obtain ⟨hb,hb'⟩ := Prod.mk.inj hb
  exact ⟨a,b,hJ,ha,hb,ha',hb'⟩

/-- The message of the deletion is the later one. -/
theorem deletedTasks_last : DeletedLast Reference.packages "web" deletedTasks
    (readyCluster.state.resources.find "web") := by
  have hids : ∀ {deleted : Bool} {i : Fin 6} {status : JSONMap},
      Reported Reference.packages "web" deletedTasks deleted i status →
      HasID Reference.packages status (if deleted then 8 else 7) := by
    rintro deleted i status ⟨message,found,htask,-,hfill⟩
    match i, htask with
    | 0, htask | 2, htask | 4, htask | 5, htask => cases htask
    | 1, htask =>
      cases htask
      obtain ⟨hs,rfl⟩ := Reference.fillStatus_sequenceID rfl hfill
      exact ⟨"7",by decide,fun what => sequenceIDOf_ok hs,by decide⟩
    | 3, htask =>
      cases htask
      obtain ⟨hs,rfl⟩ := Reference.fillStatus_sequenceID rfl hfill
      exact ⟨"8",by decide,fun what => sequenceIDOf_ok hs,by decide⟩
  intro j last hj
  refine ⟨fun row hrow a ha => ?_,fun i status hi a ha => ⟨8,hids hj,?_⟩⟩
  · cases hrow
    exact absurd rfl ha.len_ne
  · cases ha.unique (hids hi)
    decide

theorem deletedTasks_broadcasts {i : Fin 6} (h : (deletedTasks i).Broadcasts) : i = 5 := by
  obtain ⟨k,hk⟩ := h
  match i, hk with
  | 5, _ => rfl

theorem status_stream_ordered_deleted :
    ∃ (cfg : Config (Fin 6) Cluster ClusterCall ClusterCall.Resp StatusReply) (a b : Resource),
      Reach (streamPool (fun _ => "maestro-1") "maestro-1" "web") deletedStart cfg ∧
      handedTo "maestro-1" ⟨"uuid-0","src"⟩ cfg.shared.log = [a,b] ∧
      HasID Reference.packages a.status 7 ∧ NotOlder Reference.packages a.status b.status := by
  have h : (follow (streamPool (fun _ => "maestro-1") "maestro-1" "web") (clusterTurns 0
      [0,0,1,1,1,1,1,1,1,2,2,2,2,2,5,5,5,5,3,3,3,3,4,4,4,5,5,5]) deletedStart).any fun cfg =>
      decide (handedIDs ⟨"uuid-0","src"⟩ cfg.shared.log = [("web",some "7"),("web",some "8")]) := by
    decide +kernel
  obtain ⟨cfg,hr,h⟩ := (Option.any_eq_true _ _).mp h
  have hr := Reach.of_follow _ hr
  obtain ⟨a,b,hhanded,hida,hidb,ha,-⟩ := handedIDs_pair (of_decide_eq_true h)
  have hfresh : readyCluster.Fresh := ⟨rfl,fun _ => ⟨rfl,rfl⟩⟩
  have hstream := (status_stream_ordered Reference.packages ⟨rfl,rfl,rfl⟩ (fun _ hp => by cases hp)
    pipelineServer (fun _ => "maestro-1") deletedTasks (fun i j hi hj _ =>
      (deletedTasks_broadcasts hi).trans (deletedTasks_broadcasts hj).symm) "maestro-1" "web"
    hfresh rfl (fun e he => by cases he) deletedTasks_last hr).1 ⟨"uuid-0","src"⟩
  rw [hhanded,List.filter_cons_of_pos (by simpa using hida),
    List.filter_cons_of_pos (by simpa using hidb)] at hstream
  exact ⟨cfg,a,b,hr,hhanded,hasID_of_sequenceID ha (by decide) rfl,
    List.rel_of_pairwise_cons hstream List.mem_cons_self⟩

/-- A status resync, a status message and the handling of its event. -/
def overtakenTasks : Fin 5 → StatusTask
  | 0 => .subscribe { source := "src" }
  | 1 => .publish { event := .ok (Reference.specEvent "resync_request" "src" "" "" 0) }
  | 2 => statusReport "Applied" "8"
  | 3 => .work 0 "uuid-8"
  | 4 => .broadcaster 2

/-- The row has a status already. -/
def overtakenCluster : Cluster where
  state := .single { Reference.webRow with status := Reference.statusWith "Applied" "7" }
  serverInstances := Table.empty.save readyInstance

abbrev overtakenStart : Config (Fin 5) Cluster ClusterCall ClusterCall.Resp StatusReply :=
  pipelineStart Reference.packages pipelineServer (fun _ => "maestro-1") overtakenTasks
    overtakenCluster

/-- The resync lists the resource with its old status. Before it comes to broadcast it, the next
status is stored, broadcast and handed out; then the client is handed the old one. -/
theorem overtaken_status_handed :
    ∃ (cfg : Config (Fin 5) Cluster ClusterCall ClusterCall.Resp StatusReply) (a b : Resource),
      Reach (clusterPool fun _ => "maestro-1") overtakenStart cfg ∧
      handedTo "maestro-1" ⟨"uuid-0","src"⟩ cfg.shared.log = [a,b] ∧ a.id = "web" ∧ b.id = "web" ∧
      HasID Reference.packages a.status 8 ∧ HasID Reference.packages b.status 7 ∧
      ¬ NotOlder Reference.packages a.status b.status := by
  have h : (follow (clusterPool fun _ => "maestro-1") (clusterTurns 0
      [0,0,1,2,2,2,2,2,2,2,3,3,3,3,4,4,4,4,1,4,4,4]) overtakenStart).any fun cfg =>
      decide (handedIDs ⟨"uuid-0","src"⟩ cfg.shared.log = [("web",some "8"),("web",some "7")]) := by
    decide +kernel
  obtain ⟨cfg,hr,h⟩ := (Option.any_eq_true _ _).mp h
  obtain ⟨a,b,hhanded,hida,hidb,ha,hb⟩ := handedIDs_pair (of_decide_eq_true h)
  have ha := hasID_of_sequenceID (a := 8) ha (by decide) rfl
  have hb := hasID_of_sequenceID (a := 7) hb (by decide) rfl
  refine ⟨cfg,a,b,.of_follow _ hr,hhanded,hida,hidb,ha,hb,fun hle => ?_⟩
  obtain ⟨x,hx,hle⟩ := hle 8 ha
  cases hx.unique hb
  exact absurd hle (by decide)

end Maestro
