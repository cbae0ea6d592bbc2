import Maestro.Api.Reference
import Maestro.Server.Requests
import Maestro.Services.Evaluation

namespace Maestro
open Concurrent Data

/-- A publish request, and what the environment decides while it is served. -/
structure Publication where
  req : PublishRequest
  env : ℕ → Choice

/-- Publish requests served one after the other. -/
abbrev Publishes (ext : External) (svr : GRPCServer) (ok : State → Publication → Prop)
    (s₀ : State) : List Publication → State → Prop :=
  Serial exec (fun p : Publication => svr.publish ext p.req) Publication.env ok s₀

def Publication.sentBy (user : String) (groups : List String) (p : Publication) : Bool :=
  p.req.user = user ∧ p.req.groups = groups

/-- The ID of the resource that a request is about: a new resource without an ID gets
the next UUID. -/
def targetID (action : EventAction) (res : Resource) (uuid : String) : String :=
  if action = .createRequest ∧ res.id = "" then uuid else res.id

/-- The action of a publication and the ID of the resource that it would write. -/
def Publication.target (ext : External) (svr : GRPCServer) (p : Publication) :
    Option (EventAction × String) :=
  match svr.decodeRequest ext p.req with
  | .ok (_,some (action,res)) =>
    if action ∈ [.createRequest,.updateRequest,.deleteRequest] then
      some (action,targetID action res (p.env 0).uuid)
    else
      none
  | _ => none

/-- The client names only IDs of its own and nobody else names those. A request to
create an ID that is taken, or to change one that does not exist, is refused anyway. -/
def keepsApart (ext : External) (svr : GRPCServer) (client : Publication → Bool)
    (owned : String → Bool) (s : State) (p : Publication) : Bool :=
  (p.target ext svr).all fun target =>
    if client p then
      owned target.2 || decide (target.1 = .createRequest) == (s.resources.find target.2).isSome
    else
      !owned target.2

section Agree

variable (owned : String → Bool)

/-- Two states that look the same outside the owned IDs. -/
structure State.Agree (s t : State) : Prop where
  rows : s.resources.restrict (!owned ·) = t.resources.restrict (!owned ·)
  names : ∀ name, owned name = false →
    ((∃ row ∈ s.resources.rows, row.name = name) ↔ ∃ row ∈ t.resources.rows, row.name = name)
  events : (s.events.rows.filter fun e => !owned e.sourceID) =
    t.events.rows.filter fun e => !owned e.sourceID

/-- The rows with owned IDs belong to one source. -/
def State.Confined (src : String) (s : State) : Prop :=
  ∀ row ∈ s.resources.rows, owned row.id → row.source = src

/-- The two states look the same outside the owned IDs, which belong to one source. -/
structure State.Isolated (src : String) (s t : State) : Prop where
  agree : s.Agree owned t
  left : s.Confined owned src
  right : t.Confined owned src

/-- The calls name only IDs in `q` and create only the resources in `new`. -/
def Call.names (q : String → Bool) (new : Resource → Prop) : Call → Prop
  | .takeResource id => q id
  | .findLatestDeleteEvent id => q id
  | .updateResource id _ _ => q id
  | .deleteResource id unscoped => q id ∧ unscoped = false
  | .createResource resource => new resource
  | .createEvent event => q event.sourceID
  | .newAdvisoryLock _ _ | .now | .markForRollback _ | .unlock _ | .notify _ _ => True
  | _ => False

end Agree

variable {owned : String → Bool} {src : String} {s s' s₁ t t' : State} {ch : Choice}

theorem Call.names_of_neutral {q : String → Bool} {new : Resource → Prop} (c : Call)
    (h : c.neutral) : c.names q new := by
  cases c <;> trivial

namespace State.Agree

theorem refl (s : State) : s.Agree owned s := ⟨rfl,fun _ _ => Iff.rfl,rfl⟩

theorem symm (h : s.Agree owned t) : t.Agree owned s :=
  ⟨h.rows.symm,fun name hn => (h.names name hn).symm,h.events.symm⟩

theorem trans (h : s.Agree owned t) (h' : t.Agree owned s') : s.Agree owned s' :=
  ⟨h.rows.trans h'.rows,fun name hn => (h.names name hn).trans (h'.names name hn),
    h.events.trans h'.events⟩

theorem of_tables (hr : s.resources = t.resources) (he : s.events = t.events) :
    s.Agree owned t :=
  ⟨by rw [hr],fun _ _ => by rw [hr],by rw [he]⟩

theorem find_eq (h : s.Agree owned t) {id : String} (hid : owned id = false) :
    s.resources.find id = t.resources.find id := by
  have hq : (!owned id) = true := by simp [hid]
  rw [Table.find_restrict _ (q := (!owned ·)) hq,Table.find_restrict _ (q := (!owned ·)) hq,h.rows]

theorem events_of (h : s.Agree owned t) {p : Event → Bool}
    (hp : ∀ e, p e → owned e.sourceID = false) :
    s.events.rows.filter p = t.events.rows.filter p := by
  have hand : ∀ e, p e = (p e && !owned e.sourceID) := fun e => by
    cases hpe : p e with
    | false => rfl
    | true => simp [hp e hpe]
  have hfilter : ∀ l : List Event, l.filter p = (l.filter fun e => !owned e.sourceID).filter p :=
    fun l => by
      rw [List.filter_filter]
      exact List.filter_congr fun e _ => hand e
  rw [hfilter,hfilter t.events.rows,h.events]

end State.Agree

theorem exists_name_modify {rows : Table ResourceRow.id} {id name : String}
    {f : ResourceRow → ResourceRow} (hf : ∀ row, (f row).id = row.id)
    (hn : ∀ row, (f row).name = row.name) :
    (∃ row ∈ (rows.modify id f hf).rows, row.name = name) ↔ ∃ row ∈ rows.rows, row.name = name := by
  simp only [Table.modify,Table.map,List.mem_map]
  constructor
  · rintro ⟨_,⟨row,hm,rfl⟩,he⟩
    exact ⟨row,hm,by rw [← he]; split <;> simp [hn]⟩
  · rintro ⟨row,hm,he⟩
    exact ⟨_,⟨row,hm,rfl⟩,by rw [← he]; split <;> simp [hn]⟩

/-- Changing one row by a function that keeps its source keeps the state confined. -/
theorem State.Confined.modify (h : s.Confined owned src) {id : String}
    {f : ResourceRow → ResourceRow} (hf : ∀ row, (f row).id = row.id)
    (hs : ∀ row, (f row).source = row.source)
    (hr : s'.resources = s.resources.modify id f hf) : s'.Confined owned src := by
  intro row hm ho
  simp only [hr,Table.modify,Table.map,List.mem_map] at hm
  obtain ⟨old,hm,rfl⟩ := hm
  split at ho <;> split <;> simp_all [State.Confined]

section Modify

variable {id : String} {f : ResourceRow → ResourceRow} (hf : ∀ row, (f row).id = row.id)
    (hn : ∀ row, (f row).name = row.name)
include hn

/-- A change of an owned row is not seen outside. -/
theorem State.Agree.modify_owned (hid : owned id) (hr : s'.resources = s.resources.modify id f hf)
    (he : s'.events = s.events) : s'.Agree owned s := by
  refine ⟨?_,fun name _ => ?_,by rw [he]⟩
  · rw [hr,Table.restrict_modify_of_not _ _ _ (by simp [hid])]
  · rw [hr,exists_name_modify hf hn]

/-- One change of two states that agree. -/
theorem State.Agree.modify (h : s.Agree owned t) (hr : s'.resources = s.resources.modify id f hf)
    (hr' : t'.resources = t.resources.modify id f hf) (he : s'.events = s.events)
    (he' : t'.events = t.events) : s'.Agree owned t' := by
  refine ⟨?_,fun name hname => ?_,by rw [he,he']; exact h.events⟩
  · rw [hr,hr',Table.restrict_modify,Table.restrict_modify,h.rows]
  · rw [hr,hr',exists_name_modify hf hn,exists_name_modify hf hn]
    exact h.names name hname

end Modify

theorem State.Agree.insertResource (h : s.Agree owned t) {row : ResourceRow} (n m : ℕ)
    (hs : s.resources.find row.id = none) (ht : t.resources.find row.id = none) :
    (s.insertResource n row hs).Agree owned (t.insertResource m row ht) := by
  refine ⟨?_,fun name hname => ?_,h.events⟩
  · exact (Table.restrict_insert _ _ _ hs).trans (h.rows ▸ (Table.restrict_insert _ _ _ ht).symm)
  · have hx := h.names name hname
    simp only [State.insertResource,State.record_resources,Table.insert,List.mem_append,
      List.mem_singleton,or_and_right,exists_or,exists_eq_left]
    rw [hx]

theorem State.Agree.insert_owned {row : ResourceRow} (n : ℕ)
    (hs : s.resources.find row.id = none) (hid : owned row.id) (hname : row.name = row.id) :
    (s.insertResource n row hs).Agree owned s := by
  refine ⟨?_,fun name hn => ?_,rfl⟩
  · refine (Table.restrict_insert _ _ _ hs).trans ?_
    simp [hid]
  · have hne : row.name ≠ name := by
      rintro rfl
      simp [hname,hid] at hn
    simp [State.insertResource,Table.insert,or_and_right,exists_or,hne]

theorem State.Agree.canInsert_iff (h : s.Agree owned t) {row : ResourceRow}
    (hid : owned row.id = false) (hname : row.name = row.id) :
    s.canInsert row ↔ t.canInsert row := by
  have hx := h.names row.name (by rw [hname]; exact hid)
  unfold State.canInsert
  rw [h.find_eq hid]
  refine and_congr_right fun _ => ?_
  simpa using not_congr hx

/-- A new resource without a name gets its ID as name. -/
theorem Resource.row_beforeCreate {resource : Resource} (hid : resource.id ≠ "")
    (hname : resource.name = "") (now : Time) (uuid : String) :
    let row := (resource.beforeCreate now uuid).row now
    row.id = resource.id ∧ row.name = row.id := by
  simp [Resource.beforeCreate,Resource.row,hid,hname]

/-- What the client creates. -/
def Resource.ownedBy (owned : String → Bool) (src : String) (resource : Resource) : Prop :=
  owned resource.id ∧ resource.id ≠ "" ∧ resource.name = "" ∧ resource.source = src

/-- What others create. -/
def Resource.strange (owned : String → Bool) (resource : Resource) : Prop :=
  owned resource.id = false ∧ resource.id ≠ "" ∧ resource.name = ""

/-- Calls that give owned IDs to the right source only keep the state confined. -/
theorem exec_confined {n : ℕ} {c : Call} {r : c.Resp} {q : String → Bool} {new : Resource → Prop}
    (h : exec n ch c s = some (r,s')) (hc : c.names q new)
    (hnew : ∀ res, new res → res.id ≠ "" ∧ (owned res.id → res.source = src))
    (hs : s.Confined owned src) : s'.Confined owned src := by
  cases exec_rowEffect h with
  | quiet acts hr => unfold State.Confined; rw [hr]; exact hs
  | insert resource now uuid hi =>
    obtain ⟨hid,hsrc⟩ := hnew resource hc
    intro row hm ho
    simp only [State.insertResource,State.record_resources,Table.insert,List.mem_append,
      List.mem_singleton] at hm
    rcases hm with hm | rfl
    · exact hs row hm ho
    · exact hsrc (by simpa [Resource.beforeCreate,Resource.row,hid] using ho)
  | spec version payload now => exact hs.modify (ResourceRow.setSpec_id _ _ _) (fun _ => rfl) rfl
  | soft now => exact hs.modify (ResourceRow.setDeletedAt_id _) (fun _ => rfl) rfl
  | status => cases hc
  | hard => exact absurd hc.2 (by simp)

/-- A call of the client about an owned ID is not seen outside. -/
theorem exec_owned {n : ℕ} {c : Call} {r : c.Resp} (h : exec n ch c s = some (r,s'))
    (hc : c.names owned (Resource.ownedBy owned src)) : s'.Agree owned s := by
  rcases exec_cases h with ⟨-,-,-,rfl⟩ | ⟨-,hx⟩
  · exact .refl _
  cases c with
  | createResource resource =>
    obtain ⟨ho,hid,hname,-⟩ := hc
    obtain ⟨hrow,hrn⟩ := Resource.row_beforeCreate hid hname ch.now ch.uuid
    rcases commit_createResource hx with ⟨hi,-,rfl⟩ | ⟨-,-,rfl⟩
    · exact .insert_owned n hi.1 (by rw [hrow]; exact ho) hrn
    · exact .refl _
  | updateResource id version payload =>
    obtain ⟨-,⟨-,rfl⟩ | ⟨row,-,rfl⟩⟩ := commit_updateResource hx
    · exact .refl _
    · exact .modify_owned (ResourceRow.setSpec_id _ _ _) (fun _ => rfl) hc rfl rfl
  | deleteResource id unscoped =>
    obtain ⟨ho,rfl⟩ := hc
    rcases commit_softDelete hx with ⟨-,-,rfl⟩ | ⟨-,-,⟨row,-,-,rfl⟩ | ⟨-,rfl⟩⟩
    · exact .refl _
    · exact .modify_owned (ResourceRow.setDeletedAt_id _) (fun _ => rfl) ho rfl rfl
    · exact .refl _
  | createEvent event =>
    obtain ⟨hfree,-,rfl⟩ := commit_createEvent hx
    have ho : owned (event.beforeCreate ch.now ch.uuid).sourceID = true := hc
    exact ⟨rfl,fun _ _ => Iff.rfl,by simp [Table.insert,ho]⟩
  | newAdvisoryLock id lockType =>
    obtain ⟨locks,-,hl⟩ := Option.map_eq_some_iff.mp hx
    cases hl
    exact .of_tables rfl rfl
  | now | markForRollback | unlock | takeResource | findLatestDeleteEvent | notify =>
    cases hx
    exact .of_tables rfl rfl
  | _ => cases hc

/-- One call in two states under one choice: refused in both, or committed in both. -/
theorem exec_both {n m : ℕ} {c : Call} {r r' : c.Resp} (h : exec n ch c s = some (r,s'))
    (h' : exec m ch c t = some (r',t')) :
    (r = r' ∧ s' = s ∧ t' = t) ∨ (commit n ch c s = some (r,s') ∧ commit m ch c t = some (r',t')) := by
  unfold exec at h h'
  cases hf : (ch.fault c).bind fun err => c.failure err with
  | none => rw [hf] at h h'; exact Or.inr ⟨h,h'⟩
  | some x => rw [hf] at h h'; cases h; cases h'; exact Or.inl ⟨rfl,rfl,rfl⟩

/-- A call about an ID that is not owned cannot tell two states that agree apart. -/
theorem exec_strange {n m : ℕ} {c : Call} {r r' : c.Resp} (hB : s.Agree owned t)
    (hc : c.names (!owned ·) (Resource.strange owned)) (h : exec n ch c s = some (r,s'))
    (h' : exec m ch c t = some (r',t')) : r = r' ∧ s'.Agree owned t' := by
  rcases exec_both h h' with ⟨hr,rfl,rfl⟩ | ⟨hx,hx'⟩
  · exact ⟨hr,hB⟩
  cases c with
  | createResource resource =>
    obtain ⟨ho,hid,hname⟩ := hc
    obtain ⟨hrow,hrn⟩ := Resource.row_beforeCreate hid hname ch.now ch.uuid
    rw [← hrow] at ho
    have hi := hB.canInsert_iff ho hrn
    rcases commit_createResource hx with ⟨hs,rfl,rfl⟩ | ⟨hs,rfl,rfl⟩
    · rcases commit_createResource hx' with ⟨ht,rfl,rfl⟩ | ⟨ht,-,-⟩
      · exact ⟨rfl,hB.insertResource n m hs.1 ht.1⟩
      · exact absurd (hi.mp hs) ht
    · rcases commit_createResource hx' with ⟨ht,-,-⟩ | ⟨ht,rfl,rfl⟩
      · exact absurd (hi.mpr ht) hs
      · exact ⟨by simp only [State.insertError,hB.find_eq ho],hB⟩
  | updateResource id version payload =>
    have ho : owned id = false := by simpa [Call.names] using hc
    have hfind := hB.find_eq ho
    obtain ⟨rfl,hs⟩ := commit_updateResource hx
    obtain ⟨rfl,ht⟩ := commit_updateResource hx'
    refine ⟨rfl,?_⟩
    rcases hs with ⟨hs,rfl⟩ | ⟨row,hs,rfl⟩ <;> rcases ht with ⟨ht,rfl⟩ | ⟨row',ht,rfl⟩
    · exact hB
    · simp [hfind,ht] at hs
    · simp [hfind,ht] at hs
    · exact hB.modify (ResourceRow.setSpec_id version payload ch.now) (fun _ => rfl) rfl rfl rfl rfl
  | deleteResource id unscoped =>
    obtain ⟨ho,rfl⟩ := hc
    have hfind := hB.find_eq (by simpa using ho)
    rcases commit_softDelete hx with ⟨he,rfl,rfl⟩ | ⟨he,rfl,hs⟩
    · rcases commit_softDelete hx' with ⟨-,rfl,rfl⟩ | ⟨hne,-,-⟩
      · exact ⟨rfl,hB⟩
      · exact absurd he hne
    · rcases commit_softDelete hx' with ⟨heq,-,-⟩ | ⟨-,rfl,ht⟩
      · exact absurd heq he
      · refine ⟨rfl,?_⟩
        rcases hs with ⟨row,hs,hd,rfl⟩ | ⟨hs,rfl⟩ <;> rcases ht with ⟨row',ht,hd',rfl⟩ | ⟨ht,rfl⟩
        · exact hB.modify (ResourceRow.setDeletedAt_id ch.now) (fun _ => rfl) rfl rfl rfl rfl
        · exact absurd hd (ht row (hfind ▸ hs))
        · exact absurd hd' (hs row' (hfind ▸ ht))
        · exact hB
  | createEvent event =>
    obtain ⟨hs,rfl,rfl⟩ := commit_createEvent hx
    obtain ⟨ht,rfl,rfl⟩ := commit_createEvent hx'
    refine ⟨rfl,hB.rows,hB.names,?_⟩
    simp only [State.record_events,Table.insert,List.filter_append,hB.events]
  | newAdvisoryLock id lockType =>
    obtain ⟨locks,-,hl⟩ := Option.map_eq_some_iff.mp hx
    obtain ⟨locks',-,hl'⟩ := Option.map_eq_some_iff.mp hx'
    cases hl
    cases hl'
    exact ⟨rfl,hB.rows,hB.names,hB.events⟩
  | takeResource id =>
    have hfind : s.resources.find id = _ := hB.find_eq (by simpa [Call.names] using hc)
    obtain ⟨rfl,hs⟩ := commit_takeResource hx
    obtain ⟨rfl,ht⟩ := commit_takeResource hx'
    refine ⟨?_,hB.rows,hB.names,hB.events⟩
    rw [hfind] at hs
    rcases hs with ⟨hs,rfl⟩ | ⟨row,hs,rfl⟩ <;> rcases ht with ⟨ht,rfl⟩ | ⟨row',ht,rfl⟩ <;> simp_all
  | findLatestDeleteEvent id =>
    have ho : owned id = false := by simpa [Call.names] using hc
    have he : latestDeleteEvent s.events.rows id = latestDeleteEvent t.events.rows id := by
      unfold latestDeleteEvent
      rw [hB.events_of]
      intro e he
      have hid : e.sourceID = id := by simp at he; exact he.2.1
      rw [hid]; exact ho
    simp only [commit,he] at hx hx'
    cases hx
    cases hx'
    exact ⟨rfl,hB⟩
  | now | markForRollback | unlock | notify =>
    cases hx
    cases hx'
    exact ⟨rfl,hB.rows,hB.names,hB.events⟩
  | _ => cases hc

section Publish

variable {ext : External} {svr : GRPCServer} {n : ℕ} {env : ℕ → Choice}

/-- The choices under which a resource is created under its UUID by the call that
creates it without an ID. -/
def underUUID (resource : Resource) (env : ℕ → Choice) : ℕ → Choice
  | 0 => { env 0 with fault := fun _ => (env 0).fault (.createResource resource) }
  | k+1 => env (k+1)

theorem exec_underUUID {resource : Resource} {r : Except DbErr Resource} (hid : resource.id = "")
    (h : exec n (env 0) (.createResource resource) s = some (r,s')) :
    exec n (underUUID resource env 0)
      (.createResource { resource with id := (env 0).uuid }) s = some (r,s') := by
  have hne := (env 0).uuid_ne
  rcases exec_cases h with ⟨err,hf,he,rfl⟩ | ⟨hf,hc⟩
  · cases he
    simp [exec,underUUID,hf,Call.failure]
  · have hf' : (underUUID resource env 0).fault
        (.createResource { resource with id := (env 0).uuid }) = none :=
      no_fault hf (by simp [Call.failure])
    rw [exec_of_no_fault hf']
    have hb : ({ resource with id := (env 0).uuid } : Resource).beforeCreate (env 0).now
        (env 0).uuid = resource.beforeCreate (env 0).now (env 0).uuid := by
      simp [Resource.beforeCreate,hid]
    simp only [commit,hid,if_true] at hc
    simp only [commit,underUUID,hb]
    split at hc
    · next hfree => rw [dif_pos hfree]; exact hc
    · cases hc

/-- A request with the ID of the resource that it is about, and the choices to match. -/
def settle (action : EventAction) (res : Resource) (env : ℕ → Choice) :
    Resource × (ℕ → Choice) :=
  if action = .createRequest ∧ res.id = "" then
    ({ res with id := (env 0).uuid },underUUID res env)
  else
    (res,env)

theorem settle_spec (action : EventAction) (res : Resource) (env : ℕ → Choice) :
    let res' := (settle action res env).1
    res'.id = targetID action res (env 0).uuid ∧ res'.name = res.name ∧ res'.source = res.source ∧
      (action = .createRequest → res'.id ≠ "") := by
  unfold settle targetID
  split
  · exact ⟨rfl,rfl,rfl,fun _ => (env 0).uuid_ne⟩
  · next h => exact ⟨rfl,rfl,rfl,fun ha he => h ⟨ha,he⟩⟩

theorem eval_settle {action : EventAction} {res : Resource} {r : Except String Unit}
    (h : Prog.eval (exec n) env (svr.dispatch ext action res) s = some (r,s')) :
    Prog.eval (exec n) (settle action res env).2
      (svr.dispatch ext action (settle action res env).1) s = some (r,s') := by
  unfold settle
  split
  · next hc =>
    obtain ⟨rfl,hid⟩ := hc
    have hv : ResourceService.validateCreate ext { res with id := (env 0).uuid } =
        ResourceService.validateCreate ext res := rfl
    simp only [GRPCServer.dispatch,ResourceService.create] at h ⊢
    rw [hv]
    cases hval : ResourceService.validateCreate ext res with
    | error err => rw [hval] at h; exact h
    | ok u =>
      rw [hval] at h
      obtain ⟨x,s₁,hx,hk⟩ := Prog.eval_call.mp h
      exact Prog.eval_call.mpr ⟨x,s₁,exec_underUUID hid hx,hk⟩
  · exact h

theorem dispatch_names {q : String → Bool} {new : Resource → Prop} {action : EventAction}
    {res : Resource} (hq : q res.id) (hnew : action = .createRequest → res.id ≠ "" ∧ new res) :
    (svr.dispatch ext action res).Calls Answers (Call.names q new) fun _ => True := by
  refine dispatch_calls Call.names_of_neutral ext svr action res (fun ha => ?_)
    (fun _ _ _ => ⟨hq,hq⟩) (fun _ => ⟨⟨hq,rfl⟩,hq,hq⟩) trivial hq
  obtain ⟨hid,hn⟩ := hnew ha
  exact ⟨hn,fun id hi => by rcases hi with hi | rfl; exacts [absurd hi hid,hq]⟩

/-- A request to create an ID that is taken, or to change one that does not exist. -/
theorem eval_dispatch_refused {action : EventAction} {res : Resource} {r : Except String Unit}
    (hid : action = .createRequest → res.id ≠ "")
    (hr : decide (action = .createRequest) = (s.resources.find res.id).isSome)
    (h : Prog.eval (exec n) env (svr.dispatch ext action res) s = some (r,s')) :
    s'.resources = s.resources ∧ s'.events = s.events := by
  unfold GRPCServer.dispatch at h
  split at h
  · have hne := hid rfl
    obtain ⟨x,s₁,m,hc,hk⟩ := Prog.eval_bind h
    have hs' : s' = s₁ := by cases x <;> exact (Prog.eval_ret.mp hk).2
    subst hs'
    unfold ResourceService.create at hc
    split at hc
    · rw [(Prog.eval_ret.mp hc).2]; exact ⟨rfl,rfl⟩
    · obtain ⟨y,s₂,m₂,hf,hk₂⟩ := Prog.eval_bind hc
      have hx := Prog.eval_lift.mp (eval_flagging hf)
      have hy : ∃ err, y = .error err ∧ s₂ = s := by
        rcases exec_cases hx with ⟨err,-,he,rfl⟩ | ⟨-,hcom⟩
        · cases he; exact ⟨err,rfl,rfl⟩
        · rcases commit_createResource hcom with ⟨hi,-,-⟩ | ⟨-,rfl,rfl⟩
          · have hfree := hi.1
            simp [Resource.beforeCreate,Resource.row,hne] at hfree
            simp [hfree] at hr
          · exact ⟨_,rfl,rfl⟩
      obtain ⟨err,rfl,rfl⟩ := hy
      rw [(Prog.eval_ret.mp hk₂).2]; exact ⟨rfl,rfl⟩
  · have habs : s.resources.find res.id = none := by simpa using hr.symm
    obtain ⟨x,s₁,m,hg,hk⟩ := Prog.eval_bind h
    obtain ⟨hs₁,hfound⟩ := eval_get hg
    cases x with
    | error err =>
      rw [(Prog.eval_ret.mp hk).2]
      rcases hs₁ with rfl | rfl <;> exact ⟨rfl,rfl⟩
    | ok found =>
      obtain ⟨row,hrow,-⟩ := hfound found rfl
      simp [habs] at hrow
  · have habs : s.resources.find res.id = none := by simpa using hr.symm
    obtain ⟨x,s₁,m,hd,hk⟩ := Prog.eval_bind h
    have hs' : s' = s₁ := by cases x <;> exact (Prog.eval_ret.mp hk).2
    subst hs'
    rcases eval_withAdvisoryLock hd with ⟨err,-,-,rfl⟩ | ⟨locks,s₁,locks',hb,rfl⟩
    · exact ⟨rfl,rfl⟩
    · obtain ⟨y,s₂,hx,hk⟩ := Prog.eval_lift_bind.mp hb
      have hy : (∃ err, y = .error err) ∧ s₂.resources = s.resources ∧ s₂.events = s.events := by
        rcases exec_cases hx with ⟨err,-,he,rfl⟩ | ⟨-,hcom⟩
        · cases he; exact ⟨⟨err,rfl⟩,rfl,rfl⟩
        · obtain ⟨rfl,⟨-,rfl⟩ | ⟨row,hrow,-⟩⟩ := commit_takeResource hcom
          · exact ⟨⟨_,rfl⟩,rfl,rfl⟩
          · exact absurd (habs.symm.trans hrow) (by simp)
      obtain ⟨⟨err,rfl⟩,hres,hev⟩ := hy
      have hs : s₁ = s₂ := by
        dsimp only at hk
        split at hk <;> exact (Prog.eval_ret.mp hk).2
      rw [hs]
      exact ⟨hres,hev⟩
  · rw [(Prog.eval_ret.mp h).2]; exact ⟨rfl,rfl⟩

/-- Calls that write neither resources nor events. -/
def Call.listing : Call → Prop
  | .findResourcesBySource _ | .broadcast _ => True
  | _ => False

theorem eval_resync {evt : CloudEvent} {r : Except String Unit}
    (h : Prog.eval (exec n) env (respondResyncStatusRequest ext evt) s = some (r,s')) :
    s'.resources = s.resources ∧ s'.events = s.events := by
  refine eval_invariant (P := Call.listing)
    (I := fun x => x.resources = s.resources ∧ x.events = s.events) ?_
    (respondResyncStatusRequest_calls ext (fun _ => trivial) (fun _ => trivial) evt) ⟨rfl,rfl⟩ h
  intro ch c s₁ r s₂ hc hx hI
  rcases exec_cases hx with ⟨-,-,-,rfl⟩ | ⟨-,hcom⟩
  · exact hI
  · cases c with
    | findResourcesBySource | broadcast => cases hcom; exact hI
    | _ => cases hc

/-- What a served publication did: it decoded to no write, or a settled request was
dispatched. -/
theorem eval_publish {p : Publication} {r : Except String Unit}
    (h : Prog.eval (exec n) p.env (svr.publish ext p.req) s = some (r,s')) :
    (p.target ext svr = none ∧ s'.resources = s.resources ∧ s'.events = s.events) ∨
      ∃ evt action res, svr.decodeRequest ext p.req = .ok (evt,some (action,res)) ∧
        p.target ext svr = some (action,targetID action res (p.env 0).uuid) ∧
        Prog.eval (exec n) (settle action res p.env).2
          (svr.dispatch ext action (settle action res p.env).1) s = some (r,s') := by
  unfold GRPCServer.publish at h
  split at h
  · next err hdec =>
    rw [(Prog.eval_ret.mp h).2]
    exact Or.inl ⟨by simp only [Publication.target,hdec],rfl,rfl⟩
  · next evt hdec =>
    obtain ⟨x,s₁,m,hr,hk⟩ := Prog.eval_bind h
    have hs' : s' = s₁ := by cases x <;> exact (Prog.eval_ret.mp hk).2
    rw [hs']
    exact Or.inl ⟨by simp only [Publication.target,hdec],eval_resync hr⟩
  · next evt action res hdec =>
    by_cases ha : action ∈ [.createRequest,.updateRequest,.deleteRequest]
    · exact Or.inr ⟨evt,action,res,hdec,by simp only [Publication.target,hdec,if_pos ha],
        eval_settle h⟩
    · have ht : p.target ext svr = none := by simp only [Publication.target,hdec,if_neg ha]
      unfold GRPCServer.dispatch at h
      split at h
      · simp at ha
      · simp at ha
      · simp at ha
      · rw [(Prog.eval_ret.mp h).2]
        exact Or.inl ⟨ht,rfl,rfl⟩

section Client

variable {client : Publication → Bool} {p : Publication}

theorem State.Isolated.of_tables (h : s.Isolated owned src t) (hr : s'.resources = s.resources)
    (he : s'.events = s.events) : s'.Isolated owned src t :=
  ⟨(State.Agree.of_tables hr he).trans h.agree,by unfold State.Confined; rw [hr]; exact h.left,
    h.right⟩

theorem State.Isolated.symm (h : s.Isolated owned src t) : t.Isolated owned src s :=
  ⟨h.agree.symm,h.right,h.left⟩

/-- A publication of the client is not seen outside its IDs. -/
theorem publish_owned {r : Except String Unit} (hp : client p)
    (hsrc : ∀ evt, svr.authorize evt p.req = .ok () → evt.source = src)
    (hok : keepsApart ext svr client owned s p) (hB : s.Isolated owned src t)
    (h : Prog.eval (exec n) p.env (svr.publish ext p.req) s = some (r,s')) :
    s'.Isolated owned src t := by
  rcases eval_publish h with ⟨-,hr,he⟩ | ⟨evt,action,res,hdec,ht,hx⟩
  · exact hB.of_tables hr he
  obtain ⟨hauth,hspec⟩ := GRPCServer.decodeRequest_some hdec
  obtain ⟨-,hs,hname⟩ := decodeResourceSpec_ok ext hspec
  obtain ⟨hid,hn,hs',hne⟩ := settle_spec action res p.env
  simp only [keepsApart,ht,Option.all_some,hp,if_true,Bool.or_eq_true,beq_iff_eq] at hok
  rw [← hid] at hok
  rcases hok with ho | href
  · have hcalls : (svr.dispatch ext action (settle action res p.env).1).Calls Answers
        (Call.names owned (Resource.ownedBy owned src)) fun _ => True :=
      dispatch_names ho fun ha =>
        ⟨hne ha,ho,hne ha,hn.trans hname,by rw [hs',hs,hsrc evt hauth]⟩
    refine eval_invariant (I := fun x => x.Isolated owned src t) ?_ hcalls hB hx
    exact fun ch c s r s' hc hx hB => ⟨(exec_owned hx hc).trans hB.agree,
      exec_confined hx hc (fun res hres => ⟨hres.2.1,fun _ => hres.2.2.2⟩) hB.left,hB.right⟩
  · obtain ⟨hr,he⟩ := eval_dispatch_refused hne href hx
    exact hB.of_tables hr he

/-- A publication of another client cannot tell the two states apart. -/
theorem publish_strange {r r' : Except String Unit} {m : ℕ} (hp : client p = false)
    (hok : keepsApart ext svr client owned s p) (hB : s.Isolated owned src t)
    (h : Prog.eval (exec n) p.env (svr.publish ext p.req) s = some (r,s'))
    (h' : Prog.eval (exec m) p.env (svr.publish ext p.req) t = some (r',t')) :
    s'.Isolated owned src t' := by
  rcases eval_publish h with ⟨hnone,hr,he⟩ | ⟨evt,action,res,hdec,ht,hx⟩
  · rcases eval_publish h' with ⟨-,hr',he'⟩ | ⟨_,_,_,_,ht',_⟩
    · exact ((hB.of_tables hr he).symm.of_tables hr' he').symm
    · rw [hnone] at ht'; cases ht'
  rcases eval_publish h' with ⟨hnone,-,-⟩ | ⟨evt',action',res',hdec',-,hx'⟩
  · rw [hnone] at ht; cases ht
  rw [hdec] at hdec'
  cases hdec'
  obtain ⟨-,-,hname⟩ := decodeResourceSpec_ok ext (GRPCServer.decodeRequest_some hdec).2
  obtain ⟨hid,hn,-,hne⟩ := settle_spec action res p.env
  simp only [keepsApart,ht,Option.all_some,hp,Bool.false_eq_true,if_false] at hok
  rw [← hid] at hok
  have hcalls : (svr.dispatch ext action (settle action res p.env).1).Calls Answers
      (Call.names (!owned ·) (Resource.strange owned)) fun _ => True :=
    dispatch_names hok fun ha => ⟨hne ha,by simpa using hok,hne ha,hn.trans hname⟩
  have hnew : ∀ res, Resource.strange owned res → res.id ≠ "" ∧ (owned res.id → res.source = src) :=
    fun res hres => ⟨hres.2.1,fun ho => by simp [hres.1] at ho⟩
  refine (Prog.eval_rel (B := State.Isolated owned src) ?_ hcalls hB hx hx').2
  intro ch c s t r r' s' t' hc hB hs ht
  obtain ⟨hr,hA⟩ := exec_strange hB.agree hc hs ht
  exact ⟨exec_answers hs,hr,hA,exec_confined hs hc hnew hB.left,exec_confined ht hc hnew hB.right⟩

end Client

end Publish

/-- The server accepts requests of this client for this source only. -/
def GRPCServer.AllowsOnly (svr : GRPCServer) (user : String) (groups : List String)
    (src : String) : Prop :=
  svr.disableAuthorizer = false ∧
    ∀ source, svr.accessReview "pub" "source" source user groups = .ok true → source = src

theorem GRPCServer.AllowsOnly.source_eq {svr : GRPCServer} {user : String} {groups : List String}
    (h : svr.AllowsOnly user groups src) {p : Publication} (hp : p.sentBy user groups)
    (evt : CloudEvent) (hauth : svr.authorize evt p.req = .ok ()) : evt.source = src := by
  simp only [Publication.sentBy,decide_eq_true_eq] at hp
  simp only [GRPCServer.authorize,h.1,Bool.false_eq_true,if_false,hp.1,hp.2] at hauth
  split at hauth
  · cases hauth
  · cases hauth
  · next hr => exact h.2 _ hr

/-- Two runs that differ only in the publications of one client agree on the resources
of other sources, and on the events of those, when the client and the others name
different IDs. -/
theorem sources_isolated (ext : External) (svr : GRPCServer) {user : String}
    {groups : List String} {src : String} (hauth : svr.AllowsOnly user groups src)
    {owned : String → Bool} {s₀ s s' : State} (hown : s₀.Confined owned src)
    {run run' : List Publication}
    (hothers : run.filter (!Publication.sentBy user groups ·) =
      run'.filter (!Publication.sentBy user groups ·))
    (h : Publishes ext svr (fun s p => keepsApart ext svr (Publication.sentBy user groups) owned s p) s₀
      run s)
    (h' : Publishes ext svr (fun s p => keepsApart ext svr (Publication.sentBy user groups) owned s p) s₀
      run' s') :
    (∀ id row, row.source ≠ src →
      (s.resources.find id = some row ↔ s'.resources.find id = some row)) ∧
    ∀ id row, s.resources.find id = some row → row.source ≠ src →
      (s.events.rows.filter fun e => e.sourceID = id) =
        s'.events.rows.filter fun e => e.sourceID = id := by
  obtain ⟨hB,hs,hs'⟩ : s.Isolated owned src s' := by
    refine Serial.rel (B := State.Isolated owned src) (fun _ _ h => h.symm) ?_ ?_
      ⟨.refl s₀,hown,hown⟩ h h' hothers
    · exact fun n p s t r s₁ hp hok hB hx => publish_owned hp (hauth.source_eq hp) hok hB hx
    · exact fun n m p s t r r' s₁ t₁ hp hok _ hB hx hx' => publish_strange hp hok hB hx hx'
  have hfree : ∀ {x : State}, x.Confined owned src → ∀ id row, row.source ≠ src →
      x.resources.find id = some row → owned id = false := fun hc id row hsrc hrow => by
    by_contra ho
    have hid := Table.find_some_key hrow
    subst hid
    exact hsrc (hc row (Table.find_some_mem hrow) (by simpa using ho))
  refine ⟨fun id row hsrc => ⟨fun hrow => ?_,fun hrow => ?_⟩,fun id row hrow hsrc => ?_⟩
  · rw [← hB.find_eq (hfree hs id row hsrc hrow)]; exact hrow
  · rw [hB.find_eq (hfree hs' id row hsrc hrow)]; exact hrow
  · refine hB.events_of fun e he => ?_
    rw [of_decide_eq_true he]
    exact hfree hs id row hsrc hrow

/-- Each client may publish for the source of its own name only. -/
def sourceServer : GRPCServer :=
  ⟨false,fun _ _ source user _ => .ok (decide (source = user)),0⟩

theorem sourceServer_allowsOnly (user : String) : sourceServer.AllowsOnly user [] user :=
  ⟨rfl,fun _ h => of_decide_eq_true (Except.ok.inj h)⟩

/-- The requests of some clients, each about an ID and for its own source. -/
def publications (requests : List (String × String × String)) : List Publication :=
  requests.zipIdx.map fun ((action,user,id),k) =>
    { req := { event := .ok (Reference.specEvent action user id "web" 0), user := user }
      env := fun n => Choice.counting (fun _ => none) (100 * k + n) }

def publishRun (ok : State → Publication → Bool) (run : List Publication) : Option State :=
  serialRun exec (fun p : Publication => sourceServer.publish Reference.packages p.req)
    Publication.env ok 0 run {}

/-- Another client creates a resource; this one creates and deletes its own, or not. -/
def besideRun : List Publication :=
  publications [("create_request","src","web"),("create_request","mine","own"),
    ("delete_request","mine","own")]

def aloneRun : List Publication := publications [("create_request","src","web")]

def ownApart : State → Publication → Bool :=
  keepsApart Reference.packages sourceServer (Publication.sentBy "mine" []) (· = "own")

theorem sources_isolated_beside : ∃ (s s' : State) (row : ResourceRow),
    Publishes Reference.packages sourceServer (fun s p => ownApart s p) {} besideRun s ∧
    Publishes Reference.packages sourceServer (fun s p => ownApart s p) {} aloneRun s' ∧
    (s.resources.find "own").isSome ∧ (s'.resources.find "own").isNone ∧ row.source = "src" ∧
    s.resources.find "web" = some row ∧ s'.resources.find "web" = some row := by
  have h : (publishRun ownApart besideRun).any fun s =>
      ((s.resources.find "web").any fun row => row.source = "src") &&
        (s.resources.find "own").isSome := by decide +kernel
  have h' : (publishRun ownApart aloneRun).any fun s' => (s'.resources.find "own").isNone := by
    decide +kernel
  obtain ⟨s,hr,hs⟩ := (Option.any_eq_true _ _).mp h
  obtain ⟨s',hr',hs'⟩ := (Option.any_eq_true _ _).mp h'
  obtain ⟨hweb,hown⟩ := (Bool.and_eq_true _ _).mp hs
  obtain ⟨row,hrow,hp⟩ := (Option.any_eq_true _ _).mp hweb
  have hsrc : row.source = "src" := of_decide_eq_true hp
  have hrun := Serial.of_run .nil hr
  have hrun' := Serial.of_run .nil hr'
  have hothers : besideRun.filter (!Publication.sentBy "mine" [] ·) =
      aloneRun.filter (!Publication.sentBy "mine" [] ·) := rfl
  have hiso := sources_isolated Reference.packages sourceServer (sourceServer_allowsOnly "mine")
    (fun row hm => by cases hm) hothers hrun hrun'
  exact ⟨s,s',row,hrun,hrun',hown,hs',hsrc,hrow,
    (hiso.1 "web" row (by rw [hsrc]; decide)).mp hrow⟩

/-- The client sends a delete request for its own source with the ID of another's resource. -/
def acrossRun : List Publication :=
  publications [("create_request","src","web"),("delete_request","mine","web")]

/-- The resource of the other source is deleted, for a client that the server allows
its own source only. -/
theorem delete_across_sources : sourceServer.AllowsOnly "mine" [] "mine" ∧
    acrossRun.map (Publication.sentBy "mine" []) = [false,true] ∧
    ∃ (s s' : State) (row row' : ResourceRow),
      Publishes Reference.packages sourceServer (fun _ _ => true) {} aloneRun s ∧
      Publishes Reference.packages sourceServer (fun _ _ => true) {} acrossRun s' ∧
      s.resources.find "web" = some row ∧ s'.resources.find "web" = some row' ∧
      row.source = "src" ∧ row.deletedAt = none ∧ row'.deletedAt.isSome := by
  have h : (publishRun (fun _ _ => true) aloneRun).any fun s =>
      (s.resources.find "web").any fun row => row.source = "src" ∧ row.deletedAt = none := by
    decide +kernel
  have h' : (publishRun (fun _ _ => true) acrossRun).any fun s' =>
      (s'.resources.find "web").any fun row => row.deletedAt.isSome := by decide +kernel
  obtain ⟨s,hr,hs⟩ := (Option.any_eq_true _ _).mp h
  obtain ⟨row,hrow,hp⟩ := (Option.any_eq_true _ _).mp hs
  obtain ⟨hsrc,hd⟩ := of_decide_eq_true hp
  obtain ⟨s',hr',hs'⟩ := (Option.any_eq_true _ _).mp h'
  obtain ⟨row',hrow',hd'⟩ := (Option.any_eq_true _ _).mp hs'
  exact ⟨sourceServer_allowsOnly "mine",rfl,s,s',row,row',Serial.of_run .nil hr,
    Serial.of_run .nil hr',hrow,hrow',hsrc,hd,hd'⟩

end Maestro
