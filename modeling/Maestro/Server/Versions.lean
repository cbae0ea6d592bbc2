import Maestro.Server.Incarnations
import Maestro.Server.UpdateChain

namespace Maestro
open Concurrent Data

/-- What serving a request does to the specs of the rows. -/
inductive SpecEffect (ext : External) (svr : GRPCServer) (s : State) : Request → State → Prop
  | keep {request : Request} {s' : State} (h : ∀ id row', s'.resources.find id = some row' →
      ∃ row, s.resources.find id = some row ∧ row'.version = row.version ∧
        row'.payload = row.payload) :
      SpecEffect ext svr s request s'
  | create {req : PublishRequest} {evt : CloudEvent} {res : Resource} {s' : State}
      (hd : svr.decodeRequest ext req = .ok (evt,some (.createRequest,res)))
      (row : ResourceRow) (hfree : s.resources.find row.id = none)
      (hv : row.version = if res.version = 0 then 1 else res.version)
      (hp : row.payload = res.payload) (hr : s'.resources = s.resources.insert row hfree) :
      SpecEffect ext svr s (.publish req) s'
  | update {req : PublishRequest} {evt : CloudEvent} {res : Resource} {row : ResourceRow}
      {s' : State} (hd : svr.decodeRequest ext req = .ok (evt,some (.updateRequest,res)))
      (hrow : s.resources.find res.id = some row) (now : Time)
      (hr : s'.resources = s.resources.modify res.id (.setSpec (row.version + 1) res.payload now)
        (ResourceRow.setSpec_id _ _ _)) :
      SpecEffect ext svr s (.publish req) s'

section Effect

variable {ext : External} {svr : GRPCServer} {s s' : State} {t : ℕ} {env : ℕ → Choice}

theorem SpecEffect.of_eq {request : Request} (h : s'.resources = s.resources) :
    SpecEffect ext svr s request s' :=
  .keep fun _ row' hrow => ⟨row',h ▸ hrow,rfl,rfl⟩

/-- Calls that neither insert a row nor write a spec. -/
def Call.keepsSpecs : Call → Prop
  | .createResource _ | .updateResource _ _ _ => False
  | _ => True

theorem Call.keepsSpecs_of_neutral (c : Call) (h : c.neutral) : c.keepsSpecs := by
  cases c <;> trivial

theorem SpecEffect.of_calls {α : Type} {Q : α → Prop} {p : M α} {a : α} (request : Request)
    (hp : p.Calls Answers Call.keepsSpecs Q) (h : Prog.eval (exec t) env p s = some (a,s')) :
    SpecEffect ext svr s request s' := by
  refine .keep (eval_invariant (I := fun x => ∀ id row', x.resources.find id = some row' →
    ∃ row, s.resources.find id = some row ∧ row'.version = row.version ∧
      row'.payload = row.payload) ?_ hp (fun id row' hrow => ⟨row',hrow,rfl,rfl⟩) h)
  intro ch c x r x' hc hx hI id row' hrow
  cases exec_rowEffect hx with
  | quiet acts hr hj hb => exact hI id row' (hr ▸ hrow)
  | insert | spec => cases hc
  | status status now hfound =>
    rw [State.find_writeStatus] at hrow
    split at hrow
    · obtain ⟨row,hr,rfl⟩ := Option.map_eq_some_iff.mp hrow
      exact hI id row hr
    · exact hI id row' hrow
  | soft now hfound hlive =>
    rw [State.find_softDelete] at hrow
    split at hrow
    · obtain ⟨row,hr,rfl⟩ := Option.map_eq_some_iff.mp hrow
      exact hI id row hr
    · exact hI id row' hrow
  | hard hfound =>
    rw [State.find_hardDelete] at hrow
    split at hrow
    · cases hrow
    · exact hI id row' hrow

/-- A create inserts one row or none. -/
theorem eval_create {resource : Resource} {a : Except ServiceError Resource}
    (h : Prog.eval (exec t) env (ResourceService.create ext resource) s = some (a,s')) :
    s'.resources = s.resources ∨ ∃ now uuid,
      ∃ hfree : s.resources.find ((resource.beforeCreate now uuid).row now).id = none,
        s'.resources = s.resources.insert ((resource.beforeCreate now uuid).row now) hfree := by
  unfold ResourceService.create at h
  split at h
  · rw [(Prog.eval_ret.mp h).2]
    exact Or.inl rfl
  · obtain ⟨r,s₁,m,hi,hk⟩ := Prog.eval_bind h
    rcases exec_cases (Prog.eval_lift.mp (eval_flagging hi)) with ⟨err,-,he,rfl⟩ | ⟨-,hc⟩
    · cases he
      rw [(Prog.eval_ret.mp hk).2]
      exact Or.inl rfl
    · rcases commit_createResource hc with ⟨hfree,rfl,rfl⟩ | ⟨-,rfl,rfl⟩
      · have hr := eval_rowless (announce_calls Call.rowless_of_neutral trivial _ _) hk
        exact Or.inr ⟨_,_,hfree.1,hr⟩
      · rw [(Prog.eval_ret.mp hk).2]
        exact Or.inl rfl

/-- An update writes the next version of the row that it finds, or nothing. -/
theorem eval_update {resource : Resource} {a : Except ServiceError Resource}
    (h : Prog.eval (exec t) env (ResourceService.update ext resource) s = some (a,s')) :
    s'.resources = s.resources ∨ ∃ row now, s.resources.find resource.id = some row ∧
      s'.resources = s.resources.modify resource.id
        (.setSpec (row.version + 1) resource.payload now) (ResourceRow.setSpec_id _ _ _) := by
  rcases eval_withAdvisoryLock h with ⟨-,-,-,rfl⟩ | ⟨locks,s₁,locks',hb,rfl⟩
  · exact Or.inl rfl
  · obtain ⟨r,s₂,hx,hk⟩ := Prog.eval_lift_bind.mp hb
    rcases exec_cases hx with ⟨err,-,he,rfl⟩ | ⟨-,hc⟩
    · cases he
      rw [(Prog.eval_ret.mp hk).2]
      exact Or.inl rfl
    · obtain ⟨rfl,⟨-,rfl⟩ | ⟨row,hrow,rfl⟩⟩ := commit_takeResource hc
      · rw [(Prog.eval_ret.mp hk).2]
        exact Or.inl rfl
      · have hid : row.id = resource.id := Table.find_some_key hrow
        dsimp only at hk
        split at hk
        · rw [(Prog.eval_ret.mp hk).2]
          exact Or.inl rfl
        · obtain ⟨r₁,s₃,m,hw,hk⟩ := Prog.eval_bind hk
          obtain ⟨r₂,s₄,m',hw,hk₂⟩ := Prog.eval_bind hw
          rcases exec_cases (Prog.eval_lift.mp (eval_flagging hw)) with ⟨err,-,he,rfl⟩ | ⟨-,hc⟩
          · cases he
            obtain ⟨rfl,rfl⟩ := Prog.eval_ret.mp hk₂
            rw [(Prog.eval_ret.mp hk).2]
            exact Or.inl rfl
          · obtain ⟨rfl,⟨-,rfl⟩ | ⟨-,-,rfl⟩⟩ := commit_updateResource hc
            · obtain ⟨rfl,rfl⟩ := Prog.eval_ret.mp hk₂
              have hr := eval_rowless (announce_calls Call.rowless_of_neutral trivial _ _) hk
              exact Or.inl hr
            · obtain ⟨rfl,rfl⟩ := Prog.eval_ret.mp hk₂
              have hr := eval_rowless (announce_calls Call.rowless_of_neutral trivial _ _) hk
              rw [← hid] at hrow ⊢
              exact Or.inr ⟨row,_,hrow,hr⟩

theorem serve_specEffect {turn : Turn} {r : Except String Unit}
    (h : Prog.eval (exec t) turn.env (turn.request.run ext svr) s = some (r,s')) :
    SpecEffect ext svr s turn.request s' := by
  obtain ⟨request,env⟩ := turn
  cases request with
  | deliver resource =>
    exact .of_calls _ (handleStatusUpdate_calls Call.keepsSpecs_of_neutral ext resource trivial
      trivial (fun _ => trivial) (fun _ _ => trivial) trivial) h
  | publish req =>
    change Prog.eval (exec t) env (svr.publish ext req) s = _ at h
    unfold GRPCServer.publish at h
    split at h
    · rw [(Prog.eval_ret.mp h).2]
      exact .of_eq rfl
    · next evt hdec =>
      obtain ⟨x,s₁,m,hr,hk⟩ := Prog.eval_bind h
      have hs' : s' = s₁ := by cases x <;> exact (Prog.eval_ret.mp hk).2
      rw [hs']
      exact .of_calls _ (respondResyncStatusRequest_calls ext (fun _ => trivial)
        (fun _ => trivial) evt) hr
    · next evt action res hdec =>
      unfold GRPCServer.dispatch at h
      split at h
      · obtain ⟨x,s₁,m,hc,hk⟩ := Prog.eval_bind h
        have hs' : s' = s₁ := by cases x <;> exact (Prog.eval_ret.mp hk).2
        rw [hs']
        rcases eval_create hc with hr | ⟨now,uuid,hfree,hr⟩
        · exact .of_eq hr
        · exact .create hdec _ hfree rfl rfl hr
      · obtain ⟨x,s₁,m,hg,hk⟩ := Prog.eval_bind h
        obtain ⟨hs₁,-⟩ := eval_get hg
        have hr₁ : s₁.resources = s.resources := by rcases hs₁ with rfl | rfl <;> rfl
        cases x with
        | error err =>
          rw [(Prog.eval_ret.mp hk).2]
          exact .of_eq hr₁
        | ok found =>
          obtain ⟨y,s₂,m₂,hu,hk⟩ := Prog.eval_bind hk
          have hs' : s' = s₂ := by cases y <;> exact (Prog.eval_ret.mp hk).2
          rw [hs']
          have hid : (if res.version = 0 then { res with version := found.version } else res).id =
              res.id := by split <;> rfl
          have hp : (if res.version = 0 then { res with version := found.version }
              else res).payload = res.payload := by split <;> rfl
          rcases eval_update hu with hr | ⟨row,now,hrow,hr⟩
          · exact .of_eq (hr.trans hr₁)
          · rw [hid,hr₁] at hrow
            simp only [hid,hp,hr₁] at hr
            exact .update hdec hrow now hr
      · obtain ⟨x,s₁,m,hd,hk⟩ := Prog.eval_bind h
        have hs' : s' = s₁ := by cases x <;> exact (Prog.eval_ret.mp hk).2
        rw [hs']
        exact .of_calls _ (markAsDeleting_calls Call.keepsSpecs_of_neutral _ res.id trivial trivial
          trivial trivial trivial) hd
      · rw [(Prog.eval_ret.mp h).2]
        exact .of_eq rfl

end Effect

/-- A create request asks for no negative version, and an update request is not for a
row with the largest version there is. -/
def versionFits (ext : External) (svr : GRPCServer) (s : State) (turn : Turn) : Bool :=
  match turn.request with
  | .deliver _ => true
  | .publish req =>
    match svr.decodeRequest ext req with
    | .ok (_,some (.createRequest,res)) => 0 ≤ res.version
    | .ok (_,some (.updateRequest,res)) =>
      (s.resources.find res.id).all fun row => row.version ≠ Int32.maxValue
    | _ => true

theorem Int32.lt_succ {v : Int32} (h : v ≠ Int32.maxValue) : v < v + 1 := by
  have hmax : v.toInt ≠ 2147483647 := fun he => h (Int32.toInt_inj.mp (by rw [he]; rfl))
  have hlt := v.toInt_lt
  rw [Int32.lt_iff_toInt_lt,Int32.toInt_succ (by omega)]
  omega

section Versions

variable {ext : External} {svr : GRPCServer} {s s' : State} {turn : Turn}

/-- Every version is at least one. -/
def State.Versioned (s : State) : Prop :=
  ∀ id row, s.resources.find id = some row → 1 ≤ row.version

theorem one_le_created {v : Int32} (h : 0 ≤ v) : 1 ≤ if v = 0 then 1 else v := by
  split
  · exact Int32.le_refl 1
  · next hv =>
    have hne : v.toInt ≠ 0 := fun he => hv (Int32.toInt_inj.mp he)
    rw [Int32.le_iff_toInt_le] at h ⊢
    change 0 ≤ v.toInt at h
    change 1 ≤ v.toInt
    omega

theorem SpecEffect.versioned (h : SpecEffect ext svr s turn.request s')
    (hok : versionFits ext svr s turn) (hs : s.Versioned) : s'.Versioned := by
  obtain ⟨request,env⟩ := turn
  intro id row' hrow'
  cases h with
  | keep h =>
    obtain ⟨row,hrow,hv,-⟩ := h id row' hrow'
    exact hv ▸ hs id row hrow
  | create hd row hfree hv hp hr =>
    rw [hr,Table.find_insert] at hrow'
    split at hrow'
    · cases hrow'
      rw [hv]
      exact one_le_created (by simpa [versionFits,hd] using hok)
    · exact hs id row' hrow'
  | @update _ _ _ row _ hd hrow now hr =>
    rw [hr,Table.find_modify] at hrow'
    split at hrow'
    · next hid =>
      subst hid
      rw [hrow] at hrow'
      cases hrow'
      have hmax : row.version ≠ Int32.maxValue := by simpa [versionFits,hd,hrow] using hok
      exact Int32.le_trans (hs _ _ hrow) (Int32.le_of_lt (Int32.lt_succ hmax))
    · exact hs id row' hrow'

theorem SpecEffect.grows (h : SpecEffect ext svr s turn.request s')
    (hok : versionFits ext svr s turn) {id : String} {row row' : ResourceRow}
    (hrow : s.resources.find id = some row) (hrow' : s'.resources.find id = some row')
    (hp : row'.payload ≠ row.payload) : row.version < row'.version := by
  obtain ⟨request,env⟩ := turn
  cases h with
  | keep h =>
    obtain ⟨old,hold,-,hsame⟩ := h id row' hrow'
    rw [hrow] at hold
    cases hold
    exact absurd hsame hp
  | create hd new hfree hv hnew hr =>
    rw [hr,Table.find_insert,hrow] at hrow'
    split at hrow'
    · next hid => rw [← hid,hrow] at hfree; cases hfree
    · cases hrow'; exact absurd rfl hp
  | update hd hold now hr =>
    rw [hr,Table.find_modify,hrow] at hrow'
    split at hrow'
    · next hid =>
      subst hid
      rw [hrow] at hold
      cases hold
      cases hrow'
      exact Int32.lt_succ (by simpa [versionFits,hd,hrow] using hok)
    · cases hrow'; exact absurd rfl hp

end Versions

/-- Every version is at least one, and a request that changes a payload stores it
under a larger version. -/
theorem versions_grow (ext : External) (svr : GRPCServer) {s₀ s : State} {turns : List Turn}
    (h₀ : s₀.Versioned)
    (h : Serves ext svr (fun s turn => versionFits ext svr s turn) s₀ turns s) :
    s.Versioned ∧ ∀ turn r s', versionFits ext svr s turn →
      Prog.eval (exec turns.length) turn.env (turn.request.run ext svr) s = some (r,s') →
      ∀ id row row', s.resources.find id = some row → s'.resources.find id = some row' →
        row'.payload ≠ row.payload → row.version < row'.version := by
  refine ⟨?_,fun turn r s' hok hx id row row' hrow hrow' hp =>
    (serve_specEffect hx).grows hok hrow hrow' hp⟩
  induction h with
  | nil => exact h₀
  | snoc _ hok hx ih => exact (serve_specEffect hx).versioned hok ih

/-- A client's request on the bundle with a version of its own. -/
def versionedRequest (action name : String) (version : Int32) : Request :=
  .publish { event := .ok (Reference.specEvent action "src" "web" name version), user := "src" }

def serveAll (ok : State → Turn → Bool) (requests : List Request) : Option State :=
  serialRun exec (fun turn : Turn => turn.request.run Reference.packages openServer) Turn.env ok 0
    (untroubled requests) {}

def lateTurn (request : Request) : Turn :=
  ⟨request,fun k => Choice.counting (fun _ => none) (1000 + k)⟩

/-- The state before and after an update of the only bundle that was created with the
version, and its two rows. -/
def updateAfterCreate (ok : State → Turn → Bool) (version : Int32) :
    Option ((State × State) × ResourceRow × ResourceRow) := do
  let s ← serveAll ok [versionedRequest "create_request" "web" version]
  let turn := lateTurn (versionedRequest "update_request" "web" 0)
  if ok s turn then
    let (_,s') ← Prog.eval (exec 1) turn.env (turn.request.run Reference.packages openServer) s
    return ((s,s'),← s.resources.find "web",← s'.resources.find "web")
  else
    none

theorem updateAfterCreate_some {ok : State → Turn → Bool} {version : Int32} {s s' : State}
    {row row' : ResourceRow} (h : updateAfterCreate ok version = some ((s,s'),row,row')) :
    let turn := lateTurn (versionedRequest "update_request" "web" 0)
    (∃ turns, turns.length = 1 ∧
      Serves Reference.packages openServer (fun s turn => ok s turn) {} turns s) ∧ ok s turn ∧
      (∃ r, Prog.eval (exec 1) turn.env (turn.request.run Reference.packages openServer) s =
        some (r,s')) ∧
      s.resources.find "web" = some row ∧ s'.resources.find "web" = some row' := by
  simp only [updateAfterCreate,Option.bind_eq_bind,Option.bind_eq_some_iff] at h
  obtain ⟨s₁,hs,h⟩ := h
  split at h
  · next hok =>
    simp only [Option.bind_eq_some_iff,Option.pure_def,Option.some.injEq,Prod.mk.injEq] at h
    obtain ⟨⟨r,s₂⟩,hx,row₁,hrow,row₂,hrow',⟨rfl,rfl⟩,rfl,rfl⟩ := h
    exact ⟨⟨_,rfl,Serial.of_run .nil hs⟩,hok,⟨r,hx⟩,hrow,hrow'⟩
  · cases h

theorem versions_grow_once : ∃ turns s turn r s' row row', State.Versioned {} ∧
    Serves Reference.packages openServer
      (fun s turn => versionFits Reference.packages openServer s turn) {} turns s ∧
    versionFits Reference.packages openServer s turn ∧
    Prog.eval (exec turns.length) turn.env (turn.request.run Reference.packages openServer) s =
      some (r,s') ∧
    s.resources.find "web" = some row ∧ s'.resources.find "web" = some row' ∧
    row'.payload ≠ row.payload ∧ s.Versioned ∧ row.version < row'.version := by
  have h : (updateAfterCreate (versionFits Reference.packages openServer) 0).any
      (fun x => decide (x.2.2.payload ≠ x.2.1.payload)) := by decide +kernel
  obtain ⟨⟨⟨s,s'⟩,row,row'⟩,hr,hp⟩ := (Option.any_eq_true _ _).mp h
  obtain ⟨⟨turns,hlen,hserves⟩,hok,⟨r,hx⟩,hrow,hrow'⟩ := updateAfterCreate_some hr
  have hp := of_decide_eq_true hp
  have h₀ : State.Versioned {} := fun id row hrow => by cases hrow
  rw [← hlen] at hx
  obtain ⟨hs,hgrow⟩ := versions_grow Reference.packages openServer h₀ hserves
  exact ⟨turns,s,_,r,s',row,row',h₀,hserves,hok,hx,hrow,hrow',hp,hs,
    hgrow _ r s' hok hx "web" row row' hrow hrow' hp⟩

/-- A client creates its bundle with version -5, which is stored; another creates it
with the largest version, and the next update wraps around. -/
theorem version_negative_and_wraps :
    (∃ turns s, Serves Reference.packages openServer (fun _ _ => true) {} turns s ∧
      ¬ s.Versioned) ∧
    ∃ turns s, ∃ turn : Turn, ∃ r s' row row',
      Serves Reference.packages openServer (fun _ _ => true) {} turns s ∧
      Prog.eval (exec turns.length) turn.env (turn.request.run Reference.packages openServer) s =
        some (r,s') ∧
      s.resources.find "web" = some row ∧ s'.resources.find "web" = some row' ∧
      row'.payload ≠ row.payload ∧ row'.version < row.version := by
  constructor
  · have h : (updateAfterCreate (fun _ _ => true) (-5)).any
        (fun x => decide (x.2.1.version < 1)) := by decide +kernel
    obtain ⟨⟨⟨s,s'⟩,row,row'⟩,hr,hv⟩ := (Option.any_eq_true _ _).mp h
    obtain ⟨⟨turns,-,hserves⟩,-,-,hrow,-⟩ := updateAfterCreate_some hr
    exact ⟨turns,s,hserves,fun hs =>
      Int32.lt_irrefl (Int32.lt_of_le_of_lt (hs "web" row hrow) (of_decide_eq_true hv))⟩
  · have h : (updateAfterCreate (fun _ _ => true) Int32.maxValue).any
        (fun x => decide (x.2.2.payload ≠ x.2.1.payload ∧ x.2.2.version < x.2.1.version)) := by
      decide +kernel
    obtain ⟨⟨⟨s,s'⟩,row,row'⟩,hr,hv⟩ := (Option.any_eq_true _ _).mp h
    obtain ⟨⟨turns,hlen,hserves⟩,-,⟨r,hx⟩,hrow,hrow'⟩ := updateAfterCreate_some hr
    obtain ⟨hp,hlt⟩ := of_decide_eq_true hv
    rw [← hlen] at hx
    exact ⟨turns,s,_,r,s',row,row',hserves,hx,hrow,hrow',hp,hlt⟩

end Maestro
