import Maestro.Api.Reference
import Maestro.Data.Search
import Maestro.Server.Requests
import Maestro.Services.Evaluation

namespace Maestro
open Concurrent Data

/-- The act begins or ends an incarnation of the ID. -/
def Act.bounds (id : String) : Act → Prop
  | .insertedResource row => row.id = id
  | .hardDeleted row => row.id = id
  | _ => False

/-- The request makes `MarkAsDeleting` mark this ID. -/
def Request.marks (ext : External) (svr : GRPCServer) (id : String) : Request → Prop
  | .publish req => ∃ evt res,
    svr.decodeRequest ext req = .ok (evt,some (.deleteRequest,res)) ∧ res.id = id
  | .deliver _ => False

/-- The row that `HandleStatusUpdate` would hard-delete for a message. -/
def reportedDeleted (ext : External) (s : State) (resource : Resource) : Option ResourceRow :=
  (s.resources.find resource.id).filter fun row =>
    let found := syncTimestampsFromResourceMeta ext row.scan
    decide (found.consumerName = resource.consumerName) &&
      match fillStatus ext resource found with
      | .ok (_,deleted) => deleted
      | .error _ => false

/-- A message that reports a resource as deleted finds it marked. -/
def findsMarked (ext : External) (s : State) (turn : Turn) : Bool :=
  match turn.request with
  | .publish _ => true
  | .deliver resource => (reportedDeleted ext s resource).all fun row => row.deletedAt.isSome

section Marks

variable (ext : External) (svr : GRPCServer) (s₀ : State)

/-- The incarnation of `id` at the end of the journal was marked at `time`: by one of
the turns, or before the first. -/
def MarkedAt (turns : List Turn) (journal : List Entry) (id : String) (time : Time) : Prop :=
  (∃ pre u post turn, journal = pre ++ ⟨u,.softDeleted id time⟩ :: post ∧
    (∀ e ∈ post, ¬ e.act.bounds id) ∧ turns[u]? = some turn ∧ turn.request.marks ext svr id) ∨
  ((s₀.resources.find id).bind ResourceRow.deletedAt = some time ∧
    ∀ e ∈ journal, ¬ e.act.bounds id)

/-- Rows that are marked, and rows that were removed, were marked in their incarnation. -/
structure Marks (turns : List Turn) (s : State) : Prop where
  rows : ∀ id row time, s.resources.find id = some row → row.deletedAt = some time →
    MarkedAt ext svr s₀ turns s.journal id time
  removals : ∀ pre u row post, s.journal = pre ++ ⟨u,.hardDeleted row⟩ :: post →
    ∃ time, row.deletedAt = some time ∧ MarkedAt ext svr s₀ turns pre row.id time

variable {ext svr s₀} {turns : List Turn} {turn : Turn} {s s' : State}

theorem MarkedAt.append {journal new : List Entry} {id : String} {time : Time}
    (h : MarkedAt ext svr s₀ turns journal id time) (hn : ∀ e ∈ new, ¬ e.act.bounds id) :
    MarkedAt ext svr s₀ turns (journal ++ new) id time := by
  rcases h with ⟨pre,u,post,turn,rfl,hp,ht,hm⟩ | ⟨hi,hj⟩
  · refine Or.inl ⟨pre,u,post ++ new,turn,by simp,?_,ht,hm⟩
    intro e he
    rcases List.mem_append.mp he with he | he
    · exact hp e he
    · exact hn e he
  · refine Or.inr ⟨hi,fun e he => ?_⟩
    rcases List.mem_append.mp he with he | he
    · exact hj e he
    · exact hn e he

theorem MarkedAt.snoc {journal : List Entry} {id : String} {time : Time}
    (h : MarkedAt ext svr s₀ turns journal id time) (turn : Turn) :
    MarkedAt ext svr s₀ (turns ++ [turn]) journal id time := by
  rcases h with ⟨pre,u,post,t,hj,hp,ht,hm⟩ | h
  · refine Or.inl ⟨pre,u,post,t,hj,hp,?_,hm⟩
    rw [List.getElem?_append_left (List.getElem?_eq_some_iff.mp ht).1]
    exact ht
  · exact Or.inr h

theorem Marks.snoc (h : Marks ext svr s₀ turns s) (turn : Turn) :
    Marks ext svr s₀ (turns ++ [turn]) s where
  rows id row time hr hd := (h.rows id row time hr hd).snoc turn
  removals pre u row post hj := by
    obtain ⟨time,hd,hm⟩ := h.removals pre u row post hj
    exact ⟨time,hd,hm.snoc turn⟩

/-- A change keeps the marks when it marks and removes no row, and begins no
incarnation of a marked one. -/
theorem Marks.keep (h : Marks ext svr s₀ turns s) {new : List Entry}
    (hj : s'.journal = s.journal ++ new)
    (hrow : ∀ id row, s'.resources.find id = some row → row.deletedAt ≠ none →
      (∃ row₀, s.resources.find id = some row₀ ∧ row₀.deletedAt = row.deletedAt) ∧
        ∀ e ∈ new, ¬ e.act.bounds id)
    (hn : ∀ e ∈ new, ∀ row, e.act ≠ .hardDeleted row) : Marks ext svr s₀ turns s' where
  rows id row time hr hd := by
    obtain ⟨⟨row₀,hr₀,hd₀⟩,hb⟩ := hrow id row hr (by simp [hd])
    rw [hj]
    exact (h.rows id row₀ time hr₀ (hd₀.trans hd)).append hb
  removals pre u row post he := by
    rw [hj] at he
    rcases append_split he with ⟨rest,he,-⟩ | ⟨mid,rfl,-⟩
    · exact h.removals pre u row rest he
    · exact absurd rfl (hn ⟨u,.hardDeleted row⟩ (by simp) row)

theorem Marks.softDelete (h : Marks ext svr s₀ turns s) {u : ℕ} {id : String} (now : Time)
    {row : ResourceRow} (hrow : s.resources.find id = some row) (hd : row.deletedAt = none)
    (hu : turns[u]? = some turn) (hm : turn.request.marks ext svr id) :
    Marks ext svr s₀ turns (s.softDelete u id now) where
  rows k row' time hr ht := by
    rw [State.find_softDelete] at hr
    split at hr
    · next hk =>
      subst hk
      rw [hrow,Option.map_some] at hr
      cases hr
      simp only [ResourceRow.setDeletedAt,hd,Option.getD_none,Option.some.injEq] at ht
      subst ht
      exact Or.inl ⟨s.journal,u,[],turn,rfl,by simp,hu,hm⟩
    · exact (h.rows k row' time hr ht).append (by simp [Act.bounds])
  removals pre v row' post he := by
    rcases append_split he with ⟨rest,he,-⟩ | ⟨mid,hnew,-⟩
    · exact h.removals pre v row' rest he
    · have : (⟨v,.hardDeleted row'⟩ : Entry) ∈ [(⟨u,.softDeleted id now⟩ : Entry)] := by
        rw [show [(⟨u,.softDeleted id now⟩ : Entry)] = _ from hnew]
        simp
      simp at this

theorem Marks.hardDelete (h : Marks ext svr s₀ turns s) (u : ℕ) {id : String} {row : ResourceRow}
    (hrow : s.resources.find id = some row) (hd : row.deletedAt ≠ none) :
    Marks ext svr s₀ turns (s.hardDelete u row) where
  rows k row' time hr ht := by
    rw [State.find_hardDelete] at hr
    split at hr
    · cases hr
    · next hk => exact (h.rows k row' time hr ht).append (by simp [Act.bounds,Ne.symm hk])
  removals pre v row' post he := by
    rcases append_split he with ⟨rest,he,-⟩ | ⟨mid,hnew,rfl⟩
    · exact h.removals pre v row' rest he
    · cases mid with
      | nil =>
        simp only [List.map_cons,List.map_nil,List.nil_append,List.cons.injEq,Entry.mk.injEq,
          Act.hardDeleted.injEq] at hnew
        obtain ⟨⟨-,rfl⟩,-⟩ := hnew
        obtain ⟨time,ht⟩ := Option.ne_none_iff_exists'.mp hd
        rw [List.append_nil]
        have hid : row.id = id := Table.find_some_key hrow
        exact ⟨time,ht,h.rows row.id row time (hid ▸ hrow) ht⟩
      | cons x mid => simp at hnew

/-- One call keeps the marks: a row is inserted unmarked, marked only by a request
that asks for it and removed only when it is marked. -/
theorem Marks.exec {u : ℕ} {ch : Choice} {c : Call} {r : c.Resp} (h : Marks ext svr s₀ turns s)
    (hu : turns[u]? = some turn)
    (hc : ∀ resource, c = .createResource resource → resource.deletedAt.valid = false)
    (hs : ∀ id, c = .deleteResource id false → turn.request.marks ext svr id)
    (hd : ∀ id row, c = .deleteResource id true → s.resources.find id = some row →
      row.deletedAt ≠ none)
    (hx : Maestro.exec u ch c s = some (r,s')) : Marks ext svr s₀ turns s' := by
  cases exec_rowEffect hx with
  | quiet acts hr hj hq =>
    have hb : ∀ e ∈ acts.map (Entry.mk u), ∀ id, ¬ e.act.bounds id ∧
        ∀ row, e.act ≠ .hardDeleted row := by
      intro e he id
      obtain ⟨a,ha,rfl⟩ := List.mem_map.mp he
      have := (hq a ha).quiet
      cases a <;> simp_all [Act.quiet,Act.bounds]
    exact h.keep hj (fun id row hrow _ => ⟨⟨row,hr ▸ hrow,rfl⟩,fun e he => (hb e he id).1⟩)
      fun e he row => (hb e he "").2 row
  | insert resource now uuid hfree =>
    refine h.keep rfl (fun id row hrow hne => ?_) (by simp)
    rw [State.find_insertResource] at hrow
    split at hrow
    · cases hrow
      simp [Resource.row,Resource.beforeCreate,hc resource rfl] at hne
    · next hid => exact ⟨⟨row,hrow,rfl⟩,by simp [Act.bounds,Ne.symm hid]⟩
  | spec version payload now hrow₀ =>
    refine h.keep rfl (fun id row hrow _ => ⟨?_,by simp [Act.bounds]⟩) (by simp)
    rw [State.find_writeSpec] at hrow
    split at hrow
    · obtain ⟨row₀,hr₀,rfl⟩ := Option.map_eq_some_iff.mp hrow
      exact ⟨row₀,hr₀,rfl⟩
    · exact ⟨row,hrow,rfl⟩
  | status status now hrow₀ =>
    refine h.keep rfl (fun id row hrow _ => ⟨?_,by simp [Act.bounds]⟩) (by simp)
    rw [State.find_writeStatus] at hrow
    split at hrow
    · obtain ⟨row₀,hr₀,rfl⟩ := Option.map_eq_some_iff.mp hrow
      exact ⟨row₀,hr₀,rfl⟩
    · exact ⟨row,hrow,rfl⟩
  | soft now hrow hlive => exact h.softDelete now hrow hlive hu (hs _ rfl)
  | hard hrow => exact h.hardDelete u hrow (hd _ _ rfl hrow)

/-- The calls that keep the marks in every state. -/
def Call.tame (ext : External) (svr : GRPCServer) (turn : Turn) : Call → Prop
  | .createResource resource => resource.deletedAt.valid = false
  | .deleteResource id unscoped => unscoped = false ∧ turn.request.marks ext svr id
  | _ => True

theorem Call.tame_of_neutral (c : Call) (h : c.neutral) : c.tame ext svr turn := by
  cases c <;> trivial

theorem Marks.eval {α : Type} {Q : α → Prop} {p : M α} {env : ℕ → Choice} {a : α} {u : ℕ}
    (hu : turns[u]? = some turn) (hp : p.Calls Answers (Call.tame ext svr turn) Q)
    (hx : Prog.eval (Maestro.exec u) env p s = some (a,s')) (h : Marks ext svr s₀ turns s) :
    Marks ext svr s₀ turns s' := by
  refine eval_invariant (I := Marks ext svr s₀ turns) ?_ hp h hx
  intro ch c s r s' hc hx hm
  refine hm.exec hu ?_ ?_ ?_ hx
  · rintro resource rfl; exact hc
  · rintro id rfl; exact hc.2
  · rintro id row rfl; cases hc.1

theorem publish_marks {req : PublishRequest} {env : ℕ → Choice} {a : Except String Unit} {u : ℕ}
    (hu : turns[u]? = some ⟨.publish req,env⟩)
    (hx : Prog.eval (Maestro.exec u) env (svr.publish ext req) s = some (a,s'))
    (h : Marks ext svr s₀ turns s) : Marks ext svr s₀ turns s' := by
  refine h.eval hu (publish_calls ext svr req (fun _ => trivial) (fun _ => trivial)
    fun evt action res hdec => ?_) hx
  have hv := (decodeResourceSpec_ok ext (GRPCServer.decodeRequest_some hdec).2).1
  refine dispatch_calls Call.tame_of_neutral ext svr action res (fun _ => ⟨hv,fun _ _ => trivial⟩)
    (fun _ _ _ => ⟨trivial,trivial⟩) ?_ trivial trivial
  rintro rfl
  exact ⟨⟨rfl,evt,res,hdec,rfl⟩,trivial,trivial⟩

theorem deliver_marks {resource : Resource} {env : ℕ → Choice} {a : Except String Unit} {u : ℕ}
    (hu : turns[u]? = some ⟨.deliver resource,env⟩)
    (hx : Prog.eval (Maestro.exec u) env (handleStatusUpdate ext resource) s = some (a,s'))
    (hm : ∀ row, reportedDeleted ext s resource = some row → row.deletedAt ≠ none)
    (h : Marks ext svr s₀ turns s) : Marks ext svr s₀ turns s' := by
  obtain ⟨r,s₁,m,hg,hk⟩ := Prog.eval_bind hx
  have h₁ := h.eval hu (get_calls ext resource.id trivial) hg
  obtain ⟨hs₁,hfound⟩ := eval_get hg
  cases r with
  | error err =>
    dsimp only at hk
    split at hk <;> (cases hk; exact h₁)
  | ok found =>
    obtain ⟨row,hrow,rfl⟩ := hfound found rfl
    have hrow₁ : s₁.resources.find resource.id = some row := by
      rcases hs₁ with rfl | rfl <;> exact hrow
    dsimp only at hk
    split at hk
    · cases hk; exact h₁
    · next hcons =>
      cases hf : fillStatus ext resource (syncTimestampsFromResourceMeta ext row.scan) with
      | error err => rw [hf] at hk; cases hk; exact h₁
      | ok p =>
        obtain ⟨status,deleted⟩ := p
        rw [hf] at hk
        cases deleted with
        | false => exact h₁.eval hu (handleUpdated_calls Call.tame_of_neutral ext _ trivial trivial
            (fun _ => trivial) trivial) hk
        | true =>
          have hd : row.deletedAt ≠ none := hm row (by
            simp [reportedDeleted,hrow,hf,not_not.mp hcons])
          obtain ⟨r,s₂,m',he,hk⟩ := Prog.eval_bind hk
          have h₂ := h₁.eval hu (statusEvent_calls Call.tame_of_neutral trivial) he
          have hr₂ := eval_rowless (statusEvent_calls Call.rowless_of_neutral trivial) he
          cases r with
          | error err => cases hk; exact h₂
          | ok e =>
            obtain ⟨r,s₃,m₂,hd',hk⟩ := Prog.eval_bind hk
            obtain ⟨r₃,s₄,m₃,hf,hr⟩ := Prog.eval_bind hd'
            have hx := Prog.eval_lift.mp (eval_flagging hf)
            have h₃ := h₂.exec hu (by simp) (by simp) (fun id row' hid hrow' => by
              cases hid
              rw [hr₂,hrow₁] at hrow'
              cases hrow'
              exact hd) hx
            cases r₃ <;> cases hr <;> cases hk <;> exact h₃

end Marks

/-- A row is removed only after `MarkAsDeleting` marked its incarnation, as long as
no message reports an unmarked resource as deleted. -/
theorem removed_only_marked (ext : External) (svr : GRPCServer) {s₀ s : State}
    {turns : List Turn} (hj : s₀.journal = [])
    (h : Serves ext svr (fun s turn => findsMarked ext s turn) s₀ turns s) :
    ∀ pre u row post, s.journal = pre ++ ⟨u,.hardDeleted row⟩ :: post →
      ∃ time, row.deletedAt = some time ∧ MarkedAt ext svr s₀ turns pre row.id time := by
  suffices Marks ext svr s₀ turns s from this.removals
  induction h with
  | nil =>
    refine ⟨fun id row time hr hd => Or.inr ⟨by rw [hr]; exact hd,by simp [hj]⟩,?_⟩
    intro pre u row post he
    simp [hj] at he
  | @snoc turns s s' turn r _ hok hx ih =>
    have hu : (turns ++ [turn])[turns.length]? = some turn := by simp
    obtain ⟨request,env⟩ := turn
    cases request with
    | publish req => exact publish_marks hu hx (ih.snoc _)
    | deliver resource =>
      refine deliver_marks hu hx (fun row hrow => ?_) (ih.snoc _)
      simpa [findsMarked,hrow,Option.isSome_iff_ne_none] using hok

/-- A client that creates and deletes a bundle, and its agent's report. -/
def clientRequest (action src : String) : Request :=
  .publish { event := .ok (Reference.specEvent action src "web" "web" 0), user := src }

def agentReport (condition sequenceID : String) : Request :=
  .deliver
    { id := "web"
      consumerName := "cluster"
      version := 1
      status := Reference.statusWith condition sequenceID }

/-- Requests served without failures, the clock and the UUIDs going on. -/
def untroubled (requests : List Request) : List Turn :=
  requests.zipIdx.map fun p => ⟨p.1,fun k => Choice.counting (fun _ => none) (100 * p.2 + k)⟩

def openServer : GRPCServer := ⟨true,fun _ _ _ _ _ => .ok true,0⟩

def isRemoval (e : Entry) (marked : Bool) : Bool :=
  match e.act with
  | .hardDeleted row => row.deletedAt.isSome = marked
  | _ => false

theorem removed_once_marked : ∃ turns s,
    Serves Reference.packages openServer (fun s turn => findsMarked Reference.packages s turn) {} turns s ∧
      (∃ e ∈ s.journal, isRemoval e true) ∧
      ∀ pre u row post, s.journal = pre ++ ⟨u,.hardDeleted row⟩ :: post →
        ∃ time, row.deletedAt = some time ∧
          MarkedAt Reference.packages openServer {} turns pre row.id time := by
  have h : (serialRun exec (fun turn : Turn => turn.request.run Reference.packages openServer) Turn.env
      (findsMarked Reference.packages) 0 (untroubled [clientRequest "create_request" "src",
        clientRequest "delete_request" "src",agentReport "Deleted" "7"]) {}).any
      (fun s => s.journal.any (isRemoval · true)) := by decide +kernel
  obtain ⟨s,hr,hs⟩ := (Option.any_eq_true _ _).mp h
  have hserves := Serial.of_run .nil hr
  exact ⟨_,s,hserves,List.any_eq_true.mp hs,removed_only_marked Reference.packages openServer rfl hserves⟩

/-- The report of the first incarnation is delivered again after the ID was created
again: the new row goes, and nobody asked for that. -/
theorem replayed_report_removes_live_row : ∃ turns s e,
    Serves Reference.packages openServer (fun _ _ => true) {} turns s ∧ e ∈ s.journal ∧
      isRemoval e false := by
  have h : (serialRun exec (fun turn : Turn => turn.request.run Reference.packages openServer) Turn.env
      (fun _ _ => true) 0 (untroubled [clientRequest "create_request" "src",
        clientRequest "delete_request" "src",agentReport "Deleted" "7",
        clientRequest "create_request" "src",agentReport "Deleted" "7"]) {}).any
      (fun s => s.journal.any (isRemoval · false)) := by decide +kernel
  obtain ⟨s,hr,hs⟩ := (Option.any_eq_true _ _).mp h
  obtain ⟨e,he,hrem⟩ := List.any_eq_true.mp hs
  exact ⟨_,s,e,Serial.of_run .nil hr,he,hrem⟩

end Maestro
