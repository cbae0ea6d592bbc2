import Maestro.Server.Pipeline
import Maestro.Server.Requests
import Maestro.Services.Locking

/-!
# What the sessions of the status pipeline do

`pipelineRule` says after which acts of its own a session may send, record, select, purge or
hand out. Every session keeps to it, in every run of `clusterExec` and of its restrictions, and
`StatusTask.Post` says what a finished worker and a finished purge have done.
-/

namespace Maestro
open Concurrent Data StatusController

/-- What `Start` does in the round of a resource and the clients that it finds. -/
def roundActs (round : Resource × List Client) : List StatusAct :=
  .received round.1 :: .locked round.2 ::
    ((round.2.filter fun client => client.source = round.1.source).map (.handed · round.1) ++
      [.unlocked])

/-- What `Start` does in whole rounds. -/
def roundsActs (rounds : List (Resource × List Client)) : List StatusAct := rounds.flatMap roundActs

/-- The copy of a deleted resource in its status event. -/
def StatusEvent.deletedResource (e : StatusEvent) : Resource :=
  { id := e.resourceID
    version := 0
    consumerName := ""
    source := e.resourceSource
    type := e.resourceType
    payload := e.payload.scan
    status := e.status.scan }

/-- What a session may broadcast after its acts: a resource that it read, or the copy in the
StatusDelete event that it took. -/
inductive Sends (ext : External) : List StatusAct → Resource → Prop
  | stored {A : List StatusAct} {rows : List ResourceRow} {sent : List Resource}
      {row : ResourceRow} {res : Resource} (hrow : row ∈ rows)
      (hres : res = row.scan ∨ res = syncTimestampsFromResourceMeta ext row.scan) :
      Sends ext (A ++ .read rows :: sent.map .sent) res
  | deleted {A : List StatusAct} {e : StatusEvent} (hd : e.statusEventType = .statusDelete) :
      Sends ext (A ++ [.tookEvent e]) e.deletedResource

/-- What a session may record after its acts: an event that it took and whose resource it has
just broadcast. -/
inductive Announces (ext : External) (instanceID : String) : List StatusAct → EventInstance → Prop
  | mk {A : List StatusAct} {e : StatusEvent} {res : Resource} (hs : Sends ext A res)
      (he : .tookEvent e ∈ A) (hid : res.id = e.resourceID) :
      Announces ext instanceID (A ++ [.sent res]) ⟨e.id,instanceID⟩

/-- The status events that a message makes. -/
inductive Reports (ext : External) (message : Resource) : List StatusAct → StatusEvent → Prop
  | update {A : List StatusAct} :
      Reports ext message A { resourceID := message.id, statusEventType := .statusUpdate }
  | delete {row : ResourceRow} {status : JSONMap} (hid : row.id = message.id)
      (hfill : fillStatus ext message (syncTimestampsFromResourceMeta ext row.scan) =
        .ok (status,true)) :
      Reports ext message [.read [row]]
        { resourceID := message.id
          resourceSource := (syncTimestampsFromResourceMeta ext row.scan).source
          resourceType := message.type
          payload := (syncTimestampsFromResourceMeta ext row.scan).payload
          status := status
          statusEventType := .statusDelete }

def StatusTask.Broadcasts (task : StatusTask) : Prop := ∃ rounds, task = .broadcaster rounds

/-- What a session may do after its acts. -/
def pipelineRule (ext : External) (svr : GRPCServer) {n : ℕ} (inst : Fin n → String)
    (tasks : Fin n → StatusTask) (i : Fin n) (c : ClusterCall) (s : Cluster) : Prop :=
  match c with
  | .inl (.broadcast res) => Sends ext (s.acts i) res
  | .inl (.createStatusEvent e) =>
    ∃ message, tasks i = .report message ∧ Reports ext message (s.acts i) e
  | .inr (.createEventInstance row) => Announces ext (inst i) (s.acts i) row
  | .inr (.findEventsOf ids) => ids ≠ [] ∧ s.acts i = [.ready ids]
  | .inr (.deleteStatusEvents ids) => ∃ ready sel purges, ready ≠ [] ∧
    s.acts i = .ready ready :: .selected sel :: purges ∧ ids ∈ batchStatusEventIDs sel 500
  | .inr (.register client) => ∃ req, tasks i = .subscribe req ∧
    svr.authorizeSubscribe req = .ok () ∧ client.source = req.source
  | .inr .receive => (tasks i).Broadcasts ∧ ∃ rounds, s.acts i = roundsActs rounds
  | .inr .rLock => (tasks i).Broadcasts ∧
    ∃ rounds res, s.acts i = roundsActs rounds ++ [.received res]
  | .inr (.hand client res) => (tasks i).Broadcasts ∧ client.source = res.source ∧
    ∃ rounds clients done rest, clients = done ++ client :: rest ∧
      s.acts i = roundsActs rounds ++ .received res :: .locked clients ::
        (done.filter fun client => client.source = res.source).map (.handed · res)
  | .inr .rUnlock => (tasks i).Broadcasts ∧ ∃ rounds res clients,
    s.acts i = roundsActs rounds ++ .received res :: .locked clients ::
      (clients.filter fun client => client.source = res.source).map (.handed · res)
  | _ => True

/-- Calls without a rule. -/
def ClusterCall.unruled : ClusterCall → Prop
  | .inl (.broadcast _) | .inl (.createStatusEvent _) => False
  | .inl _ => True
  | .inr (.saveInstance _) | .inr (.markInstances _ _) | .inr .newUUID | .inr (.unregister _)
  | .inr (.takeStatusEvent _) | .inr .findReadyIDs => True
  | .inr _ => False

theorem pipelineRule_of_unruled {ext : External} {svr : GRPCServer} {n : ℕ} {inst : Fin n → String}
    {tasks : Fin n → StatusTask} {i : Fin n} {c : ClusterCall} {s : Cluster} (h : c.unruled) :
    pipelineRule ext svr inst tasks i c s := by
  rcases c with c | c <;> cases c <;> trivial

/-- Calls of the services that show nothing to the pipeline. -/
def Call.silent : Call → Prop
  | .takeResource _ | .findResourcesBySource _ | .broadcast _ => False
  | _ => True

theorem Call.statusActs_silent {c : Call} (h : c.silent) (s : State) (r : c.Resp) :
    c.statusActs s r = [] := by
  cases c <;> first | rfl | exact h.elim

theorem Call.silent_of_neutral (c : Call) (h : c.neutral) : c.silent := by
  cases c <;> trivial

/-- The acts of a worker that has handled a status event without an error. -/
inductive Handled (key instanceID : String) : List StatusAct → Prop
  | absent : Handled key instanceID [.missedEvent key]
  | reconciled {e : StatusEvent} (h : e.reconciledDate.isSome) :
      Handled key instanceID [.tookEvent e]
  | vanished {e : StatusEvent} :
      Handled key instanceID [.tookEvent e,.tookEvent e,.missedResource e.resourceID]
  | recorded {A : List StatusAct} : Handled key instanceID (A ++ [.recorded ⟨key,instanceID⟩])
  | misled {A : List StatusAct} : Handled key instanceID (A ++ [.refused .recordNotFound])

/-- One purge for each batch, in order. -/
def Purges (batches : List (List String)) (acts : List StatusAct) : Prop :=
  List.Forall₂ (fun ids act => ∃ events instances, act = .purged ids events instances) batches acts

/-- The acts of a finished purge of status events. -/
inductive PurgeRun : List StatusAct → SyncStatus → Prop
  | refused {A : List StatusAct} {err : DbErr} : PurgeRun (A ++ [.refused err]) .error
  | idle : PurgeRun [.ready []] .success
  | done {ready sel : List String} {purges : List StatusAct} (hr : ready ≠ [])
      (hp : Purges (batchStatusEventIDs sel 500) purges) :
      PurgeRun (.ready ready :: .selected sel :: purges) .success

def StatusTask.Post (instanceID : String) (t : ℕ) (task : StatusTask) (reply : StatusReply)
    (s : Cluster) : Prop :=
  match task with
  | .work _ key => reply = .handled (.ok ()) → Handled key instanceID (s.acts t)
  | .sync => ∃ status, reply = .synced status ∧ PurgeRun (s.acts t) status
  | _ => True

def ClusterAnswers : (c : ClusterCall) → ClusterCall.Resp c → Prop
  | .inl c, r => Answers c r
  | .inr _, _ => True

theorem clusterExec_answers {instanceID : String} {t : ℕ} {ch : ClusterChoice} {c : ClusterCall}
    {r : ClusterCall.Resp c} {s s' : Cluster}
    (h : clusterExec instanceID t ch c s = some (r,s')) : ClusterAnswers c r := by
  cases c with
  | inl c =>
    obtain ⟨-,state,hx,-⟩ := clusterExec_inl h
    exact exec_answers hx
  | inr c => trivial

/-- The calls of the sessions are those of `clusterExec`, though not always all of them. -/
def Pipelined {n : ℕ} (inst : Fin n → String)
    (pool : Fin n → ClusterChoice → (c : ClusterCall) → Cluster →
      Option (ClusterCall.Resp c × Cluster)) : Prop :=
  ∀ i ch c s r s', pool i ch c s = some (r,s') → clusterExec (inst i) i ch c s = some (r,s')

theorem flaggingStatus_calls {α : Type} {P : ClusterCall → Prop}
    (hf : ∀ err, P (.inl (.markForRollback err))) {p : StatusM (Except DbErr α)}
    (hp : p.Calls ClusterAnswers P fun _ => True) :
    (flaggingStatus p).Calls ClusterAnswers P fun _ => True :=
  hp.bind fun r _ => by
    cases r with
    | error err => exact ⟨hf err,fun _ _ => trivial⟩
    | ok a => trivial

theorem readinessWrites_calls {P : ClusterCall → Prop}
    (hf : ∀ err, P (.inl (.markForRollback err))) (hsave : ∀ row, P (.inr (.saveInstance row)))
    (hmark : ∀ ids ready, P (.inr (.markInstances ids ready))) (writes : List InstanceWrite) :
    (readinessWrites writes).Calls ClusterAnswers P fun _ => True := by
  induction writes with
  | nil => trivial
  | cons write writes ih =>
    cases write with
    | save row =>
      exact .bind (flaggingStatus_calls hf (.lift (hsave row) fun _ _ => trivial)) fun _ _ => ih
    | mark ids ready =>
      exact .bind (flaggingStatus_calls hf (.lift (hmark ids ready) fun _ _ => trivial))
        fun _ _ => ih

namespace Pipelined

variable {ext : External} {svr : GRPCServer} {n : ℕ} {inst : Fin n → String}
    {tasks : Fin n → StatusTask}
    {pool : Fin n → ClusterChoice → (c : ClusterCall) → Cluster →
      Option (ClusterCall.Resp c × Cluster)}
    (hpool : Pipelined inst pool) {i : Fin n} {α : Type} {Q : α → Cluster → Prop}
    {A : List StatusAct}

include hpool

theorem stable_acts {allowed : Fin n → ClusterCall → Cluster → Prop} (A : List StatusAct) :
    Stable pool allowed i fun s => s.acts i = A :=
  fun j hj ch c s r s' _ hx hA => (clusterExec_acts_ne (val_ne hj) (hpool j ch c s r s' hx)).trans hA

/-- One call of a session, after the acts `A`. -/
theorem safe_perform {allowed : Fin n → ClusterCall → Cluster → Prop} {c : StatusCall}
    {f : c.Resp → StatusM α} (ha : ∀ s, s.acts i = A → allowed i (.inr c) s)
    (hk : ∀ ch s (r : c.Resp) s', clusterExec (inst i) i ch (.inr c) s = some (r,s') →
      ∃ acts, s'.acts i = s.acts i ++ acts ∧
        Safe pool allowed i Q (f r) fun s => s.acts i = A ++ acts) :
    Safe pool allowed i Q (performStatus c >>= f) fun s => s.acts i = A := by
  refine Safe.call fun s hA => ⟨ha s hA,fun ch r s₁ hx => ?_⟩
  obtain ⟨acts,hacts,hsafe⟩ := hk ch s r s₁ (hpool i ch _ s r s₁ hx)
  exact ⟨_,hpool.stable_acts _,hacts.trans (by rw [hA]),hsafe⟩

omit hpool in
/-- An assertion about the acts of a session may be split into their values. -/
theorem safe_of_acts {allowed : Fin n → ClusterCall → Cluster → Prop} {p : StatusM α}
    (φ : List StatusAct → Prop)
    (h : ∀ A, φ A → Safe pool allowed i Q p fun s => s.acts i = A) :
    Safe pool allowed i Q p fun s => φ (s.acts i) :=
  Safe.weaken (P := fun s => ∃ A, φ A ∧ s.acts i = A)
    (Safe.exists fun A => Safe.of_fact (h A)) (fun s hs => ⟨s.acts i,hs,rfl⟩) fun _ _ h => h

/-- A session that makes only calls without a rule. -/
theorem safe_unruled {p : StatusM α} (hp : p.Calls ClusterAnswers ClusterCall.unruled fun _ => True) :
    Safe pool (pipelineRule ext svr inst tasks) i (fun _ _ => True) p fun _ => True := by
  refine (Safe.of_own (P := fun _ => True)
    (fun o c s r s' hx => clusterExec_answers (hpool i o c s r s' hx)) (.const True)
    (fun _ _ hc _ => pipelineRule_of_unruled hc) (fun _ _ _ _ _ _ _ _ => trivial) hp).weaken
    (fun _ h => h) fun _ _ _ => trivial

/-- A part of a session that shows nothing to the pipeline leaves its acts alone. -/
theorem safe_silent {p : M α} {V : Call → Prop} (hp : p.Calls Answers V fun _ => True)
    (hV : ∀ c, V c → c.silent)
    (ha : ∀ c s, V c → s.acts i = A → pipelineRule ext svr inst tasks i (.inl c) s) :
    Safe pool (pipelineRule ext svr inst tasks) i (fun _ s => s.acts i = A) (p.inl : StatusM α)
      fun s => s.acts i = A := by
  have hcalls : (p.inl : StatusM α).Calls ClusterAnswers
      (fun c => ∃ c', c = .inl c' ∧ V c') fun _ => True :=
    hp.inl (fun _ _ hr => hr) fun c hc => ⟨c,rfl,hc⟩
  refine (Safe.of_own (fun o c s r s' hx => clusterExec_answers (hpool i o c s r s' hx))
    (hpool.stable_acts A) ?_ ?_ hcalls).weaken (fun _ h => h) fun _ _ h => h.1
  · rintro c s ⟨c',rfl,hc⟩ hs
    exact ha c' s hc hs
  · rintro ch c s r s' ⟨c',rfl,hc⟩ hx hs
    have hsilent := Call.statusActs_silent (hV c' hc) s.state r
    refine (clusterExec_inl_acts (hpool i ch _ s r s' hx)).trans ?_
    exact (congrArg (s.acts i ++ ·) hsilent).trans ((List.append_nil _).trans hs)

theorem safe_queue (queue : ℕ) (op : QueueOp) (key : String) :
    Safe pool (pipelineRule ext svr inst tasks) i (fun _ s => s.acts i = A)
      ((perform (.queue queue op key)).inl : StatusM _) fun s => s.acts i = A :=
  hpool.safe_silent (V := fun c => ∃ queue op key, c = .queue queue op key)
    (.lift ⟨queue,op,key,rfl⟩ fun _ _ => trivial) (by rintro c ⟨_,_,_,rfl⟩; trivial)
    (by rintro c s ⟨_,_,_,rfl⟩ _; exact True.intro)

theorem safe_rollback (err : DbErr) :
    Safe pool (pipelineRule ext svr inst tasks) i (fun _ s => s.acts i = A)
      ((markForRollback err).inl : StatusM Unit) fun s => s.acts i = A :=
  hpool.safe_silent (V := fun c => ∃ err, c = .markForRollback err)
    (p := markForRollback err) ⟨⟨err,rfl⟩,fun _ _ => trivial⟩ (by rintro c ⟨_,rfl⟩; trivial)
    (by rintro c s ⟨_,rfl⟩ _; trivial)

theorem safe_getStatusEvent {f : Except ServiceError StatusEvent → StatusM α} {key : String}
    {F : Cluster → Prop}
    (hnone : Safe pool (pipelineRule ext svr inst tasks) i Q
      (f (.error (handleGetError "StatusEvent" "id" key .recordNotFound)))
      fun s => s.acts i = A ++ [.missedEvent key])
    (hfail : ∀ err, Safe pool (pipelineRule ext svr inst tasks) i Q
      (f (.error (handleGetError "StatusEvent" "id" key err)))
      fun s => s.acts i = A ++ [.refused err])
    (hok : ∀ e s, F s → s.state.statusEvents.find key = some e →
      Safe pool (pipelineRule ext svr inst tasks) i Q (f (.ok e.scan))
        fun s => s.state.statusEvents.find key = some e ∧ s.acts i = A ++ [.tookEvent e]) :
    Safe pool (pipelineRule ext svr inst tasks) i Q (StatusEventService.get key >>= f)
      fun s => F s ∧ s.acts i = A := by
  refine Safe.call fun s ⟨hF,hA⟩ => ⟨trivial,fun ch r s₁ hx => ?_⟩
  rcases clusterExec_takeStatusEvent (hpool i ch _ s r s₁ hx) with
    ⟨e,he,rfl,rfl⟩ | ⟨-,rfl,rfl⟩ | ⟨err,rfl,rfl⟩
  · rw [Cluster.statusEvents,Table.find_filter] at he
    have hrow := (Option.filter_eq_some_iff.mp he).1
    refine ⟨_,fun j hj ch c s r s' _ hx h => ⟨?_,?_⟩,⟨hrow,?_⟩,hok e s hF hrow⟩
    · exact clusterExec_statusEvent (hpool j ch c s r s' hx) h.1
    · exact (clusterExec_acts_ne (val_ne hj) (hpool j ch c s r s' hx)).trans h.2
    · rw [Cluster.acts_record_self,hA]
  · exact ⟨_,hpool.stable_acts _,by rw [Cluster.acts_record_self,hA],hnone⟩
  · exact ⟨_,hpool.stable_acts _,by rw [Cluster.acts_record_self,hA],hfail err⟩

theorem safe_getResource {f : Except ServiceError Resource → StatusM α} {id : String}
    (hnone : Safe pool (pipelineRule ext svr inst tasks) i Q
      (f (.error (handleGetError "Resource" "id" id .recordNotFound)))
      fun s => s.acts i = A ++ [.missedResource id])
    (hfail : ∀ err, Safe pool (pipelineRule ext svr inst tasks) i Q
      (f (.error (handleGetError "Resource" "id" id err))) fun s => s.acts i = A ++ [.refused err])
    (hok : ∀ row : ResourceRow, row.id = id → Safe pool (pipelineRule ext svr inst tasks) i Q
      (f (.ok (syncTimestampsFromResourceMeta ext row.scan))) fun s => s.acts i = A ++ [.read [row]]) :
    Safe pool (pipelineRule ext svr inst tasks) i Q
      ((ResourceService.get ext id).inl >>= f : StatusM α) fun s => s.acts i = A := by
  refine Safe.call fun s hA => ⟨trivial,fun ch r s₁ hx => ?_⟩
  rcases clusterExec_takeResource (hpool i ch _ s r s₁ hx) with
    ⟨row,hrow,rfl,hacts⟩ | ⟨-,rfl,hacts⟩ | ⟨err,rfl,hacts⟩
  all_goals
    rw [hA] at hacts
    refine ⟨_,hpool.stable_acts _,hacts,?_⟩
  · exact hok row (Table.find_some_key hrow)
  · exact hnone
  · exact hfail err

theorem safe_createEventInstance {row : EventInstance}
    {f : Except DbErr EventInstance → StatusM α} (hrule : Announces ext (inst i) A row)
    (hok : Safe pool (pipelineRule ext svr inst tasks) i Q (f (.ok row))
      fun s => s.acts i = A ++ [.recorded row])
    (herr : ∀ err, Safe pool (pipelineRule ext svr inst tasks) i Q (f (.error err)) fun _ => True) :
    Safe pool (pipelineRule ext svr inst tasks) i Q (EventInstanceDao.create row >>= f)
      fun s => s.acts i = A := by
  refine Safe.call fun s hA => ⟨?_,fun ch r s₁ hx => ?_⟩
  · rw [← hA] at hrule
    exact hrule
  · rcases clusterExec_createEventInstance (hpool i ch _ s r s₁ hx) with ⟨rfl,hacts⟩ | ⟨err,rfl⟩
    · exact ⟨_,hpool.stable_acts _,hacts.trans (by rw [hA]),hok⟩
    · refine ⟨_,hpool.stable_acts _,rfl,?_⟩
      change Safe _ _ i Q ((markForRollback err).inl >>= fun _ => f (.error err)) _
      exact Safe.bind (hpool.safe_rollback err) fun _ => (herr err).weaken (fun _ _ => trivial)
        fun _ _ h => h

/-- What a worker broadcasts for an event that it took twice, if it finds it. -/
theorem safe_statusResource {e : StatusEvent} {f : Except String (Option Resource) → StatusM α}
    (hsend : ∀ A res, Sends ext A res → .tookEvent e ∈ A → res.id = e.resourceID →
      Safe pool (pipelineRule ext svr inst tasks) i Q (f (.ok (some res))) fun s => s.acts i = A)
    (hnone : Safe pool (pipelineRule ext svr inst tasks) i Q (f (.ok none)) fun s =>
      s.acts i = [.tookEvent e,.tookEvent e] ++ [.missedResource e.resourceID] ∨
      s.acts i = [.tookEvent e,.tookEvent e] ++ [.refused .recordNotFound])
    (herr : ∀ err, Safe pool (pipelineRule ext svr inst tasks) i Q (f (.error err)) fun _ => True) :
    Safe pool (pipelineRule ext svr inst tasks) i Q (statusResource ext e.scan e.resourceID >>= f)
      fun s => s.acts i = [.tookEvent e,.tookEvent e] := by
  unfold statusResource
  by_cases hd : e.scan.statusEventType = .statusDelete
  · rw [if_pos hd]
    have hsends : Sends ext ([.tookEvent e] ++ [.tookEvent e]) e.deletedResource := .deleted hd
    exact hsend _ _ hsends List.mem_cons_self rfl
  · rw [if_neg hd]
    rw [Prog.bind_assoc]
    refine hpool.safe_getResource ?_ (fun err => ?_) fun row hid => ?_
    · exact hnone.weaken (fun _ h => Or.inl h) fun _ _ h => h
    · cases err with
      | recordNotFound => exact hnone.weaken (fun _ h => Or.inr h) fun _ _ h => h
      | other text => exact (herr _).weaken (fun _ _ => trivial) fun _ _ h => h
    · refine hsend _ _ (@Sends.stored ext _ [row] [] row _ List.mem_cons_self (Or.inr rfl)) (by simp) ?_
      exact (syncTimestamps_id ext row.scan).trans hid

/-- `broadcastStatusEvent` on an event that was just taken. -/
theorem safe_broadcastStatusEvent {e : StatusEvent} :
    Safe pool (pipelineRule ext svr inst tasks) i
      (fun r s => r = .ok () → Handled e.id (inst i) (s.acts i))
      (broadcastStatusEvent ext (inst i) e.id e.resourceID)
      fun s => s.state.statusEvents.find e.id = some e ∧ s.acts i = [.tookEvent e] := by
  have herr : ∀ (err : String) (P : Cluster → Prop),
      Safe pool (pipelineRule ext svr inst tasks) i
        (fun (r : Except String Unit) s => r = .ok () → Handled e.id (inst i) (s.acts i))
        (.ret (.error err) : StatusM _) P := fun _ _ => Safe.ret fun _ _ hr => by cases hr
  refine hpool.safe_getStatusEvent (herr _ _) (fun _ => herr _ _) fun e' s hrow hrow' => ?_
  -- the row of the event has not changed since it was first taken
  have hsame : e' = e := Option.some.inj (hrow'.symm.trans hrow)
  subst hsame
  refine Safe.weaken (hpool.safe_statusResource ?_ ?_ fun err => herr _ _) (fun s hs => hs.2)
    fun _ _ h => h
  · intro A res hs he hid
    refine Safe.call fun s hA => ⟨by rw [← hA] at hs; exact hs,fun ch r s₁ hx => ?_⟩
    have hacts := clusterExec_broadcast (hpool i ch _ s r s₁ hx)
    refine ⟨_,hpool.stable_acts _,hacts.trans (by rw [hA]),?_⟩
    refine hpool.safe_createEventInstance (.mk hs he hid) (Safe.ret fun s hA _ => ?_)
      fun err => herr _ _
    rw [hA]
    exact .recorded
  · refine Safe.ret fun s hs _ => ?_
    rcases hs with hA | hA <;> rw [hA]
    · exact .vanished
    · exact .misled

theorem safe_handleStatusEvent (key : String) :
    Safe pool (pipelineRule ext svr inst tasks) i
      (fun r s => r = .ok () → Handled key (inst i) (s.acts i))
      (handleStatusEvent (statusControllers ext (inst i)) key) fun s => s.acts i = [] := by
  have hprog : Safe pool (pipelineRule ext svr inst tasks) i
      (fun r s => r = .ok () → Handled key (inst i) (s.acts i))
      (handleStatusEvent (statusControllers ext (inst i)) key) fun s => True ∧ s.acts i = [] := by
    refine hpool.safe_getStatusEvent (Safe.ret fun s hA _ => ?_) (fun err => ?_)
      fun e s _ hrow => ?_
    · rw [hA]
      exact .absent
    · cases err with
      | recordNotFound =>
        refine Safe.ret fun s hA _ => ?_
        rw [hA]
        exact .misled
      | other text => exact Safe.ret fun _ _ hr => by cases hr
    · have hid : e.id = key := Table.find_some_key hrow
      subst hid
      dsimp only
      split
      · next hrec =>
        refine Safe.ret fun s hA _ => ?_
        rw [hA.2]
        exact .reconciled hrec
      · have hlookup : (statusControllers ext (inst i)).lookup e.scan.statusEventType =
            some [broadcastStatusEvent ext (inst i)] := by
          cases htype : e.scan.statusEventType <;> rfl
        rw [hlookup]
        have hrun : Safe pool (pipelineRule ext svr inst tasks) i
            (fun r s => r = .ok () → Handled e.id (inst i) (s.acts i))
            (StatusController.runHandlers e.id e.resourceID [broadcastStatusEvent ext (inst i)])
            fun s => s.state.statusEvents.find e.id = some e ∧ s.acts i = [.tookEvent e] := by
          refine Safe.bind hpool.safe_broadcastStatusEvent fun r => ?_
          cases r with
          | error err => exact Safe.ret fun _ _ hr => by cases hr
          | ok u => exact Safe.ret fun _ h => h
        refine Safe.bind hrun fun r => ?_
        cases r with
        | error err => exact Safe.ret fun _ _ hr => by cases hr
        | ok u => exact Safe.ret fun _ h => h
  exact hprog.weaken (fun s hs => ⟨trivial,hs⟩) fun _ _ h => h

theorem safe_processNextEvent (queue : ℕ) (key : String) :
    Safe pool (pipelineRule ext svr inst tasks) i
      (fun r s => r = .ok () → Handled key (inst i) (s.acts i))
      (StatusController.processNextEvent (statusControllers ext (inst i)) queue key)
      fun s => s.acts i = [] := by
  have hdone : ∀ (A : List StatusAct) (result : Except String Unit),
      Safe pool (pipelineRule ext svr inst tasks) i (fun r s => r = result ∧ s.acts i = A)
        ((perform (.queue queue .done key)).inl >>= fun _ => (.ret result : StatusM _))
        fun s => s.acts i = A := fun A result =>
    Safe.bind (hpool.safe_queue queue .done key) fun _ => Safe.ret fun s hA => ⟨rfl,hA⟩
  refine Safe.bind (hpool.safe_handleStatusEvent key) fun result => ?_
  refine safe_of_acts (fun A => result = .ok () → Handled key (inst i) A) fun A hA => ?_
  -- the queue is told about the result and nothing is recorded any more
  have hpost : ∀ (r : Except String Unit) (s : Cluster), r = result ∧ s.acts i = A →
      r = .ok () → Handled key (inst i) (s.acts i) := by
    rintro r s ⟨rfl,hA'⟩ hr
    rw [hA']
    exact hA hr
  cases result with
  | error err =>
    exact (Safe.bind (hpool.safe_queue queue .addRateLimited key) fun _ => hdone A _).weaken
      (fun _ h => h) hpost
  | ok u =>
    exact (Safe.bind (hpool.safe_queue queue .forget key) fun _ => hdone A _).weaken
      (fun _ h => h) hpost

theorem safe_deleteAllEvents {ids : List String} {f : Except ServiceError Unit → StatusM α}
    (hids : ids ≠ [])
    (ha : ∀ s, s.acts i = A → pipelineRule ext svr inst tasks i (.inr (.deleteStatusEvents ids)) s)
    (hok : ∀ events instances, Safe pool (pipelineRule ext svr inst tasks) i Q (f (.ok ()))
      fun s => s.acts i = A ++ [.purged ids events instances])
    (hfail : ∀ err svcErr, Safe pool (pipelineRule ext svr inst tasks) i Q (f (.error svcErr))
      fun s => s.acts i = A ++ [.refused err]) :
    Safe pool (pipelineRule ext svr inst tasks) i Q (StatusEventService.deleteAllEvents ids >>= f)
      fun s => s.acts i = A := by
  have hlen : ids.length ≠ 0 := by simpa using hids
  rw [StatusEventService.deleteAllEvents,StatusEventDao.deleteAllEvents,if_neg hlen,flaggingStatus,
    Prog.bind_assoc,Prog.bind_assoc]
  refine hpool.safe_perform ha fun ch s r s₁ hx => ?_
  rcases clusterExec_deleteStatusEvents hx with ⟨rfl,rfl⟩ | ⟨err,rfl,rfl⟩
  · obtain ⟨events,instances,hacts⟩ := s.deleteStatusEvents_acts i (inst i) ids
    exact ⟨_,hacts,hok events instances⟩
  · refine ⟨_,s.acts_record_self i (inst i) _,?_⟩
    change Safe _ _ i Q ((markForRollback err).inl >>= fun _ => f (.error _)) _
    exact Safe.bind (hpool.safe_rollback err) fun _ => hfail err _

theorem safe_deleteBatches {ready sel : List String} (hr : ready ≠ [])
    (batches done : List (List String)) (purges : List StatusAct)
    (hb : batchStatusEventIDs sel 500 = done ++ batches) (hp : Purges done purges) :
    Safe pool (pipelineRule ext svr inst tasks) i (fun status s => PurgeRun (s.acts i) status)
      (deleteBatches batches) fun s => s.acts i = .ready ready :: .selected sel :: purges := by
  induction batches generalizing done purges with
  | nil =>
    refine Safe.ret fun s hA => ?_
    rw [hA]
    exact .done hr (by rw [hb,List.append_nil]; exact hp)
  | cons batch batches ih =>
    have hmem : batch ∈ batchStatusEventIDs sel 500 := by simp [hb]
    have hspec := (batchStatusEventIDs_spec sel 500 (by decide)).2 batch hmem
    refine hpool.safe_deleteAllEvents hspec.1 (fun s hA => ⟨ready,sel,purges,hr,hA,hmem⟩)
      (fun events instances => ?_) fun err svcErr => Safe.ret fun s hA => ?_
    · exact ih (done ++ [batch]) (purges ++ [.purged batch events instances])
        (by rw [hb]; simp) (List.rel_append hp (.cons ⟨_,_,rfl⟩ .nil))
    · rw [hA]
      exact .refused

theorem safe_syncStatusEvents :
    Safe pool (pipelineRule ext svr inst tasks) i (fun status s => PurgeRun (s.acts i) status)
      syncStatusEvents fun s => s.acts i = [] := by
  have hrefused : ∀ (A : List StatusAct) (err : DbErr), Safe pool (pipelineRule ext svr inst tasks) i
      (fun status s => PurgeRun (s.acts i) status) (.ret .error : StatusM SyncStatus)
      fun s => s.acts i = A ++ [.refused err] := by
    refine fun A err => Safe.ret fun s hA => ?_
    rw [hA]
    exact .refused
  refine hpool.safe_perform (fun _ _ => trivial) fun ch s r s₁ hx => ?_
  rcases clusterExec_findReadyIDs hx with ⟨ready,rfl,rfl,-⟩ | ⟨err,rfl,rfl⟩
  · refine ⟨_,s.acts_record_self i (inst i) _,?_⟩
    dsimp only [EventInstanceDao.getEventsAssociatedWithInstances]
    split
    · next hlen =>
      rw [List.eq_nil_of_length_eq_zero hlen]
      refine Safe.ret fun s hA => ?_
      rw [hA]
      exact .idle
    · next hlen =>
      have hr : ready ≠ [] := by simpa using hlen
      refine hpool.safe_perform (fun s hA => ⟨hr,hA⟩) fun ch s r s₁ hx => ?_
      rcases clusterExec_findEventsOf hx with ⟨sel,rfl,rfl,-⟩ | ⟨err,rfl,rfl⟩
      · exact ⟨_,s.acts_record_self i (inst i) _,hpool.safe_deleteBatches hr _ [] [] rfl .nil⟩
      · exact ⟨_,s.acts_record_self i (inst i) _,hrefused _ err⟩
  · exact ⟨_,s.acts_record_self i (inst i) _,hrefused _ err⟩

theorem safe_handEach (hi : (tasks i).Broadcasts) (rounds : List (Resource × List Client))
    (res : Resource) {clients : List Client} (rest done : List Client)
    (hc : clients = done ++ rest) :
    Safe pool (pipelineRule ext svr inst tasks) i
      (fun _ s => s.acts i = roundsActs rounds ++ .received res :: .locked clients ::
        (clients.filter fun client => client.source = res.source).map (.handed · res))
      (EventBroadcaster.handEach res rest)
      fun s => s.acts i = roundsActs rounds ++ .received res :: .locked clients ::
        (done.filter fun client => client.source = res.source).map (.handed · res) := by
  induction rest generalizing done with
  | nil =>
    refine Safe.ret fun s hA => ?_
    rw [hA,hc,List.append_nil]
  | cons client rest ih =>
    have hc' : clients = (done ++ [client]) ++ rest := by rw [hc]; simp
    rw [EventBroadcaster.handEach]
    split
    · next hsource =>
      refine hpool.safe_perform (fun s hA => ⟨hi,hsource,rounds,clients,done,rest,hc,hA⟩)
        fun ch s r s₁ hx => ⟨[.handed client res],?_,?_⟩
      · rw [clusterExec_hand hx,Cluster.acts_record_self]
      · refine (ih (done ++ [client]) hc').weaken (fun s hA => ?_) fun _ _ h => h
        rw [hA]
        simp [hsource]
    · next hsource =>
      refine (ih (done ++ [client]) hc').weaken (fun s hA => ?_) fun _ _ h => h
      rw [hA]
      simp [hsource]

theorem safe_round (hi : (tasks i).Broadcasts) (rounds : List (Resource × List Client)) :
    Safe pool (pipelineRule ext svr inst tasks) i
      (fun _ s => ∃ rounds, s.acts i = roundsActs rounds) EventBroadcaster.round
      fun s => s.acts i = roundsActs rounds := by
  refine hpool.safe_perform (fun s hA => ⟨hi,rounds,hA⟩) fun ch s (res : Resource) s₁ hx =>
    ⟨[.received res],?_,?_⟩
  · rw [(clusterExec_receive hx).2,Cluster.acts_record_self]
  refine hpool.safe_perform (fun s hA => ⟨hi,rounds,res,hA⟩) fun ch s (clients : List Client) s₁ hx =>
    ⟨[.locked clients],?_,?_⟩
  · rw [(clusterExec_rLock hx).2,Cluster.acts_record_self]
    rfl
  refine Safe.bind ((hpool.safe_handEach hi rounds res clients [] rfl).weaken
    (fun s hA => ?_) fun _ _ h => h) fun _ => ?_
  · rw [hA]
    simp
  rw [← Prog.bind_ret (performStatus .rUnlock)]
  refine hpool.safe_perform (fun s hA => ⟨hi,rounds,res,clients,hA⟩) fun ch s r s₁ hx =>
    ⟨[.unlocked],?_,Safe.ret fun s hA => ⟨rounds ++ [(res,clients)],?_⟩⟩
  · rw [clusterExec_rUnlock hx,Cluster.acts_record_self]
    rfl
  · rw [hA]
    simp [roundsActs,roundActs]

theorem safe_start (hi : (tasks i).Broadcasts) (n : ℕ) :
    Safe pool (pipelineRule ext svr inst tasks) i (fun _ _ => True) (EventBroadcaster.start n)
      fun s => ∃ rounds, s.acts i = roundsActs rounds := by
  induction n with
  | zero => exact Safe.ret fun _ _ => trivial
  | succ n ih => exact Safe.exists fun rounds => Safe.bind (hpool.safe_round hi rounds) fun _ => ih

theorem safe_subscribe {req : SubscriptionRequest} (hi : tasks i = .subscribe req) :
    Safe pool (pipelineRule ext svr inst tasks) i (fun _ _ => True) (svr.subscribe req)
      fun _ => True := by
  have hcalls : (svr.subscribe req).Calls ClusterAnswers (fun c => c.unruled ∨
      ∃ id, c = .inr (.register ⟨id,req.source⟩) ∧ svr.authorizeSubscribe req = .ok ())
      fun _ => True := by
    unfold GRPCServer.subscribe
    split
    · trivial
    · next hauth =>
      refine .lift_bind (Or.inl trivial) fun clientID _ => ?_
      split
      · trivial
      · exact .lift_bind (Or.inr ⟨clientID,rfl,hauth⟩) fun _ _ =>
          .lift_bind (Or.inl trivial) fun _ _ => trivial
  refine (Safe.of_own (P := fun _ => True)
    (fun o c s r s' hx => clusterExec_answers (hpool i o c s r s' hx)) (.const True)
    (fun c s hc _ => ?_) (fun _ _ _ _ _ _ _ _ => trivial) hcalls).weaken (fun _ h => h)
    fun _ _ _ => trivial
  rcases hc with hc | ⟨id,rfl,hauth⟩
  · exact pipelineRule_of_unruled hc
  · exact ⟨req,hi,hauth,rfl⟩

/-- Each resource that a resync broadcasts is one of those it listed. -/
theorem safe_broadcastAll {rows : List ResourceRow} (objs sent : List Resource)
    (h : ∀ obj ∈ objs, ∃ row ∈ rows, obj = row.scan) :
    Safe pool (pipelineRule ext svr inst tasks) i (fun _ _ => True)
      ((broadcastAll objs).inl : StatusM Unit)
      fun s => s.acts i = [] ++ .read rows :: sent.map .sent := by
  induction objs generalizing sent with
  | nil => exact Safe.ret fun _ _ => trivial
  | cons obj objs ih =>
    obtain ⟨row,hrow,rfl⟩ := h obj List.mem_cons_self
    refine Safe.call fun s hA => ⟨?_,fun ch r s₁ hx => ?_⟩
    · have hsends : Sends ext (s.acts i) row.scan := hA ▸ .stored hrow (Or.inl rfl)
      exact hsends
    · refine ⟨_,hpool.stable_acts _,?_,ih (sent ++ [row.scan]) fun o ho => h o (List.mem_cons_of_mem _ ho)⟩
      rw [clusterExec_broadcast (hpool i ch _ s r s₁ hx),hA]
      simp

theorem safe_respondResyncStatusRequest (evt : CloudEvent) :
    Safe pool (pipelineRule ext svr inst tasks) i (fun _ _ => True)
      ((respondResyncStatusRequest ext evt).inl : StatusM _) fun s => s.acts i = [] := by
  have hend : ∀ (r : Except String Unit) (P : Cluster → Prop),
      Safe pool (pipelineRule ext svr inst tasks) i
        (fun _ _ => True) (.ret r : StatusM _) P := fun r _ => Safe.ret fun _ _ => trivial
  have hall : ∀ (rows : List ResourceRow) (p : Resource → Bool),
      Safe pool (pipelineRule ext svr inst tasks) i (fun _ _ => True)
        ((broadcastAll ((rows.map ResourceRow.scan).filter p) >>= fun _ =>
          (.ret (.ok ()) : M (Except String Unit))).inl : StatusM _)
        fun s => s.acts i = [.read rows] := by
    intro rows p
    rw [Prog.inl_bind]
    refine Safe.bind (hpool.safe_broadcastAll _ [] fun obj hobj => ?_) fun _ => hend _ _
    obtain ⟨row,hrow,rfl⟩ := List.mem_map.mp (List.mem_filter.mp hobj).1
    exact ⟨row,hrow,rfl⟩
  refine Safe.call fun s hA => ⟨trivial,fun ch r s₁ hx => ?_⟩
  rcases clusterExec_findBySource (hpool i ch _ s r s₁ hx) with ⟨rows,rfl,hacts⟩ | ⟨err,rfl,hacts⟩
  · rw [hA] at hacts
    refine ⟨_,hpool.stable_acts _,hacts,?_⟩
    cases ext.decodeStatusResyncRequest evt with
    | error err => exact hend _ _
    | ok hashes =>
      cases hashes with
      | nil =>
        have hsend := hall rows fun _ => true
        rw [List.filter_true] at hsend
        exact hsend
      | cons hash hashes => exact hall rows _
  · exact ⟨_,hpool.stable_acts _,hacts,hend _ _⟩

theorem safe_publish (req : PublishRequest) :
    Safe pool (pipelineRule ext svr inst tasks) i (fun _ _ => True)
      ((svr.publish ext req).inl : StatusM _) fun s => s.acts i = [] := by
  have hfree : ∀ c : Call, c.neutral → ClusterCall.unruled (.inl c) := by
    intro c h
    cases c <;> trivial
  unfold GRPCServer.publish
  split
  · exact Safe.ret fun _ _ => trivial
  · rw [Prog.inl_bind]
    refine Safe.bind (hpool.safe_respondResyncStatusRequest _) fun r => ?_
    cases r <;> exact Safe.ret fun _ _ => trivial
  · next action res _ =>
    have hcalls : (svr.dispatch ext action res).Calls Answers (fun c => ClusterCall.unruled (.inl c))
        fun _ => True :=
      dispatch_calls hfree ext svr action res (fun _ => ⟨trivial,fun _ _ => trivial⟩)
        (fun _ _ _ => ⟨trivial,trivial⟩) (fun _ => ⟨trivial,trivial,trivial⟩) trivial trivial
    exact (hpool.safe_unruled (hcalls.inl (fun _ _ hr => hr) fun _ hc => hc)).weaken
      (fun _ _ => trivial) fun _ _ h => h

theorem safe_handleStatusUpdate {message : Resource} (hi : tasks i = .report message) :
    Safe pool (pipelineRule ext svr inst tasks) i (fun _ _ => True)
      ((handleStatusUpdate ext message).inl : StatusM _) fun s => s.acts i = [] := by
  have hend : ∀ (r : Except String Unit) (P : Cluster → Prop),
      Safe pool (pipelineRule ext svr inst tasks) i (fun _ _ => True) (.ret r : StatusM _) P :=
    fun r _ => Safe.ret fun _ _ => trivial
  unfold handleStatusUpdate
  rw [Prog.inl_bind]
  refine hpool.safe_getResource ?_ (fun err => ?_) fun row hid => ?_
  · exact hend _ _
  · cases err <;> exact hend _ _
  dsimp only
  split
  · exact hend _ _
  split
  · exact hend _ _
  · next status deleted hfill =>
    cases deleted with
    | true =>
      -- nothing that follows the read shows in the acts
      refine (hpool.safe_silent (V := fun c => c.silent ∧ ∀ e, c = .createStatusEvent e →
        Reports ext message [.read [row]] e) (p := handleDeleted _ _) ?_ (fun c hc => hc.1)
        fun c s hc hA => ?_).weaken (fun _ h => h) fun _ _ _ => trivial
      · refine handleDeleted_calls (fun c hn => ⟨c.silent_of_neutral hn,?_⟩) _ _ ⟨trivial,?_⟩
          ⟨trivial,fun _ hc => by cases hc⟩
        · rintro e he
          cases he
          exact .delete hid hfill
        · rintro e rfl
          exact hn.elim
      · cases c with
        | createStatusEvent e => exact ⟨message,hi,hA ▸ hc.2 e rfl⟩
        | broadcast res => exact hc.1.elim
        | _ => trivial
    | false =>
      have hcalls : (handleUpdated ext { message with
          source := (syncTimestampsFromResourceMeta ext row.scan).source,
          status := status }).Calls Answers (fun c => ClusterCall.unruled (.inl c) ∨
            c = .createStatusEvent { resourceID := message.id, statusEventType := .statusUpdate })
          fun _ => True :=
        handleUpdated_calls (fun c hn => Or.inl (by cases c <;> trivial)) ext _ (Or.inl trivial)
          (Or.inl trivial) (fun _ => Or.inl trivial) (Or.inr rfl)
      refine (Safe.of_own (P := fun _ => True)
        (fun o c s r s' hx => clusterExec_answers (hpool i o c s r s' hx)) (.const True)
        (A := fun c => ClusterCall.unruled c ∨ c = .inl (.createStatusEvent
          { resourceID := message.id, statusEventType := .statusUpdate }))
        (fun c s hc _ => ?_) (fun _ _ _ _ _ _ _ _ => trivial) (hcalls.inl (fun _ _ hr => hr)
          fun c hc => hc.imp_right fun h => by rw [h])).weaken (fun _ _ => trivial)
        fun _ _ _ => trivial
      rcases hc with hc | rfl
      · exact pipelineRule_of_unruled hc
      · exact ⟨message,hi,.update⟩

/-- Every session keeps to the rule. -/
theorem safe_run (ext : External) (svr : GRPCServer) (tasks : Fin n → StatusTask) (i : Fin n) :
    Safe pool (pipelineRule ext svr inst tasks) i ((tasks i).Post (inst i) i)
      ((tasks i).run ext svr (inst i)) fun s => s.acts i = [] := by
  cases htask : tasks i with
  | work queue key =>
    refine (hpool.safe_processNextEvent queue key).map fun r s h hr => ?_
    cases hr
    exact h rfl
  | sync => exact hpool.safe_syncStatusEvents.map fun status s h => ⟨status,rfl,h⟩
  | readiness writes =>
    exact ((hpool.safe_unruled (readinessWrites_calls (fun _ => trivial) (fun _ => trivial)
      (fun _ _ => trivial) writes)).weaken (fun _ _ => trivial) fun _ _ h => h).map fun _ _ _ => trivial
  | report message => exact (hpool.safe_handleStatusUpdate htask).map fun _ _ _ => trivial
  | publish req => exact (hpool.safe_publish req).map fun _ _ _ => trivial
  | broadcaster rounds =>
    exact ((hpool.safe_start ⟨rounds,htask⟩ rounds).weaken (fun s hA => ⟨[],hA⟩)
      fun _ _ h => h).map fun _ _ _ => trivial
  | subscribe req =>
    exact ((hpool.safe_subscribe htask).weaken (fun _ _ => trivial) fun _ _ h => h).map
      fun _ _ _ => trivial

theorem verified (ext : External) (svr : GRPCServer) (tasks : Fin n → StatusTask) {s₀ : Cluster}
    (h₀ : s₀.log = []) : Verified pool (pipelineRule ext svr inst tasks)
      (fun i => (tasks i).Post (inst i) i) (pipelineStart ext svr inst tasks s₀) :=
  fun i => ⟨_,hpool.stable_acts [],by simp [pipelineStart,Cluster.acts,h₀,statusActsOf],
    hpool.safe_run ext svr tasks i⟩

end Pipelined

end Maestro
