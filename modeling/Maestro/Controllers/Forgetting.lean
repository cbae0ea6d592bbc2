import Maestro.Api.Reference
import Maestro.Controllers.Calls
import Maestro.Db.EventEffects

/-!
# What the spec queues are told about finished events

`processNextEvent` on an event that is reconciled or purged, or whose resource is
gone, for both event filters.
-/

namespace Maestro
open Concurrent Data

/-- Nothing is left to do for the event of this key: its row is gone, it is reconciled, or
its resource is gone. -/
def State.Obsolete (s : State) (key : String) : Prop :=
  ∀ e, s.events.find key = some e → e.reconciledDate.isSome ∨ s.resources.find e.sourceID = none

/-- What a queue was told about a key after taking it. -/
def Entry.verdict? (key : String) : Entry → Option (ℕ × QueueOp)
  | ⟨_,.queued queue op key'⟩ => if key' = key ∧ op ≠ .add then some (queue,op) else none
  | _ => none

def verdicts (key : String) (J : List Entry) : List (ℕ × QueueOp) := J.filterMap (Entry.verdict? key)

/-- Nobody holds the advisory lock of the event. -/
def State.EventUnlocked (s : State) (key : String) : Prop :=
  lockKey key .events ∉ s.locks.held.map Lock.key

/-- Calls that give no verdict on the key, write no resource and insert no event. What they
save is reconciled. -/
def Call.spares (key : String) : Call → Prop
  | .createResource _ | .updateResource _ _ _ | .updateResourceStatus _ _ | .deleteResource _ _
  | .createEvent _ => False
  | .saveEvent e => e.reconciledDate.isSome
  | .queue _ op key' => key' = key → op = .add
  | _ => True

section Spare

variable {t : ℕ} {ch : Choice} {c : Call} {r : c.Resp} {s s' : State} {key : String}

theorem verdicts_append (acts : List Act) (J : List Entry)
    (h : ∀ a ∈ acts, (⟨t,a⟩ : Entry).verdict? key = none) :
    verdicts key (J ++ acts.map (Entry.mk t)) = verdicts key J := by
  have hnil : (acts.map (Entry.mk t)).filterMap (Entry.verdict? key) = [] := by
    simpa using h
  rw [verdicts,List.filterMap_append,hnil,List.append_nil,verdicts]

theorem verdict?_recordedBy {a : Act} (h : a.recordedBy s c) (hc : c.spares key) :
    (⟨t,a⟩ : Entry).verdict? key = none := by
  cases a with
  | queued queue op key' =>
    cases h
    have hop : key' = key → op = .add := hc
    simp only [Entry.verdict?]
    exact if_neg fun hk => hk.2 (hop hk.1)
  | _ => rfl

/-- Saving, purging and retiring events leaves nothing more to do. -/
theorem EventEffect.obsolete (h : EventEffect t s c s') (hr : s'.resources = s.resources)
    (hc : ∀ e, c ≠ .createEvent e) (hs : ∀ e, c = .saveEvent e → e.reconciledDate.isSome)
    (ho : s.Obsolete key) : s'.Obsolete key := by
  intro e he
  rw [hr]
  cases h with
  | quiet acts hev => exact ho e (by rwa [hev] at he)
  | insert event => exact absurd rfl (hc event)
  | save event now =>
    rw [State.find_saveEvent] at he
    split at he
    · cases he
      exact Or.inl (hs event rfl)
    · exact ho e he
  | purge =>
    rw [State.find_purgeEvents] at he
    exact ho e (Option.filter_eq_some_iff.mp he).1
  | retire cutoff date now picked hp =>
    rw [State.find_retireEvents] at he
    obtain ⟨e',he',rfl⟩ := Option.map_eq_some_iff.mp he
    unfold Event.setReconciled
    split
    · exact Or.inl rfl
    · exact ho e' he'

theorem commit_spares (hc : c.spares key) (h : commit t ch c s = some (r,s'))
    (ho : s.Obsolete key) :
    s'.Obsolete key ∧ verdicts key s'.journal = verdicts key s.journal := by
  cases commit_rowEffect h with
  | quiet acts hr hj hb =>
    constructor
    · refine (commit_eventEffect h).obsolete hr ?_ ?_ ho
      · rintro e rfl
        exact hc
      · rintro e rfl
        exact hc
    · rw [hj]
      exact verdicts_append acts _ fun a ha => verdict?_recordedBy (hb a ha) hc
  | insert | spec | status | soft | hard => exact hc.elim

/-- Programs of such calls leave the key as it is. -/
theorem eval_spares {α : Type} {p : M α} {env : ℕ → Choice} {a : α}
    (hp : p.Calls Answers (Call.spares key) fun _ => True) (ho : s.Obsolete key)
    (h : Prog.eval (commit t) env p s = some (a,s')) :
    s'.Obsolete key ∧ verdicts key s'.journal = verdicts key s.journal := by
  refine (Prog.eval_invariant
    (I := fun x => x.Obsolete key ∧ verdicts key x.journal = verdicts key s.journal)
    (fun ch c x r x' hc hx hI => ?_) hp ⟨ho,rfl⟩ h).2
  obtain ⟨ho',hv⟩ := commit_spares hc hx hI.1
  exact ⟨commit_answers hx,ho',hv.trans hI.2⟩

end Spare

section Handling

variable {ext : External} {t : ℕ} {env : ℕ → Choice} {s s' : State} {key : String}

theorem eval_getEvent {r : Except ServiceError Event}
    (h : Prog.eval (commit t) env (EventService.get key) s = some (r,s')) :
    s' = s ∧ r = match s.events.find key with
      | none => .error (handleGetError "Event" "id" key .recordNotFound)
      | some e => .ok e := by
  obtain ⟨r',s₁,hx,hk⟩ := Prog.eval_call.mp h
  simp only [commit] at hx
  cases he : s.events.find key with
  | none => rw [he] at hx; cases hx; cases hk; exact ⟨rfl,rfl⟩
  | some e => rw [he] at hx; cases hx; cases hk; exact ⟨rfl,rfl⟩

theorem eval_getResource {id : String} {r : Except ServiceError Resource}
    (hnone : s.resources.find id = none)
    (h : Prog.eval (commit t) env (ResourceService.get ext id) s = some (r,s')) :
    r = .error (handleGetError "Resource" "id" id .recordNotFound) := by
  obtain ⟨r',s₁,hx,hk⟩ := Prog.eval_call.mp h
  obtain ⟨-,⟨-,rfl⟩ | ⟨row,hrow,-⟩⟩ := commit_takeResource hx
  · cases hk
    rfl
  · cases hnone.symm.trans hrow

/-- A save does not fail. -/
theorem eval_replace {e : Event} {r : Except ServiceError Event}
    (h : Prog.eval (commit t) env (EventService.replace e) s = some (r,s')) : r = .ok e := by
  obtain ⟨r',s₁,hx,hk⟩ := Prog.eval_call.mp h
  cases hx
  cases hk
  rfl

/-- The handlers of the source client skip a resource that is gone. -/
theorem eval_sourceHandler {id : String} {r : Except String Unit} {fn : ControllerHandlerFunc}
    (hfn : fn = SourceClient.onCreate ext ∨ fn = SourceClient.onUpdate ext ∨
      fn = SourceClient.onDelete ext) (hnone : s.resources.find id = none)
    (h : Prog.eval (commit t) env (fn id) s = some (r,s')) : r = .ok () := by
  have hskip : ∀ {f : Except ServiceError Resource → M (Except String Unit)},
      (∀ err : ServiceError, err.is404 → f (.error err) = .ret (.ok ())) →
      Prog.eval (commit t) env (ResourceService.get ext id >>= f) s = some (r,s') →
      r = .ok () := by
    intro f hf hx
    obtain ⟨found,s₁,m,hg,hk⟩ := Prog.eval_bind hx
    rw [eval_getResource hnone hg,hf _ rfl] at hk
    exact (Prog.eval_ret.mp hk).1
  rcases hfn with rfl | rfl | rfl
  · exact hskip (fun err he => if_pos he) h
  · exact hskip (fun err he => if_pos he) h
  · exact hskip (fun err he => if_pos he) h

theorem sourceControllers_lookup {source : String} {eventType : EventType}
    {types : List (EventType × List ControllerHandlerFunc)} {fns : List ControllerHandlerFunc}
    (hs : (sourceControllers ext).lookup source = some types)
    (hf : types.lookup eventType = some fns) : ∃ fn, fns = [fn] ∧
      (fn = SourceClient.onCreate ext ∨ fn = SourceClient.onUpdate ext ∨
        fn = SourceClient.onDelete ext) := by
  simp only [sourceControllers,resourceControllers,List.lookup_cons,List.lookup_nil] at hs
  split at hs
  · cases hs
    cases eventType <;> cases hf
    · exact ⟨_,rfl,Or.inl rfl⟩
    · exact ⟨_,rfl,Or.inr (Or.inl rfl)⟩
    · exact ⟨_,rfl,Or.inr (Or.inr rfl)⟩
  · cases hs

/-- An event that passed the filter of the source client is finished. -/
theorem eval_processEvent {r : Except String Bool} (h : s.Obsolete key)
    (hx : Prog.eval (commit t) env (processEvent (sourceControllers ext) key) s = some (r,s')) :
    r = .ok true := by
  obtain ⟨found,s₁,m,hg,hk⟩ := Prog.eval_bind hx
  obtain ⟨rfl,rfl⟩ := eval_getEvent hg
  cases he : s₁.events.find key with
  | none =>
    rw [he] at hk
    exact (Prog.eval_ret.mp hk).1
  | some e =>
    simp only [he] at hk
    by_cases hrec : e.reconciledDate.isSome
    · rw [if_pos hrec] at hk
      exact (Prog.eval_ret.mp hk).1
    · rw [if_neg hrec] at hk
      have hnone := (h e he).resolve_left hrec
      split at hk
      · exact (Prog.eval_ret.mp hk).1
      · next types hsrc =>
        split at hk
        · exact (Prog.eval_ret.mp hk).1
        · next fns hfns =>
          obtain ⟨fn,rfl,hfn⟩ := sourceControllers_lookup hsrc hfns
          obtain ⟨r₁,s₂,m₁,hrun,hk⟩ := Prog.eval_bind hk
          obtain ⟨r₂,s₃,m₂,hfn',hrun⟩ := Prog.eval_bind hrun
          rw [eval_sourceHandler hfn hnone hfn'] at hrun
          obtain ⟨rfl,rfl⟩ := Prog.eval_ret.mp hrun
          obtain ⟨now,s₄,-,hk⟩ := Prog.eval_lift_bind.mp hk
          obtain ⟨r₃,s₅,m₃,hrep,hk⟩ := Prog.eval_bind hk
          rw [eval_replace hrep] at hk
          exact (Prog.eval_ret.mp hk).1

/-- `PredicateEvent` never lets such an event pass. -/
theorem eval_predicateEvent {r : Except String Bool} (h : s.Obsolete key)
    (hx : Prog.eval (commit t) env (GRPCBroker.predicateEvent ext key) s = some (r,s')) :
    r ≠ .ok true := by
  obtain ⟨found,s₁,m,hg,hk⟩ := Prog.eval_bind hx
  obtain ⟨rfl,rfl⟩ := eval_getEvent hg
  cases he : s₁.events.find key with
  | none =>
    rw [he] at hk
    rw [(Prog.eval_ret.mp hk).1]
    simp
  | some e =>
    simp only [he] at hk
    by_cases hrec : e.reconciledDate.isSome
    · rw [if_pos hrec] at hk
      rw [(Prog.eval_ret.mp hk).1]
      simp
    · rw [if_neg hrec] at hk
      have hnone := (h e he).resolve_left hrec
      obtain ⟨r₁,s₂,m₁,hget,hk⟩ := Prog.eval_bind hk
      rw [eval_getResource hnone hget] at hk
      obtain ⟨now,s₄,-,hk⟩ := Prog.eval_lift_bind.mp hk
      obtain ⟨r₃,s₅,m₃,hrep,hk⟩ := Prog.eval_bind hk
      rw [eval_replace hrep] at hk
      rw [(Prog.eval_ret.mp hk).1]
      simp

/-- With the lock available the event is processed between lock and unlock. -/
theorem eval_handleEvent_lockBased {controllers : Controllers} {locks : List (String × String)}
    {r : Except String Bool} {f : EventFilter} (hfree : s.EventUnlocked key)
    (hx : Prog.eval (commit t) env (handleEvent controllers (.lockBased locks) key) s =
      some ((r,f),s')) :
    ∃ table s₁ table', Prog.eval (commit t) (fun n => env (n+1)) (processEvent controllers key)
      { s with locks := table } = some (r,s₁) ∧ s' = { s₁ with locks := table' } := by
  obtain ⟨_,s₁,hlock,hk⟩ := Prog.eval_call.mp hx
  simp only [commit] at hlock
  rw [if_neg hfree] at hlock
  obtain ⟨table,-,he⟩ := Option.map_eq_some_iff.mp hlock
  cases he
  obtain ⟨r₁,s₂,m,hp,hk⟩ := Prog.eval_bind (p := processEvent controllers key) hk
  obtain ⟨f₁,s₃,m₁,hd,hk⟩ := Prog.eval_bind hk
  obtain ⟨hr,rfl⟩ := Prog.eval_ret.mp hk
  cases hr
  -- the owner of the lock was put in front of the map
  have hfind : ∀ rest : List (String × String),
      ((key,(env 0).uuid) :: rest).find? (fun p => decide (p.1 = key)) =
        some (key,(env 0).uuid) := fun rest => by simp
  simp only [EventFilter.deferredAction,hfind] at hd
  obtain ⟨u,s₄,m₂,hu,hd⟩ := Prog.eval_bind hd
  obtain ⟨rfl,rfl⟩ := Prog.eval_ret.mp hd
  unfold unlock at hu
  split at hu
  · obtain ⟨-,rfl⟩ := Prog.eval_ret.mp hu
    exact ⟨table,_,_,hp,rfl⟩
  · cases Prog.eval_lift.mp hu
    exact ⟨table,_,_,hp,rfl⟩

theorem eval_handleEvent_predicated {controllers : Controllers} {r : Except String Bool}
    {predicate : String → M (Except String Bool)} {f : EventFilter}
    (hpred : ∀ a s', Prog.eval (commit t) env (predicate key) s = some (a,s') → a ≠ .ok true)
    (hx : Prog.eval (commit t) env (handleEvent controllers (.predicated predicate) key) s =
      some ((r,f),s')) :
    r ≠ .ok true := by
  obtain ⟨⟨a,f₁⟩,s₁,m,hf,hk⟩ := Prog.eval_bind hx
  obtain ⟨a',s₂,m',hp,hr⟩ := Prog.eval_bind hf
  obtain ⟨hr,rfl⟩ := Prog.eval_ret.mp hr
  cases hr
  have hne := hpred a s₁ hp
  match a, hne with
  | .error err, _ => cases hk; simp
  | .ok false, _ => cases hk; simp
  | .ok true, hne => exact absurd rfl hne

end Handling

/-- Work of the spec controllers of some instance. -/
inductive SpecJob
  | lockBased (queue : ℕ) (key : String)
  | predicated (queue : ℕ) (key : String)
  | sync (queue : ℕ)
  | retire (threshold : Time)

namespace SpecJob

/-- The lock based filter belongs to the source client, the predicated one to the gRPC broker. -/
def run (ext : External) : SpecJob → M Unit
  | .lockBased queue key => do
    let _ ← processNextEvent (sourceControllers ext) queue (.lockBased []) key
  | .predicated queue key => do
    let _ ← processNextEvent (brokerControllers ext) queue
      (.predicated (GRPCBroker.predicateEvent ext)) key
  | .sync queue => syncEvents queue
  | .retire threshold => staleDeleteDetectorRun threshold

/-- The lock is available to a job that tries it. -/
def available (s : State) : SpecJob → Prop
  | .lockBased _ key => s.EventUnlocked key
  | _ => True

/-- What a job tells its queue about a finished event. -/
def verdict (key : String) : SpecJob → List (ℕ × QueueOp)
  | .lockBased queue key' => if key' = key then [(queue,.forget),(queue,.done)] else []
  | .predicated queue key' => if key' = key then [(queue,.addRateLimited),(queue,.done)] else []
  | _ => []

end SpecJob

section Jobs

variable {ext : External} {t : ℕ} {env : ℕ → Choice} {s s' : State} {key : String}

theorem processEvent_spares {controllers : Controllers} (h : controllers.Make (Call.spares key))
    (id : String) : (processEvent controllers id).Calls Answers (Call.spares key) fun _ => True :=
  processEvent_calls h trivial trivial (fun _ => trivial) fun _ he => he

theorem sourceControllers_spares : (sourceControllers ext).Make (Call.spares key) :=
  sourceControllers_make (fun _ => trivial) fun _ _ => trivial

theorem brokerControllers_spares : (brokerControllers ext).Make (Call.spares key) :=
  brokerControllers_make (fun _ => trivial) fun _ _ => trivial

theorem lockBased_spares (locks : List (String × String)) :
    (EventFilter.lockBased locks).Make (Call.spares key) :=
  lockBased_make (fun _ => trivial) fun _ => trivial

theorem predicated_spares :
    (EventFilter.predicated (GRPCBroker.predicateEvent ext)).Make (Call.spares key) :=
  fun _ => predicateEvent_calls trivial trivial (fun _ => trivial) (fun _ => trivial)
    (fun _ => trivial) fun _ he => he

/-- What `processNextEvent` tells the queue. -/
theorem eval_processNextEvent {controllers : Controllers} {queue : ℕ} {h f : EventFilter}
    (hx : Prog.eval (commit t) env (processNextEvent controllers queue h key) s = some (f,s')) :
    ∃ r s₁, Prog.eval (commit t) env (handleEvent controllers h key) s = some ((r,f),s₁) ∧
      s' = s₁.record t [.queued queue (if r = .ok true then .forget else .addRateLimited) key,
        .queued queue .done key] := by
  obtain ⟨⟨r,f₁⟩,s₁,m,hh,hk⟩ := Prog.eval_bind hx
  refine ⟨r,s₁,?_⟩
  match r with
  | .error err =>
    cases hk
    exact ⟨hh,by simp [State.record]⟩
  | .ok false =>
    cases hk
    exact ⟨hh,by simp [State.record]⟩
  | .ok true =>
    cases hk
    exact ⟨hh,by simp [State.record]⟩

theorem verdicts_record (s : State) (t queue : ℕ) (op : QueueOp) (hop : op ≠ .add) :
    verdicts key (s.record t [.queued queue op key,.queued queue .done key]).journal =
      verdicts key s.journal ++ [(queue,op),(queue,.done)] := by
  simp [verdicts,Entry.verdict?,hop]

/-- One job on a key that is finished. -/
theorem SpecJob.step {job : SpecJob} (ha : job.available s) (ho : s.Obsolete key)
    (hx : Prog.eval (commit t) env (job.run ext) s = some ((),s')) :
    s'.Obsolete key ∧ verdicts key s'.journal = verdicts key s.journal ++ job.verdict key := by
  cases job with
  | lockBased queue key' =>
    obtain ⟨f,s₁,m,hp,hr⟩ := Prog.eval_bind hx
    obtain ⟨-,rfl⟩ := Prog.eval_ret.mp hr
    by_cases hk : key' = key
    · subst key'
      obtain ⟨r,s₁,hh,rfl⟩ := eval_processNextEvent hp
      obtain ⟨table,s₂,table',hev,rfl⟩ := eval_handleEvent_lockBased ha hh
      have ho₁ : State.Obsolete { s with locks := table } key := ho
      obtain ⟨ho₂,hv⟩ := eval_spares (processEvent_spares sourceControllers_spares key) ho₁ hev
      rw [eval_processEvent ho₁ hev,if_pos rfl,verdicts_record _ _ _ _ QueueOp.noConfusion]
      refine ⟨ho₂,?_⟩
      simp only [SpecJob.verdict,if_true]
      exact congrArg (· ++ _) hv
    · rw [SpecJob.verdict,if_neg hk,List.append_nil]
      have hcalls : (processNextEvent (sourceControllers ext) queue (.lockBased []) key').Calls
          Answers (Call.spares key) fun _ => True :=
        processNextEvent_calls (lockBased_spares [])
          (processEvent_spares sourceControllers_spares key') fun _ he => absurd he hk
      exact eval_spares hcalls ho hp
  | predicated queue key' =>
    obtain ⟨f,s₁,m,hp,hr⟩ := Prog.eval_bind hx
    obtain ⟨-,rfl⟩ := Prog.eval_ret.mp hr
    by_cases hk : key' = key
    · subst key'
      obtain ⟨r,s₁,hh,rfl⟩ := eval_processNextEvent hp
      have hne := eval_handleEvent_predicated (fun a s' => eval_predicateEvent ho) hh
      obtain ⟨ho₂,hv⟩ := eval_spares (handleEvent_calls predicated_spares
        (processEvent_spares brokerControllers_spares key)) ho hh
      rw [if_neg hne,verdicts_record _ _ _ _ QueueOp.noConfusion,hv]
      exact ⟨ho₂,by simp [SpecJob.verdict]⟩
    · rw [SpecJob.verdict,if_neg hk,List.append_nil]
      have hcalls : (processNextEvent (brokerControllers ext) queue
          (.predicated (GRPCBroker.predicateEvent ext)) key').Calls Answers (Call.spares key)
          fun _ => True :=
        processNextEvent_calls predicated_spares
          (processEvent_spares brokerControllers_spares key') fun _ he => absurd he hk
      exact eval_spares hcalls ho hp
  | sync queue =>
    change s'.Obsolete key ∧ _ = _ ++ []
    rw [List.append_nil]
    exact eval_spares (syncEvents_calls (fun _ _ => rfl) trivial trivial fun _ => trivial) ho hx
  | retire threshold =>
    change s'.Obsolete key ∧ _ = _ ++ []
    rw [List.append_nil]
    exact eval_spares (staleDeleteDetectorRun_calls trivial (fun _ => trivial) trivial
      (fun _ => trivial) fun _ _ => trivial) ho hx

end Jobs

/-- A run of spec jobs of any instances, one after the other. -/
abbrev SpecRun (ext : External) (env : SpecJob → ℕ → Choice) : State → List SpecJob → State → Prop :=
  Serial (fun t => commit t) (SpecJob.run ext) env SpecJob.available

/-- Once an event is finished, the lock based filter has its key forgotten whenever it is taken
from a queue, and nothing asks to see it again. Under the predicated filter it is put back
every time, so a key is never put back exactly in the runs that process it with the
lock based filter alone. -/
theorem finished_key_forgotten_iff (ext : External) (env : SpecJob → ℕ → Choice) {s s' : State}
    {jobs : List SpecJob} {key : String} (ho : s.Obsolete key) (hr : SpecRun ext env s jobs s') :
    s'.Obsolete key ∧
    verdicts key s'.journal = verdicts key s.journal ++ jobs.flatMap (SpecJob.verdict key) ∧
    ((∀ queue, (queue,.addRateLimited) ∉ jobs.flatMap (SpecJob.verdict key)) ↔
      ∀ queue, .predicated queue key ∉ jobs) := by
  have hrun : s'.Obsolete key ∧
      verdicts key s'.journal = verdicts key s.journal ++ jobs.flatMap (SpecJob.verdict key) := by
    induction hr with
    | nil => exact ⟨ho,by simp⟩
    | @snoc jobs s₁ s₂ job r hs hok hx ih =>
      obtain ⟨ho₁,hv₁⟩ := ih
      obtain ⟨ho₂,hv₂⟩ := SpecJob.step hok ho₁ hx
      exact ⟨ho₂,by rw [hv₂,hv₁]; simp⟩
  refine ⟨hrun.1,hrun.2,?_⟩
  constructor
  · intro hno queue hm
    exact hno queue (List.mem_flatMap.mpr ⟨_,hm,by simp [SpecJob.verdict]⟩)
  · intro hno queue hm
    obtain ⟨job,hj,hv⟩ := List.mem_flatMap.mp hm
    cases job with
    | lockBased queue' key' =>
      simp only [SpecJob.verdict] at hv
      split at hv <;> simp at hv
    | predicated queue' key' =>
      simp only [SpecJob.verdict] at hv
      split at hv
      · next hk => exact hno queue' (hk ▸ hj)
      · cases hv
    | sync | retire => cases hv

/-- The state after an update of a resource was announced and its event reconciled. -/
def reconciledState : State where
  events := Table.empty.insert
    { id := "event", createdAt := 0, updatedAt := 0, source := "Resources", sourceID := "web",
      eventType := .update, reconciledDate := some 0 } (Table.find_empty _)

theorem reconciledState_obsolete : reconciledState.Obsolete "event" := by
  intro e he
  cases he
  exact Or.inl rfl

/-- The gRPC broker puts the key of a reconciled event back. -/
theorem reconciled_key_put_back : reconciledState.Obsolete "event" ∧ ∃ s',
    SpecRun Reference.packages (fun _ => .counting fun _ => none) reconciledState
      [.predicated 0 "event"] s' ∧
    verdicts "event" s'.journal = [(0,.addRateLimited),(0,.done)] := by
  have h : (Prog.eval (commit 0) (.counting fun _ => none)
      ((SpecJob.predicated 0 "event").run Reference.packages) reconciledState).any fun p =>
      verdicts "event" p.2.journal = [(0,.addRateLimited),(0,.done)] := by
    decide +kernel
  obtain ⟨⟨_,s'⟩,hx,hv⟩ := (Option.any_eq_true _ _).mp h
  exact ⟨reconciledState_obsolete,s',.snoc .nil trivial hx,of_decide_eq_true hv⟩

/-- The source client has it forgotten. -/
theorem reconciled_key_forgotten : ∃ s', SpecRun Reference.packages
    (fun _ => .counting fun _ => none) reconciledState [.lockBased 0 "event"] s' ∧
    verdicts "event" s'.journal = [(0,.forget),(0,.done)] := by
  have h : (Prog.eval (commit 0) (.counting fun _ => none)
      ((SpecJob.lockBased 0 "event").run Reference.packages) reconciledState).isSome := by
    decide +kernel
  obtain ⟨⟨_,s'⟩,hx⟩ := Option.isSome_iff_exists.mp h
  have hr : SpecRun Reference.packages (fun _ => .counting fun _ => none) reconciledState
      [.lockBased 0 "event"] s' := .snoc .nil (by simp [SpecJob.available,State.EventUnlocked,
        reconciledState,LockTable.empty]) hx
  exact ⟨s',hr,(finished_key_forgotten_iff Reference.packages _ reconciledState_obsolete hr).2.1⟩

end Maestro
