import Maestro.Dispatcher.Ownership

/-!
# The resync of a consumer that was taken over

`updateConsumerSet` hands a consumer to the resync workers before it has put it into the
consumer set. A worker that is fast enough asks the agent for the status while the instance
still skips what the agent answers. When no worker takes a consumer that early, every resync
that an update caused is sent by an owner of the consumer, unless the consumer has been given
up since, and no answer is skipped before that happens.
-/

namespace Maestro
open Data Concurrent

def HashDispatcher.Task.isWorker : HashDispatcher.Task → Bool
  | .worker _ => true
  | _ => false

namespace DispatcherAct

def appends (name : String) : DispatcherAct → Bool
  | .appended names => name ∈ names
  | _ => false

def removes (name : String) : DispatcherAct → Bool
  | .removed names => name ∈ names
  | _ => false

def isAppended : DispatcherAct → Bool
  | .appended _ => true
  | _ => false

theorem eq_of_isAppended {act : DispatcherAct} (h : act.isAppended = true) :
    ∃ names, act = .appended names := by
  cases act with
  | appended names => exact ⟨names,rfl⟩
  | _ => cases h

/-- What an act says about the call that it records, and about the set at that moment. -/
def Records (c : DispatcherCall) (d : HashDispatcher) : DispatcherAct → Prop
  | .enqueued name => c = .add name
  | .appended names => c = .append names
  | .took _ => c = .get
  | .resynced names => c = .resync names
  | .looked name owned => owned = d.dispatch name
  | _ => True

end DispatcherAct

/-- An update has put the consumer on the queue and not yet come to the set. -/
def pendingAdd (name : String) : List DispatcherEntry → Bool :=
  since (fun entry => entry.act = .enqueued name) fun entry => entry.act.isAppended

/-- The consumer was given up after an update had put it on the queue last. -/
def givenUp (name : String) : List DispatcherEntry → Bool :=
  since (fun entry => entry.act.removes name) fun entry => entry.act = .enqueued name

theorem pendingAdd_snoc (name : String) (log : List DispatcherEntry) (t : ℕ)
    (act : DispatcherAct) : pendingAdd name (log ++ [⟨t,act⟩]) =
      (decide (act = .enqueued name) || pendingAdd name log && !act.isAppended) :=
  since_snoc _ _ _ _

theorem givenUp_snoc (name : String) (log : List DispatcherEntry) (t : ℕ) (act : DispatcherAct) :
    givenUp name (log ++ [⟨t,act⟩]) =
      (act.removes name || givenUp name log && !decide (act = .enqueued name)) :=
  since_snoc _ _ _ _

/-- Since the update that made worker `t` take the consumer, the consumer was given up. -/
def Reassigned (t : ℕ) (name : String) (log : List DispatcherEntry) : Prop :=
  ∃ before after, log = before ++ ⟨t,.took name⟩ :: after ∧
    (∀ entry ∈ after, ∀ other, entry ≠ ⟨t,.took other⟩) ∧
    (givenUp name before = true ∨ ∃ entry ∈ after, entry.act.removes name = true)

/-- No worker takes a consumer between the `Add` and the `Append` of one update. -/
def HashDispatcher.settled (d : HashDispatcher) : DispatcherCall → Bool
  | .get => !d.workQueue.queue.head?.any fun name => pendingAdd name d.log
  | _ => true

/-- The goroutines of one instance, with workers that wait for the update. -/
def settledPool (ring : HashRing) {n : ℕ} (i : Fin n) (ch : DispatcherChoice)
    (c : DispatcherCall) (d : HashDispatcher) : Option (c.Resp × HashDispatcher) :=
  if d.settled c then dispatcherExec ring i ch c d else none

/-- A worker has taken the consumer and finds it in the set, or it was given up. -/
def InFlight (t : ℕ) (name : String) (d : HashDispatcher) : Prop :=
  (∃ s, ⟨s,.enqueued name⟩ ∈ d.log) ∧
  ∃ before after, d.log = before ++ ⟨t,.took name⟩ :: after ∧
    (∀ entry ∈ after, ∀ other, entry ≠ ⟨t,.took other⟩) ∧
    (name ∈ d.consumerSet ∨ givenUp name before = true ∨
      ∃ entry ∈ after, entry.act.removes name = true)

/-- Every consumer that waits was put on the queue by an update, and what an update has put
there is in the set, will be when the update comes to it, or was given up. -/
structure HashDispatcher.Assigning (d : HashDispatcher) : Prop where
  queued : d.workQueue.Within fun name => ∃ s, ⟨s,.enqueued name⟩ ∈ d.log
  assigned : ∀ name s, ⟨s,.enqueued name⟩ ∈ d.log →
    pendingAdd name d.log = true ∨ name ∈ d.consumerSet ∨ givenUp name d.log = true

/-- A resync of one consumer that a worker has sent. -/
structure HashDispatcher.Answered (worker : ℕ → Prop) (d : HashDispatcher) : Prop where
  owned : ∀ before after t name, worker t → d.log = before ++ ⟨t,.resynced [name]⟩ :: after →
    ¬ Reassigned t name before → (∀ entry ∈ after, entry.act.removes name = false) →
    name ∈ d.consumerSet
  looked : ∀ before between after t s name owned, worker t →
    d.log = before ++ ⟨t,.resynced [name]⟩ :: (between ++ ⟨s,.looked name owned⟩ :: after) →
    ¬ Reassigned t name before → (∀ entry ∈ between, entry.act.removes name = false) →
    owned = true

/-- Only the checker puts work on the queue, an `Append` brings everything that was put there,
and a worker resyncs what it has taken. -/
def resyncRule {n : ℕ} (tasks : Fin n → HashDispatcher.Task) (i : Fin n) :
    DispatcherCall → HashDispatcher → Prop
  | .add _, _ => (tasks i).isChecking = true
  | .append names, d => ∀ name, pendingAdd name d.log = true → name ∈ names
  | .addRateLimited name, d => ∃ s, ⟨s,.enqueued name⟩ ∈ d.log
  | .resync names, d => ∀ name, names = [name] → (tasks i).isWorker = true →
      name ∈ d.consumerSet ∨ Reassigned i name d.log
  | _, _ => True

section

variable {ring : HashRing} {n : ℕ} {i : Fin n} {t : ℕ} {ch : DispatcherChoice}
  {c : DispatcherCall} {d d' : HashDispatcher} {r : c.Resp} {name : String}

theorem settledPool_exec (h : settledPool ring i ch c d = some (r,d')) :
    d.settled c = true ∧ dispatcherExec ring i ch c d = some (r,d') := by
  unfold settledPool at h
  split at h
  · next hs => exact ⟨hs,h⟩
  · cases h

/-- Every call records one act or none, and the act says what happened to the set. -/
theorem dispatcherExec_record (hx : dispatcherExec ring t ch c d = some (r,d')) :
    d'.log = d.log ∧ d'.consumerSet = d.consumerSet ∨
    ∃ act : DispatcherAct, d'.log = d.log ++ [⟨t,act⟩] ∧ act.Records c d ∧
      ∀ name, name ∈ d'.consumerSet ↔
        (act.appends name = true ∨ name ∈ d.consumerSet) ∧ act.removes name = false := by
  cases c with
  | allInstances | allConsumers =>
    simp only [dispatcherExec] at hx
    split at hx <;> cases hx <;>
      exact Or.inr ⟨_,rfl,trivial,by simp [HashDispatcher.record,DispatcherAct.appends,
        DispatcherAct.removes]⟩
  | getMembers | locateKey | toSlice | done | forget | addRateLimited | addMember
  | removeMember => cases hx; exact Or.inl ⟨rfl,rfl⟩
  | contains | add | resync | handleStatusUpdate =>
    cases hx
    exact Or.inr ⟨_,rfl,by simp [DispatcherAct.Records],by simp [HashDispatcher.record,
      DispatcherAct.appends,DispatcherAct.removes]⟩
  | append names =>
    cases hx
    exact Or.inr ⟨_,rfl,rfl,by simp [HashDispatcher.record,DispatcherAct.appends,
      DispatcherAct.removes]⟩
  | removeAll names =>
    cases hx
    exact Or.inr ⟨_,rfl,trivial,by simp [HashDispatcher.record,DispatcherAct.appends,
      DispatcherAct.removes]⟩
  | get =>
    simp only [dispatcherExec] at hx
    split at hx
    · cases hx; exact Or.inl ⟨rfl,rfl⟩
    · obtain ⟨p,-,he⟩ := Option.map_eq_some_iff.mp hx
      cases he
      exact Or.inr ⟨_,rfl,rfl,by simp [HashDispatcher.record,DispatcherAct.appends,
        DispatcherAct.removes]⟩
  | expire key =>
    obtain ⟨q,-,he⟩ := Option.map_eq_some_iff.mp hx
    cases he
    exact Or.inl ⟨rfl,rfl⟩

theorem dispatcherExec_log_mono (hx : dispatcherExec ring t ch c d = some (r,d'))
    {entry : DispatcherEntry} (h : entry ∈ d.log) : entry ∈ d'.log := by
  rcases dispatcherExec_record hx with ⟨hl,-⟩ | ⟨act,hl,-⟩
  · rwa [hl]
  · rw [hl]
    exact List.mem_append_left _ h

/-- What waits in the queue comes from `Add` and `AddRateLimited`. -/
theorem dispatcherExec_within {p : String → Prop} (hq : d.workQueue.Within p)
    (hx : dispatcherExec ring t ch c d = some (r,d'))
    (hadd : ∀ key, c = .add key ∨ c = .addRateLimited key → p key) : d'.workQueue.Within p := by
  cases c with
  | allInstances | allConsumers =>
    simp only [dispatcherExec] at hx
    split at hx <;> cases hx <;> exact hq
  | getMembers | locateKey | toSlice | forget | addMember | removeMember | contains | resync
  | handleStatusUpdate | append | removeAll => cases hx; exact hq
  | add key => cases hx; exact hq.add (hadd key (Or.inl rfl))
  | addRateLimited key => cases hx; exact hq.addAfter (hadd key (Or.inr rfl))
  | done key => cases hx; exact hq.done key
  | get =>
    simp only [dispatcherExec] at hx
    split at hx
    · cases hx; exact hq
    · obtain ⟨⟨key,q⟩,hg,he⟩ := Option.map_eq_some_iff.mp hx
      cases he
      exact (hq.get hg).2
  | expire key =>
    obtain ⟨q,hg,he⟩ := Option.map_eq_some_iff.mp hx
    cases he
    exact hq.expire hg

theorem InFlight.step (h : InFlight t name d) {s : ℕ}
    (hx : dispatcherExec ring s ch c d = some (r,d')) (hs : s = t → c ≠ .get) :
    InFlight t name d' := by
  obtain ⟨⟨u,henq⟩,before,after,hlog,hlast,hown⟩ := h
  refine ⟨⟨u,dispatcherExec_log_mono hx henq⟩,?_⟩
  rcases dispatcherExec_record hx with ⟨hl,hset⟩ | ⟨act,hl,hrec,hset⟩
  · exact ⟨before,after,hl.trans hlog,hlast,hset ▸ hown⟩
  · refine ⟨before,after ++ [⟨s,act⟩],by simp [hl,hlog],?_,?_⟩
    · intro entry hentry other
      rcases List.mem_append.mp hentry with he | he
      · exact hlast entry he other
      · rw [List.mem_singleton.mp he]
        rintro heq
        cases heq
        exact hs rfl hrec
    · rcases hown with hown | hown | ⟨entry,he,hr⟩
      · cases hact : act.removes name with
        | false => exact Or.inl ((hset name).mpr ⟨Or.inr hown,hact⟩)
        | true => exact Or.inr (Or.inr ⟨⟨s,act⟩,by simp,hact⟩)
      · exact Or.inr (Or.inl hown)
      · exact Or.inr (Or.inr ⟨entry,List.mem_append_left _ he,hr⟩)

theorem InFlight.owned_or_reassigned (h : InFlight t name d) :
    name ∈ d.consumerSet ∨ Reassigned t name d.log := by
  obtain ⟨-,before,after,hlog,hlast,hown | hown⟩ := h
  · exact Or.inl hown
  · exact Or.inr ⟨before,after,hlog,hlast,hown⟩

variable {tasks : Fin n → HashDispatcher.Task}

theorem HashDispatcher.Assigning.step (h : d.Assigning) (ha : resyncRule tasks i c d)
    (hx : dispatcherExec ring i ch c d = some (r,d')) : d'.Assigning where
  queued := by
    have hq : d.workQueue.Within fun name => ∃ s, ⟨s,.enqueued name⟩ ∈ d'.log := h.queued.mono
      fun name ⟨s,hs⟩ => ⟨s,dispatcherExec_log_mono hx hs⟩
    refine dispatcherExec_within hq hx ?_
    rintro key (rfl | rfl)
    · cases hx
      exact ⟨i,by simp [HashDispatcher.record]⟩
    · obtain ⟨s,hs⟩ := ha
      exact ⟨s,dispatcherExec_log_mono hx hs⟩
  assigned name s hs := by
    rcases dispatcherExec_record hx with ⟨hl,hset⟩ | ⟨act,hl,hrec,hset⟩
    · rw [hl] at hs ⊢
      exact hset ▸ h.assigned name s hs
    rw [hl,pendingAdd_snoc,givenUp_snoc]
    by_cases hact : act = .enqueued name
    · exact Or.inl (by simp [hact])
    have hs : ⟨s,.enqueued name⟩ ∈ d.log := by
      rw [hl] at hs
      rcases List.mem_append.mp hs with hs | hs
      · exact hs
      · cases List.mem_singleton.mp hs
        exact absurd rfl hact
    cases hremoves : act.removes name with
    | true => exact Or.inr (Or.inr (by simp))
    | false =>
      rcases h.assigned name s hs with hp | hp | hp
      · cases happ : act.isAppended with
        | false => exact Or.inl (by simp [hp])
        | true =>
          -- the update has come to the set, with everything it had put on the queue
          obtain ⟨names,rfl⟩ := DispatcherAct.eq_of_isAppended happ
          have hc : c = .append names := hrec
          subst hc
          have happends : DispatcherAct.appends name (.appended names) = true :=
            decide_eq_true (ha name hp)
          exact Or.inr (Or.inl ((hset name).mpr ⟨Or.inl happends,rfl⟩))
      · exact Or.inr (Or.inl ((hset name).mpr ⟨Or.inr hp,hremoves⟩))
      · exact Or.inr (Or.inr (by simp [hp,hact]))

theorem HashDispatcher.Answered.step
    (h : d.Answered fun t => ∃ i : Fin n, (i : ℕ) = t ∧ (tasks i).isWorker = true)
    (ha : resyncRule tasks i c d) (hx : dispatcherExec ring i ch c d = some (r,d')) :
    d'.Answered fun t => ∃ i : Fin n, (i : ℕ) = t ∧ (tasks i).isWorker = true := by
  rcases dispatcherExec_record hx with ⟨hl,hset⟩ | ⟨act,hl,hrec,hset⟩
  · exact ⟨hl ▸ hset ▸ h.owned,hl ▸ h.looked⟩
  constructor
  · intro before after t name ht hlog hre hafter
    rw [hl] at hlog
    rcases append_split hlog with ⟨rest,hold,rfl⟩ | ⟨mid,hnew,rfl⟩
    · have hmem := h.owned before rest t name ht hold hre
        fun e he => hafter e (List.mem_append_left _ he)
      exact (hset name).mpr ⟨Or.inr hmem,hafter ⟨i,act⟩ (by simp)⟩
    · obtain ⟨rfl,-,he⟩ : mid = [] ∧ after = [] ∧ (⟨i,act⟩ : DispatcherEntry) = ⟨t,.resynced [name]⟩ := by
        cases mid with
        | nil => simpa [and_comm] using hnew
        | cons a mid => simp at hnew
      cases he
      have hc : c = .resync [name] := hrec
      subst hc
      obtain ⟨j,hj,hw⟩ := ht
      rw [List.append_nil] at hre
      have hown := (ha name rfl (Fin.ext hj ▸ hw)).resolve_right hre
      exact (hset name).mpr ⟨Or.inr hown,rfl⟩
  · intro before between after t s name owned ht hlog hre hbetween
    rw [hl,← List.cons_append,← List.append_assoc] at hlog
    rcases snoc_split hlog with ⟨rest,hold⟩ | ⟨he,hold⟩
    · exact h.looked before between rest t s name owned ht (by simpa using hold) hre hbetween
    · cases he
      have howned : owned = d.dispatch name := hrec
      rw [howned,HashDispatcher.dispatch,decide_eq_true_eq]
      exact h.owned before between t name ht hold.symm hre hbetween

end

namespace HashDispatcher

variable {ring : HashRing} {n : ℕ} {i : Fin n} {tasks : Fin n → Task} {instanceID : String}

theorem kept_assigning (tasks : Fin n → Task) : Kept (settledPool ring) (resyncRule tasks) Assigning :=
  fun _ _ _ _ _ _ ha hx h => h.step ha (settledPool_exec hx).2

theorem stable_inFlight (i : Fin n) (name : String) :
    Stable (settledPool ring) (resyncRule tasks) i (InFlight i name) :=
  fun _ hj _ _ _ _ _ _ hx h =>
    h.step (settledPool_exec hx).2 fun he => absurd (Fin.ext he) hj

/-- A worker that may take a consumer finds it in the set, or it was given up. -/
theorem inFlight_of_get {ch : DispatcherChoice} {d d' : HashDispatcher} {name : String}
    (h : d.Assigning) (hx : settledPool ring i ch .get d = some (some name,d')) :
    InFlight i name d' := by
  obtain ⟨hsettled,hx⟩ := settledPool_exec hx
  simp only [dispatcherExec] at hx
  split at hx
  · cases hx
  · obtain ⟨⟨key,q⟩,hg,he⟩ := Option.map_eq_some_iff.mp hx
    cases he
    obtain ⟨⟨s,hs⟩,-⟩ := h.queued.get hg
    have hpending : pendingAdd key d.log = false := by
      simpa [settled,WorkQueue.head_of_get hg] using hsettled
    refine ⟨⟨s,List.mem_append_left _ hs⟩,d.log,[],rfl,by simp,?_⟩
    rcases h.assigned key s hs with hp | hp | hp
    · rw [hpending] at hp
      cases hp
    · exact Or.inl hp
    · exact Or.inr (Or.inl hp)

theorem safe_processNextResync : Safe (settledPool ring) (resyncRule tasks) i
    (fun _ d => d.Assigning) processNextResync Assigning := by
  refine Safe.call fun d hd => ⟨trivial,fun ch r d' hx => ?_⟩
  have hd' : d'.Assigning := kept_assigning tasks i ch .get d r d' trivial hx hd
  cases r with
  | none => exact ⟨_,(kept_assigning tasks).stable i,hd',Safe.ret fun _ h => h⟩
  | some name =>
    refine ⟨_,((kept_assigning tasks).stable i).and (stable_inFlight i name),⟨hd',inFlight_of_get hd hx⟩,?_⟩
    -- the calls of the worker from here on are about the consumer it has taken
    let own (c : DispatcherCall) : Prop :=
      c = .resync [name] ∨ c = .addRateLimited name ∨ c = .forget name ∨ c = .done name
    have hallowed : ∀ c d, own c → d.Assigning ∧ InFlight i name d → resyncRule tasks i c d := by
      rintro c d (rfl | rfl | rfl | rfl) ⟨-,hf⟩
      · rintro other he -
        cases he
        exact hf.owned_or_reassigned
      · exact hf.1
      · trivial
      · trivial
    have hget : ∀ c, own c → c ≠ .get := by
      rintro c (rfl | rfl | rfl | rfl) he <;> cases he
    refine (Safe.of_own (V := fun _ _ => True) (A := own) (S := fun _ => True)
      (fun _ _ _ _ _ _ => trivial) (((kept_assigning tasks).stable i).and (stable_inFlight i name))
      hallowed ?_ ?_).weaken (fun _ h => h) fun _ _ h => h.1.1
    · intro ch c d r d' hc hx h
      exact ⟨kept_assigning tasks i ch c d r d' (hallowed c d hc h) hx h.1,
        h.2.step (settledPool_exec hx).2 fun _ => hget c hc⟩
    · refine .deferring (.lift_bind (Or.inl rfl) fun r _ => ?_)
        ⟨Or.inr (Or.inr (Or.inr rfl)),fun _ _ => trivial⟩
      cases r with
      | error err => exact .lift_bind (Or.inr (Or.inl rfl)) fun _ _ => trivial
      | ok u => exact .lift_bind (Or.inr (Or.inr (Or.inl rfl))) fun _ _ => trivial

theorem safe_worker (rounds : ℕ) : Safe (settledPool ring) (resyncRule tasks) i
    (fun _ d => d.Assigning) (worker rounds) Assigning := by
  induction rounds with
  | zero => exact Safe.ret fun _ h => h
  | succ n ih =>
    refine safe_processNextResync.bind fun more => ?_
    cases more with
    | false => exact Safe.ret fun _ h => h
    | true => exact ih

/-- What the update going on has put on the queue is among `names`. -/
def Collected (names : List String) (d : HashDispatcher) : Prop :=
  ∀ name, pendingAdd name d.log = true → name ∈ names

theorem Collected.step {names : List String} {t : ℕ} {ch : DispatcherChoice} {c : DispatcherCall}
    {d d' : HashDispatcher} {r : c.Resp} (h : Collected names d)
    (hx : dispatcherExec ring t ch c d = some (r,d')) (hc : ∀ name, c ≠ .add name) :
    Collected names d' := by
  intro name hp
  rcases dispatcherExec_record hx with ⟨hl,-⟩ | ⟨act,hl,hrec,-⟩
  · exact h name (hl ▸ hp)
  · rw [hl,pendingAdd_snoc] at hp
    have hact : act ≠ .enqueued name := by
      rintro rfl
      exact hc name hrec
    have hp : pendingAdd name d.log = true ∧ act.isAppended = false := by simpa [hact] using hp
    exact h name hp.1

variable (hone : ∀ i j, (tasks i).isChecking = true → (tasks j).isChecking = true → i = j)
include hone

theorem stable_collected (hi : (tasks i).isChecking = true) (names : List String) :
    Stable (settledPool ring) (resyncRule tasks) i (Collected names) := by
  intro j hj ch c d r d' ha hx h
  refine h.step (settledPool_exec hx).2 ?_
  rintro name rfl
  exact hj (hone j i ha hi)

variable (hi : (tasks i).isChecking = true)
include hi

/-- A call of the checker that neither puts work on the queue nor changes the set. -/
theorem safe_collected {β : Type} {Q : β → HashDispatcher → Prop} {names : List String}
    {c : DispatcherCall} {k : c.Resp → DispatcherM β} (hc : ∀ d, resyncRule tasks i c d)
    (hadd : ∀ name, c ≠ .add name)
    (hk : ∀ r, Safe (settledPool ring) (resyncRule tasks) i Q (k r) (Collected names)) :
    Safe (settledPool ring) (resyncRule tasks) i Q (.call c k) (Collected names) :=
  Safe.call fun d hd => ⟨hc d,fun _ r _ hx =>
    ⟨_,stable_collected hone hi names,hd.step (settledPool_exec hx).2 hadd,hk r⟩⟩

theorem safe_addMembers_collected (l : List String) : Safe (settledPool ring) (resyncRule tasks) i
    (fun _ d => Collected [] d) (addMembers l) (Collected []) := by
  induction l with
  | nil => exact Safe.ret fun _ h => h
  | cons member rest ih =>
    exact safe_collected hone hi (fun _ => trivial) (fun _ h => by cases h) fun _ => ih

theorem safe_removeMembers_collected (l : List String) :
    Safe (settledPool ring) (resyncRule tasks) i
      (fun _ d => Collected [] d) (removeMembers l) (Collected []) := by
  induction l with
  | nil => exact Safe.ret fun _ h => h
  | cons member rest ih =>
    exact safe_collected hone hi (fun _ => trivial) (fun _ h => by cases h) fun _ => ih

/-- The loop collects what it puts on the queue. -/
theorem safe_sortConsumers_collected (consumers : List Consumer) (toAdd toRemove : List String) :
    Safe (settledPool ring) (resyncRule tasks) i (fun sorted d => Collected sorted.1 d)
      (sortConsumers instanceID consumers toAdd toRemove) (Collected toAdd) := by
  induction consumers generalizing toAdd toRemove with
  | nil => exact Safe.ret fun _ h => h
  | cons consumer rest ih =>
    simp only [sortConsumers,Prog.lift_bind]
    refine safe_collected hone hi (fun _ => trivial) (fun _ h => by cases h) fun located => ?_
    split
    · refine safe_collected hone hi (fun _ => trivial) (fun _ h => by cases h) fun owned => ?_
      split
      · refine Safe.call fun d hd => ⟨hi,fun ch r d' hx =>
          ⟨_,stable_collected hone hi (toAdd ++ [consumer.name]),?_,ih _ _⟩⟩
        obtain ⟨-,hx⟩ := settledPool_exec hx
        cases hx
        intro name hp
        rw [record,pendingAdd_snoc,Bool.or_eq_true,decide_eq_true_eq] at hp
        rcases hp with hp | hp
        · cases hp
          simp
        · exact List.mem_append_left _ (hd name ((Bool.and_eq_true _ _).mp hp).1)
      · exact ih toAdd toRemove
    · refine safe_collected hone hi (fun _ => trivial) (fun _ h => by cases h) fun owned => ?_
      split
      · exact ih toAdd _
      · exact ih toAdd toRemove

theorem safe_updateConsumerSet_collected : Safe (settledPool ring) (resyncRule tasks) i
    (fun _ d => Collected [] d) (updateConsumerSet instanceID) (Collected []) := by
  simp only [updateConsumerSet,Prog.lift_bind]
  refine safe_collected hone hi (fun _ => trivial) (fun _ h => by cases h) fun members => ?_
  split
  · exact Safe.ret fun _ h => h
  refine safe_collected hone hi (fun _ => trivial) (fun _ h => by cases h) fun r => ?_
  cases r with
  | error err => exact Safe.ret fun _ h => h
  | ok consumers =>
    refine (safe_sortConsumers_collected hone hi consumers [] []).bind fun sorted => ?_
    refine Safe.call fun d hd => ⟨hd,fun ch r d' hx =>
      ⟨_,stable_collected hone hi [],?_,?_⟩⟩
    · obtain ⟨-,hx⟩ := settledPool_exec hx
      cases hx
      intro name hp
      rw [record,pendingAdd_snoc] at hp
      simp [DispatcherAct.isAppended] at hp
    · exact safe_collected hone hi (fun _ => trivial) (fun _ h => by cases h) fun _ =>
        Safe.ret fun _ h => h

theorem safe_check_collected : Safe (settledPool ring) (resyncRule tasks) i
    (fun _ d => Collected [] d) (check instanceID) (Collected []) := by
  simp only [check,Prog.lift_bind]
  refine safe_collected hone hi (fun _ => trivial) (fun _ h => by cases h) fun r => ?_
  cases r with
  | error err => exact Safe.ret fun _ h => h
  | ok instances =>
    refine safe_collected hone hi (fun _ => trivial) (fun _ h => by cases h) fun members => ?_
    refine (safe_addMembers_collected hone hi _).bind fun _ => ?_
    refine (safe_removeMembers_collected hone hi _).bind fun _ => ?_
    exact (safe_updateConsumerSet_collected hone hi).bind fun _ => Safe.ret fun _ h => h

theorem safe_checking_collected (rounds : ℕ) : Safe (settledPool ring) (resyncRule tasks) i
    (fun _ d => Collected [] d) (checking instanceID rounds) (Collected []) := by
  induction rounds with
  | zero => exact Safe.ret fun _ h => h
  | succ n ih => exact (safe_check_collected hone hi).bind fun _ => ih

end HashDispatcher

section

open HashDispatcher

variable {ring : HashRing} {instanceID : String} {n : ℕ} {tasks : Fin n → Task}

theorem verified_resync (ring : HashRing) (instanceID : String)
    (hone : ∀ i j, (tasks i).isChecking = true → (tasks j).isChecking = true → i = j)
    {d₀ : HashDispatcher} (hlog : d₀.log = []) (hqueue : d₀.workQueue = {}) :
    Verified (settledPool ring) (resyncRule tasks) (fun _ _ _ => True)
      ⟨d₀,fun i => (tasks i).program instanceID⟩ := by
  have hpassive : ∀ {i : Fin n} {p : DispatcherM Unit}, (tasks i).isWorker = false →
      p.Calls (fun _ _ => True) (fun c => c.passive = true) (fun _ => True) →
      ∃ P, Stable (settledPool ring) (resyncRule tasks) i P ∧ P d₀ ∧
        Safe (settledPool ring) (resyncRule tasks) i (fun _ _ => True) p P := by
    intro i p hw hp
    refine ⟨fun _ => True,.const True,trivial,(Safe.of_calls (fun _ _ _ _ _ _ => trivial)
      (fun _ _ _ _ _ _ _ _ _ => trivial) (fun c d hc _ => ?_) hp).weaken (fun _ h => h)
      fun _ _ _ => trivial⟩
    cases c with
    | contains | toSlice | expire | handleStatusUpdate => trivial
    | resync names =>
      intro name _ h
      rw [hw] at h
      cases h
    | _ => cases hc
  intro i
  cases ht : tasks i with
  | checking rounds =>
    have hi : (tasks i).isChecking = true := by rw [ht]; rfl
    refine ⟨_,stable_collected hone hi [],fun name hp => ?_,?_⟩
    · rw [hlog] at hp
      cases hp
    · simp only [ht]
      exact (safe_checking_collected hone hi rounds).weaken (fun _ h => h) fun _ _ _ => trivial
  | worker rounds =>
    refine ⟨_,(kept_assigning tasks).stable i,⟨?_,fun name s hs => ?_⟩,?_⟩
    · rw [hqueue]
      exact ⟨by simp,by simp,by simp⟩
    · rw [hlog] at hs
      cases hs
    · simp only [ht]
      exact (safe_worker rounds).weaken (fun _ h => h) fun _ _ _ => trivial
  | reconnecting rounds =>
    simp only [ht]
    exact hpassive (by rw [ht]; rfl) (resyncOnReconnect_calls rounds)
  | receiving messages =>
    simp only [ht]
    exact hpassive (by rw [ht]; rfl) (receiving_calls messages)
  | limiter keys =>
    simp only [ht]
    exact hpassive (by rw [ht]; rfl) (limiter_calls keys)

end

/-- One check, one worker and one status update from a cluster. -/
def resyncTasks : Fin 3 → HashDispatcher.Task
  | 0 => .checking 1
  | 1 => .worker 1
  | 2 => .receiving [("web","cluster1")]

abbrev resyncStart : Config (Fin 3) HashDispatcher DispatcherCall DispatcherCall.Resp Unit :=
  ⟨{},fun i => (resyncTasks i).program "maestro-0"⟩

def oneInstance : List ServerInstance := [⟨"maestro-0",true⟩]

def oneConsumer : List Consumer := [{ id := "1", name := "cluster1" }]

def resyncTurns (sessions : List (Fin 3)) : List (Fin 3 × DispatcherChoice) :=
  sessions.map fun i => (i,{ instances := .ok oneInstance, consumers := .ok oneConsumer })

end Maestro
