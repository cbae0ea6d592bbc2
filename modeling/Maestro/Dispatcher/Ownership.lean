import Maestro.Dispatcher.HashDispatcher
import Mathlib.Data.Finset.Max
import Mathlib.Data.String.Basic

/-!
# Every consumer has one owner

`check` moves the ring and the consumer set by differences from whatever they were. What it
leaves depends only on the tables it read: the ring holds the ready instances, and of the
listed consumers the set holds those that the ring places on this instance. Two instances
that read the same tables therefore agree on the owner of every consumer.
-/

namespace Maestro
open Data Concurrent

/-- What the last `check` read, as far as it came; nothing when a query failed. -/
def lastCheck (log : List DispatcherEntry) : Option (List ServerInstance) × Option (List Consumer) :=
  log.foldl (fun last entry => match entry.act with
    | .listedInstances instances => (some instances,none)
    | .listedConsumers consumers => (last.1,some consumers)
    | .refused _ => (none,none)
    | _ => last) (none,none)

/-- The part of a dispatcher that only `check` changes. -/
structure Placement where
  members : Finset String
  consumerSet : Finset String
  read : Option (List ServerInstance) × Option (List Consumer)

def HashDispatcher.placement (d : HashDispatcher) : Placement :=
  ⟨d.members.toFinset,d.consumerSet.toFinset,lastCheck d.log⟩

def DispatcherCall.places : DispatcherCall → Bool
  | .allInstances | .allConsumers | .addMember _ | .removeMember _ | .append _ | .removeAll _ =>
    true
  | _ => false

/-- The calls of the goroutines that neither place consumers nor hand out work. -/
def DispatcherCall.passive : DispatcherCall → Bool
  | .contains _ | .toSlice | .expire _ | .resync _ | .handleStatusUpdate _ => true
  | _ => false

theorem DispatcherCall.places_of_passive {c : DispatcherCall} (h : c.passive = true) :
    c.places = false := by
  cases c with
  | contains | toSlice | expire | resync | handleStatusUpdate => rfl
  | _ => cases h

/-- The goroutines of one instance. -/
def dispatcherPool (ring : HashRing) {n : ℕ} (i : Fin n) :
    DispatcherChoice → (c : DispatcherCall) → HashDispatcher →
      Option (c.Resp × HashDispatcher) :=
  dispatcherExec ring i

/-- Only the goroutine `checker` places consumers. -/
def placeRule {n : ℕ} (checker i : Fin n) (c : DispatcherCall) (_ : HashDispatcher) : Prop :=
  c.places = true → i = checker

/-- The placement agrees with the tables that were read last. -/
def Placement.Agrees (ring : HashRing) (instanceID : String) (p : Placement) : Prop :=
  ∀ instances consumers, p.read = (some instances,some consumers) →
    ∀ consumer ∈ consumers, consumer.name ∈ p.consumerSet ↔
      ring.locateKey (HashDispatcher.readyInstances instances).toFinset consumer.name = instanceID

section

variable {ring : HashRing} {n : ℕ} {checker : Fin n} {ch : DispatcherChoice}
  {c : DispatcherCall} {d d' : HashDispatcher} {r : c.Resp} {β : Type}

theorem dispatcherExec_placement {t : ℕ} (hc : c.places = false)
    (hx : dispatcherExec ring t ch c d = some (r,d')) : d'.placement = d.placement := by
  cases c with
  | allInstances | allConsumers | addMember | removeMember | append | removeAll => cases hc
  | getMembers | locateKey | toSlice | done | forget | addRateLimited => cases hx; rfl
  | contains | add | resync | handleStatusUpdate =>
    cases hx
    simp [HashDispatcher.placement,HashDispatcher.record,lastCheck]
  | get =>
    simp only [dispatcherExec] at hx
    split at hx
    · cases hx; rfl
    · obtain ⟨p,-,he⟩ := Option.map_eq_some_iff.mp hx
      cases he
      simp [HashDispatcher.placement,HashDispatcher.record,lastCheck]
  | expire key =>
    obtain ⟨q,-,he⟩ := Option.map_eq_some_iff.mp hx
    cases he
    rfl

theorem append_placement {t : ℕ} {names : List String} {u : Unit}
    (hx : dispatcherExec ring t ch (.append names) d = some (u,d')) : d'.placement =
      { d.placement with consumerSet := names.toFinset ∪ d.placement.consumerSet } := by
  cases hx
  simp only [HashDispatcher.placement,HashDispatcher.record,Placement.mk.injEq,true_and]
  refine ⟨?_,by simp [lastCheck]⟩
  ext name
  simp

theorem removeAll_placement {t : ℕ} {names : List String} {u : Unit}
    (hx : dispatcherExec ring t ch (.removeAll names) d = some (u,d')) : d'.placement =
      { d.placement with consumerSet := d.placement.consumerSet \ names.toFinset } := by
  cases hx
  simp only [HashDispatcher.placement,HashDispatcher.record,Placement.mk.injEq,true_and]
  refine ⟨?_,by simp [lastCheck]⟩
  ext name
  simp

/-- Nobody but the checker changes what an assertion about the placement says. -/
theorem stable_placement (A : Placement → Prop) :
    Stable (dispatcherPool ring) (placeRule checker) checker fun d => A d.placement := by
  intro j hj o c d r d' ha hx hA
  have hc : c.places = false := by
    by_contra hc
    exact hj (ha (by simpa using hc))
  exact dispatcherExec_placement hc hx ▸ hA

/-- A call of the checker takes one placement to another. -/
theorem safe_placing {Q : β → HashDispatcher → Prop} {p : Placement} {f : c.Resp → Placement}
    {S : c.Resp → Prop} {k : c.Resp → DispatcherM β}
    (hx : ∀ ch d r d', d.placement = p → dispatcherExec ring checker ch c d = some (r,d') →
      d'.placement = f r ∧ S r)
    (hk : ∀ r, S r → Safe (dispatcherPool ring) (placeRule checker) checker Q (k r)
      fun d => d.placement = f r) :
    Safe (dispatcherPool ring) (placeRule checker) checker Q (.call c k)
      fun d => d.placement = p :=
  Safe.call fun d hp => ⟨fun _ => rfl,fun ch r d' he =>
    ⟨_,stable_placement (· = f r),(hx ch d r d' hp he).1,hk r (hx ch d r d' hp he).2⟩⟩

end

namespace HashDispatcher

variable {ring : HashRing} {n : ℕ} {checker : Fin n} {p : Placement} {instanceID : String}

theorem safe_addMembers (l : List String) (p : Placement) :
    Safe (dispatcherPool ring) (placeRule checker) checker
      (fun _ d => d.placement = { p with members := p.members ∪ l.toFinset }) (addMembers l)
      fun d => d.placement = p := by
  induction l generalizing p with
  | nil => exact Safe.ret fun d hd => by simpa using hd
  | cons member rest ih =>
    refine safe_placing (f := fun _ => { p with members := p.members ∪ {member} })
      (S := fun _ => True) ?_ fun _ _ => (ih _).weaken (fun _ h => h) fun _ d hd => ?_
    · rintro ch d r d' rfl hx
      cases hx
      refine ⟨?_,trivial⟩
      simp only [placement,Placement.mk.injEq,and_true]
      ext x
      simp
    · rw [hd,List.toFinset_cons,Finset.insert_eq,Finset.union_assoc]

theorem safe_removeMembers (l : List String) (p : Placement) :
    Safe (dispatcherPool ring) (placeRule checker) checker
      (fun _ d => d.placement = { p with members := p.members \ l.toFinset }) (removeMembers l)
      fun d => d.placement = p := by
  induction l generalizing p with
  | nil => exact Safe.ret fun d hd => by simpa using hd
  | cons member rest ih =>
    refine safe_placing (f := fun _ => { p with members := p.members \ {member} })
      (S := fun _ => True) ?_ fun _ _ => (ih _).weaken (fun _ h => h) fun _ d hd => ?_
    · rintro ch d r d' rfl hx
      cases hx
      refine ⟨?_,trivial⟩
      simp only [placement,Placement.mk.injEq,and_true]
      ext x
      simp
    · rw [hd,List.toFinset_cons,Finset.insert_eq,sdiff_sdiff_left,Finset.sup_eq_union]

/-- The consumers that an update takes over. -/
def gained (ring : HashRing) (instanceID : String) (p : Placement) (consumers : List Consumer) :
    List String :=
  (consumers.map Consumer.name).filter fun name =>
    ring.locateKey p.members name = instanceID ∧ name ∉ p.consumerSet

/-- The consumers that an update gives up. -/
def lost (ring : HashRing) (instanceID : String) (p : Placement) (consumers : List Consumer) :
    List String :=
  (consumers.map Consumer.name).filter fun name =>
    ring.locateKey p.members name ≠ instanceID ∧ name ∈ p.consumerSet

theorem safe_locateKey {β : Type} {Q : β → HashDispatcher → Prop} {key : String}
    {k : String → DispatcherM β}
    (hk : Safe (dispatcherPool ring) (placeRule checker) checker Q
      (k (ring.locateKey p.members key)) fun d => d.placement = p) :
    Safe (dispatcherPool ring) (placeRule checker) checker Q (.call (.locateKey key) k)
      fun d => d.placement = p :=
  safe_placing (f := fun _ => p) (S := fun r => r = ring.locateKey p.members key)
    (by rintro ch d r d' rfl hx; cases hx; exact ⟨rfl,rfl⟩) fun _ hr => hr ▸ hk

theorem safe_contains {β : Type} {Q : β → HashDispatcher → Prop} {name : String}
    {k : Bool → DispatcherM β}
    (hk : Safe (dispatcherPool ring) (placeRule checker) checker Q
      (k (decide (name ∈ p.consumerSet))) fun d => d.placement = p) :
    Safe (dispatcherPool ring) (placeRule checker) checker Q (.call (.contains name) k)
      fun d => d.placement = p := by
  refine safe_placing (f := fun _ => p) (S := fun r => r = decide (name ∈ p.consumerSet))
    ?_ fun _ hr => hr ▸ hk
  rintro ch d r d' rfl hx
  refine ⟨dispatcherExec_placement rfl hx,?_⟩
  cases hx
  simp [dispatch,placement]

theorem safe_sortConsumers (consumers : List Consumer) (toAdd toRemove : List String) :
    Safe (dispatcherPool ring) (placeRule checker) checker
      (fun sorted d => sorted = (toAdd ++ gained ring instanceID p consumers,
          toRemove ++ lost ring instanceID p consumers) ∧ d.placement = p)
      (sortConsumers instanceID consumers toAdd toRemove) fun d => d.placement = p := by
  induction consumers generalizing toAdd toRemove with
  | nil => exact Safe.ret fun d hd => ⟨by simp [gained,lost],hd⟩
  | cons consumer rest ih =>
    simp only [sortConsumers,Prog.lift_bind]
    refine safe_locateKey ?_
    by_cases hl : ring.locateKey p.members consumer.name = instanceID
    · rw [if_pos hl]
      refine safe_contains ?_
      by_cases hc : consumer.name ∈ p.consumerSet
      · simpa [hc,gained,lost,hl] using ih toAdd toRemove
      · simp only [hc,decide_false,Bool.not_false,if_true]
        refine safe_placing (f := fun _ => p) (S := fun _ => True)
          (fun ch d r d' hd hx => ⟨(dispatcherExec_placement rfl hx).trans hd,trivial⟩)
          fun _ _ => ?_
        simpa [hc,gained,lost,hl] using ih (toAdd ++ [consumer.name]) toRemove
    · rw [if_neg hl]
      refine safe_contains ?_
      by_cases hc : consumer.name ∈ p.consumerSet
      · simpa [hc,gained,lost,hl] using ih toAdd (toRemove ++ [consumer.name])
      · simpa [hc,gained,lost,hl] using ih toAdd toRemove

/-- What has been read after the query of the instances. -/
def readInstances :
    Except DbErr (List ServerInstance) → Option (List ServerInstance) × Option (List Consumer)
  | .ok instances => (some instances,none)
  | .error _ => (none,none)

/-- What has been read after the query of the consumers. -/
def readConsumers (instances : List ServerInstance) :
    Except DbErr (List Consumer) → Option (List ServerInstance) × Option (List Consumer)
  | .ok consumers => (some instances,some consumers)
  | .error _ => (none,none)

/-- After an update, a listed consumer is in the set just when the ring places it here. -/
theorem mem_updated {consumers : List Consumer} {consumer : Consumer} (hc : consumer ∈ consumers) :
    consumer.name ∈ ((gained ring instanceID p consumers).toFinset ∪ p.consumerSet) \
        (lost ring instanceID p consumers).toFinset ↔
      ring.locateKey p.members consumer.name = instanceID := by
  have hm : consumer.name ∈ consumers.map Consumer.name := List.mem_map_of_mem hc
  simp only [Finset.mem_sdiff,Finset.mem_union,List.mem_toFinset,gained,lost,List.mem_filter,hm,
    true_and,decide_eq_true_eq]
  tauto

theorem safe_updateConsumerSet {instances : List ServerInstance}
    (hm : p.members = (readyInstances instances).toFinset) (hr : p.read = (some instances,none)) :
    Safe (dispatcherPool ring) (placeRule checker) checker
      (fun _ d => d.placement.Agrees ring instanceID) (updateConsumerSet instanceID)
      fun d => d.placement = p := by
  simp only [updateConsumerSet,Prog.lift_bind]
  refine safe_placing (f := fun _ => p) (S := fun _ => True)
    (fun ch d r d' hd hx => ⟨(dispatcherExec_placement rfl hx).trans hd,trivial⟩) fun members _ => ?_
  split
  · refine Safe.ret fun d hd instances consumers hread => ?_
    rw [hd,hr] at hread
    cases hread
  refine safe_placing (f := fun r => { p with read := readConsumers instances r })
    (S := fun _ => True) ?_ fun r _ => ?_
  · rintro ch d r d' rfl hx
    have hlast : (lastCheck d.log).1 = some instances := congrArg Prod.fst hr
    simp only [dispatcherExec] at hx
    split at hx <;> cases hx
    · simp [placement,record,lastCheck,readConsumers] at hlast ⊢
      exact hlast
    · simp [placement,record,lastCheck,readConsumers]
  cases r with
  | error err =>
    refine Safe.ret fun d hd instances consumers hread => ?_
    rw [hd] at hread
    cases hread
  | ok consumers =>
    refine (safe_sortConsumers consumers [] []).bind fun sorted => Safe.of_fact fun hs => ?_
    subst hs
    refine safe_placing (f := fun _ =>
      { p with
        consumerSet := (gained ring instanceID p consumers).toFinset ∪ p.consumerSet
        read := (some instances,some consumers) }) (S := fun _ => True) ?_ fun _ _ => ?_
    · rintro ch d r d' hd hx
      exact ⟨by rw [append_placement hx,hd]; rfl,trivial⟩
    refine safe_placing (f := fun _ =>
      { p with
        consumerSet := ((gained ring instanceID p consumers).toFinset ∪ p.consumerSet) \
          (lost ring instanceID p consumers).toFinset
        read := (some instances,some consumers) }) (S := fun _ => True) ?_ fun _ _ => ?_
    · rintro ch d r d' hd hx
      exact ⟨by rw [removeAll_placement hx,hd]; rfl,trivial⟩
    refine Safe.ret fun d hd instances' consumers' hread consumer hc => ?_
    rw [hd] at hread ⊢
    cases hread
    rw [← hm]
    exact mem_updated hc

theorem safe_check : Safe (dispatcherPool ring) (placeRule checker) checker
    (fun _ d => d.placement.Agrees ring instanceID) (check instanceID) fun _ => True := by
  refine (Safe.exists (P := fun p d => d.placement = p) fun p => ?_).weaken
    (fun d _ => ⟨_,rfl⟩) fun _ _ h => h
  simp only [check,Prog.lift_bind]
  refine safe_placing (f := fun r => { p with read := readInstances r }) (S := fun _ => True)
    ?_ fun r _ => ?_
  · rintro ch d r d' rfl hx
    simp only [dispatcherExec] at hx
    split at hx <;> cases hx <;> simp [placement,record,lastCheck,readInstances]
  cases r with
  | error err =>
    refine Safe.ret fun d hd instances consumers hread => ?_
    rw [hd] at hread
    cases hread
  | ok instances =>
    refine safe_placing (f := fun _ => { p with read := (some instances,none) })
      (S := fun members : List String => members.toFinset = p.members) ?_ fun members hmembers => ?_
    · rintro ch d r d' hd hx
      cases hx
      exact ⟨hd,congrArg Placement.members hd⟩
    refine (safe_addMembers _ _).bind fun _ => (safe_removeMembers _ _).bind fun _ => ?_
    refine (safe_updateConsumerSet ?_ rfl).bind fun _ => Safe.ret fun _ h => h
    change (p.members ∪ _) \ _ = _
    rw [← hmembers]
    ext id
    simp only [Finset.mem_sdiff,Finset.mem_union,List.mem_toFinset,List.mem_filter,
      decide_eq_true_eq]
    tauto

theorem safe_checking (rounds : ℕ) : Safe (dispatcherPool ring) (placeRule checker) checker
    (fun _ d => d.placement.Agrees ring instanceID) (checking instanceID rounds)
    fun d => d.placement.Agrees ring instanceID := by
  induction rounds with
  | zero => exact Safe.ret fun _ h => h
  | succ n ih => exact (safe_check.weaken (fun _ _ => trivial) fun _ _ h => h).bind fun _ => ih

def Task.isChecking : Task → Bool
  | .checking _ => true
  | _ => false

variable {V : (c : DispatcherCall) → c.Resp → Prop}

theorem processNextResync_calls :
    processNextResync.Calls V (fun c => c.places = false) fun _ => True := by
  refine .lift_bind rfl fun key _ => ?_
  cases key with
  | none => exact trivial
  | some consumerName =>
    refine .deferring (.lift_bind rfl fun r _ => ?_) ⟨rfl,fun _ _ => trivial⟩
    cases r with
    | error err => exact .lift_bind rfl fun _ _ => trivial
    | ok u => exact .lift_bind rfl fun _ _ => trivial

theorem worker_calls (rounds : ℕ) :
    (worker rounds).Calls V (fun c => c.places = false) fun _ => True := by
  induction rounds with
  | zero => exact trivial
  | succ n ih =>
    refine processNextResync_calls.bind fun more _ => ?_
    cases more with
    | false => exact trivial
    | true => exact ih

theorem resyncOnReconnect_calls (rounds : ℕ) :
    (resyncOnReconnect rounds).Calls V (fun c => c.passive = true) fun _ => True := by
  induction rounds with
  | zero => exact trivial
  | succ n ih => exact .lift_bind rfl fun _ _ => .lift_bind rfl fun _ _ => ih

theorem receiveStatus_calls (resourceID consumerName : String) :
    (receiveStatus resourceID consumerName).Calls V (fun c => c.passive = true)
      fun _ => True := by
  refine .lift_bind rfl fun owned _ => ?_
  cases owned with
  | false => exact trivial
  | true =>
    refine .lift_bind rfl fun r _ => ?_
    cases r with
    | error err => exact trivial
    | ok u => exact trivial

theorem receiving_calls (messages : List (String × String)) :
    (receiving messages).Calls V (fun c => c.passive = true) fun _ => True := by
  induction messages with
  | nil => exact trivial
  | cons message rest ih => exact (receiveStatus_calls _ _).bind fun _ _ => ih

theorem limiter_calls (keys : List String) :
    (limiter keys).Calls V (fun c => c.passive = true) fun _ => True := by
  induction keys with
  | nil => exact trivial
  | cons key rest ih => exact .lift_bind rfl fun _ _ => ih

/-- The other goroutines place nothing. -/
theorem program_calls {task : Task} (h : task.isChecking = false) :
    (task.program instanceID).Calls V (fun c => c.places = false) fun _ => True := by
  cases task with
  | checking rounds => cases h
  | worker rounds => exact worker_calls rounds
  | reconnecting rounds =>
    exact (resyncOnReconnect_calls rounds).mono (fun _ => DispatcherCall.places_of_passive) fun _ h => h
  | receiving messages =>
    exact (receiving_calls messages).mono (fun _ => DispatcherCall.places_of_passive) fun _ h => h
  | limiter keys => exact (limiter_calls keys).mono (fun _ => DispatcherCall.places_of_passive) fun _ h => h

end HashDispatcher

/-- An instance whose dispatcher has run for a while: any number of goroutines of which one
checks, from any ring, consumer set and work queue. -/
structure DispatcherRun (ring : HashRing) where
  instanceID : String
  size : ℕ
  tasks : Fin size → HashDispatcher.Task
  checker : Fin size
  checker_iff : ∀ i, (tasks i).isChecking = true ↔ i = checker
  start : HashDispatcher
  fresh : start.log = []
  current : Config (Fin size) HashDispatcher DispatcherCall DispatcherCall.Resp Unit
  reach : Reach (dispatcherPool ring) ⟨start,fun i => (tasks i).program instanceID⟩ current

namespace DispatcherRun

variable {ring : HashRing} (run : DispatcherRun ring)

/-- No check is going on, and the last one read these tables without error. -/
def CheckedAgainst (instances : List ServerInstance) (consumers : List Consumer) : Prop :=
  run.current.threads run.checker = .ret () ∧ ∃ instances' consumers',
    lastCheck run.current.shared.log = (some instances',some consumers') ∧
      instances'.Perm instances ∧ consumers'.Perm consumers

theorem verified : Verified (dispatcherPool ring) (placeRule run.checker)
    (fun i _ d => i = run.checker → d.placement.Agrees ring run.instanceID) run.current := by
  refine Verified.reach (fun i => ?_) run.reach
  by_cases hi : i = run.checker
  · have hread : run.start.placement.read = (none,none) :=
      congrArg lastCheck run.fresh
    refine ⟨fun d => d.placement.Agrees ring run.instanceID,?_,?_,?_⟩
    · exact hi ▸ stable_placement _
    · intro instances consumers h
      rw [hread] at h
      cases h
    · have hc := (run.checker_iff i).mpr hi
      cases ht : run.tasks i with
      | checking rounds =>
        subst hi
        simp only [ht]
        exact (HashDispatcher.safe_checking rounds).weaken (fun _ h => h) fun _ _ h _ => h
      | worker _ | reconnecting _ | receiving _ | limiter _ => rw [ht] at hc; cases hc
  · have hc : (run.tasks i).isChecking = false := by
      by_contra h
      exact hi ((run.checker_iff i).mp (by simpa using h))
    refine ⟨fun _ => True,.const True,trivial,?_⟩
    refine (Safe.of_calls (V := fun _ _ => True) (fun _ _ _ _ _ _ => trivial)
      (fun _ _ _ _ _ _ _ _ _ => trivial) (fun c d hc _ hp => ?_)
      (HashDispatcher.program_calls hc)).weaken (fun _ h => h) fun _ _ _ h => absurd h hi
    rw [hc] at hp
    cases hp

/-- Which consumers an instance owns is decided by the tables that its last check read. -/
theorem dispatch_iff {instances : List ServerInstance} {consumers : List Consumer}
    (h : run.CheckedAgainst instances consumers) {consumer : Consumer}
    (hc : consumer ∈ consumers) : run.current.shared.dispatch consumer.name = true ↔
      ring.locateKey (HashDispatcher.readyInstances instances).toFinset consumer.name =
        run.instanceID := by
  obtain ⟨hret,instances',consumers',hread,hi,hcs⟩ := h
  have hagree := run.verified.result hret rfl instances' consumers' hread consumer
    (hcs.mem_iff.mpr hc)
  have hready : (HashDispatcher.readyInstances instances').toFinset =
      (HashDispatcher.readyInstances instances).toFinset :=
    List.toFinset_eq_of_perm _ _ ((hi.filter _).map _)
  rw [← hready,← hagree]
  simp [HashDispatcher.dispatch,HashDispatcher.placement]

end DispatcherRun

/-- Instances that last checked against the same tables, whatever happened before, agree that
the instance which the ring names owns a consumer, and no other does. -/
theorem consumer_owned_once {ring : HashRing} {ι : Type} (runs : ι → DispatcherRun ring)
    (hids : Function.Injective fun i => (runs i).instanceID)
    {instances : List ServerInstance} {consumers : List Consumer}
    (hchecked : ∀ i, (runs i).CheckedAgainst instances consumers)
    (hready : ∃ row ∈ instances, row.ready = true)
    (hrun : ∀ row ∈ instances, row.ready = true → ∃ i, (runs i).instanceID = row.id)
    {consumer : Consumer} (hc : consumer ∈ consumers) :
    ∃ i, (runs i).instanceID = ring.locateKey
        (HashDispatcher.readyInstances instances).toFinset consumer.name ∧
      (runs i).instanceID ∈ HashDispatcher.readyInstances instances ∧
      (∀ j, (runs j).current.shared.dispatch consumer.name = true ↔ j = i) ∧
      ∀ j, (runs j).instanceID ∉ HashDispatcher.readyInstances instances →
        (runs j).current.shared.dispatch consumer.name = false := by
  have hmem := @HashRing.locateKey_mem ring (HashDispatcher.readyInstances instances).toFinset
    consumer.name (by
      obtain ⟨row,hrow,hr⟩ := hready
      exact ⟨row.id,List.mem_toFinset.mpr
        (List.mem_map_of_mem (List.mem_filter.mpr ⟨hrow,hr⟩))⟩)
  have howner := List.mem_toFinset.mp hmem
  obtain ⟨row,hrow,hid⟩ := List.mem_map.mp howner
  obtain ⟨i,hi⟩ := hrun row (List.mem_filter.mp hrow).1 (List.mem_filter.mp hrow).2
  have hi := hi.trans hid
  have hiff : ∀ j, (runs j).current.shared.dispatch consumer.name = true ↔ j = i := by
    intro j
    rw [(runs j).dispatch_iff (hchecked j) hc,← hi]
    exact ⟨fun h => (hids h).symm,fun h => by rw [h]⟩
  refine ⟨i,hi,hi ▸ howner,hiff,fun j hj => ?_⟩
  rw [Bool.eq_false_iff]
  rintro hd
  rw [(hiff j).mp hd,hi] at hj
  exact hj howner

/-- A ring that looks for the members in an order that depends on the key. -/
def twoRing : HashRing where
  locateKey members key :=
    let order := if key = "cluster1" then ["maestro-0","maestro-1"] else ["maestro-1","maestro-0"]
    match order.find? fun id => id ∈ members with
    | some id => id
    | none => if h : members.Nonempty then members.min' h else ""
  locateKey_mem {members} key hn := by
    dsimp only
    split
    · next id hid => simpa using List.find?_some hid
    · rw [dif_pos hn]
      exact members.min'_mem hn

def twoConsumers : List Consumer :=
  [{ id := "1", name := "cluster1" },{ id := "2", name := "cluster2" }]

/-- Two instances that are ready and one that is not. -/
def threeInstances : List ServerInstance :=
  [⟨"maestro-0",true⟩,⟨"maestro-1",true⟩,⟨"maestro-2",false⟩]

def threeTasks (i : Fin 3) : Fin 1 → HashDispatcher.Task
  | 0 => .checking (if i = 1 then 2 else 1)

/-- The second instance was the only one once. -/
def threeTurns (i : Fin 3) : List (Fin 1 × DispatcherChoice) :=
  let last : Fin 1 × DispatcherChoice :=
    (0,{ instances := .ok threeInstances, consumers := .ok twoConsumers })
  match i with
  | 0 => List.replicate 13 last
  | 1 => List.replicate 13
      (0,{ instances := .ok [⟨"maestro-1",true⟩], consumers := .ok twoConsumers }) ++
    List.replicate 11 last
  | 2 => List.replicate 12 last

theorem consumer_owned_once_three : ∃ runs : Fin 3 → DispatcherRun twoRing,
    (∀ i, (runs i).CheckedAgainst threeInstances twoConsumers) ∧
      ∃ i, (runs i).instanceID = "maestro-0" ∧
        ∀ j, (runs j).current.shared.dispatch "cluster1" = true ↔ j = i := by
  have h : ∀ i : Fin 3, (follow (dispatcherPool twoRing) (threeTurns i)
      ⟨{},fun j => (threeTasks i j).program ("maestro-" ++ toString i.val)⟩).any fun cfg =>
      decide ((cfg.threads 0).result = some () ∧
        lastCheck cfg.shared.log = (some threeInstances,some twoConsumers)) := by
    decide +kernel
  simp only [Option.any_eq_true,decide_eq_true_eq] at h
  choose cfg hfollow hret hlast using h
  let runs (i : Fin 3) : DispatcherRun twoRing :=
    { instanceID := "maestro-" ++ toString i.val
      size := 1
      tasks := threeTasks i
      checker := 0
      checker_iff := fun j => by rw [Subsingleton.elim j 0]; exact iff_of_true rfl rfl
      start := {}
      fresh := rfl
      current := cfg i
      reach := .of_follow _ (hfollow i) }
  have hchecked : ∀ i, (runs i).CheckedAgainst threeInstances twoConsumers := fun i =>
    ⟨Prog.result_eq_some.mp (hret i),_,_,hlast i,.refl _,.refl _⟩
  have hids : Function.Injective fun i => (runs i).instanceID := by
    change Function.Injective fun i : Fin 3 => "maestro-" ++ toString i.val
    decide
  have hrun : ∀ row ∈ threeInstances, row.ready = true → ∃ i, (runs i).instanceID = row.id := by
    change ∀ row ∈ threeInstances, row.ready = true → ∃ i : Fin 3, "maestro-" ++ toString i.val =
      row.id
    decide
  have hc : (⟨"1",0,0,"cluster1",none⟩ : Consumer) ∈ twoConsumers := List.mem_cons_self
  obtain ⟨i,hi,-,hiff,-⟩ :=
    consumer_owned_once runs hids hchecked ⟨_,List.mem_cons_self,rfl⟩ hrun hc
  exact ⟨runs,hchecked,i,hi.trans (by decide),hiff⟩

end Maestro
