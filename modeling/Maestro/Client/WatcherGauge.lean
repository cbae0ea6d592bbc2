import Maestro.Client.WatcherStop
import Maestro.Data.Search

/-!
# The gauge of registered watchers

`registerWatcher` increases the gauge of its source and namespace, and every call of `Stop`
decreases it and closes a channel: the first one `done`, the second one `result`. So each
watcher has to be stopped at most once.
-/

namespace Maestro
open Data Concurrent

namespace WatcherStore

/-- The store with the gauge, which has a value for each source and namespace, and the watchers
in whose `Stop` the gauge was decreased. -/
structure MeteredStore where
  store : WatcherStore := {}
  gauge : String × String → ℤ := fun _ => 0
  decreased : List ℕ := []

/-- The change of the gauge by a call. `Stop` decreases it before it closes a channel. -/
def MeteredStore.after (sourceID : String) (s : MeteredStore) (store : WatcherStore) :
    StoreCall → MeteredStore
  | .putWatcher ns _ => { s with
      store := store
      gauge := Function.update s.gauge (sourceID,ns) (s.gauge (sourceID,ns) + 1) }
  | .stop watcher =>
    match s.store.heap[watcher]? with
    | none => { s with store := store }
    | some w => {
        store := store
        gauge := Function.update s.gauge (sourceID,w.namespace_)
          (s.gauge (sourceID,w.namespace_) - 1)
        decreased := s.decreased ++ [watcher] }
  | _ => { s with store := store }

/-- The execution of a call, with the gauge. -/
def meteredExec (selects : String → Work → Bool) (sourceID : String) (i : ℕ) (o : StoreChoice)
    (c : StoreCall) (s : MeteredStore) : Option (c.Resp × MeteredStore) :=
  (exec selects i o c s.store).map fun p => (p.1,s.after sourceID p.2 c)

abbrev MeteredConfig := Config ℕ MeteredStore StoreCall StoreCall.Resp Unit

def meteredStart (pkg : LabelsPackage) (quote : String → String) (sourceID : String)
    (works : List Work) (activities : ℕ → Activity) : MeteredConfig :=
  ⟨{ store := (storeStart pkg quote sourceID works activities).shared },
    (storeStart pkg quote sourceID works activities).threads⟩

/-- The watcher runs in the namespace. -/
def runsIn (ns : String) (w : WorkWatcher) : Bool := w.namespace_ = ns && !w.stopped

/-- No closed channel was closed or sent on, the gauge was decreased once for each stopped watcher
and not for another, and it is the number of those that run. -/
structure Accurate (sourceID : String) (s : MeteredStore) : Prop where
  calm : s.store.panicked = false
  once : ∀ watcher, s.decreased.count watcher = if s.store.stopped watcher then 1 else 0
  gauge : ∀ ns, s.gauge (sourceID,ns) = s.store.heap.countP (runsIn ns)

/-- A watcher is stopped only while it runs. -/
def StopsRunning (cfg : MeteredConfig) (c : StoreCall) : Prop :=
  ∀ watcher, c = .stop watcher → cfg.shared.store.stopped watcher = false

section Steps

variable {selects : String → Work → Bool} {sourceID : String} {i : ℕ} {o : StoreChoice}
  {c : StoreCall} {s s' : WatcherStore} {r : c.Resp}

theorem exec_heap (h : exec selects i o c s = some (r,s'))
    (hput : ∀ ns labelSelector, c ≠ .putWatcher ns labelSelector) (hstop : ∀ watcher, c ≠ .stop watcher) :
    s'.heap = s.heap := by
  cases exec_effect h with
  | putWatcher ns labelSelector => exact absurd rfl (hput ns labelSelector)
  | stop watcher => exact absurd rfl (hstop watcher)
  | _ => rfl

theorem exec_stop {watcher : ℕ} {r : Unit} (h : exec selects i o (.stop watcher) s = some (r,s')) :
    ∃ w, s.heap[watcher]? = some w ∧ (w.stopped = false ∧
        s' = s.updateWatcher watcher (fun w => { w with stopped := true }) ∨ w.stopped = true) := by
  rw [exec.eq_def] at h
  split at h
  · cases h
  dsimp only at h
  split at h
  · cases h
  next w hw =>
  refine ⟨w,hw,?_⟩
  split at h
  · next hrun =>
    cases h
    exact Or.inl ⟨by simpa using hrun,rfl⟩
  · next hstopped => exact Or.inr (by simpa using hstopped)

/-- Without a closed channel there is no panic. -/
theorem exec_calm (h : exec selects i o c s = some (r,s'))
    (hopen : ∀ w ∈ s.heap, w.resultClosed = false) (hstop : ∀ watcher, c ≠ .stop watcher) :
    s'.panicked = false := by
  have hcalm : s.panicked = false := by
    rw [exec.eq_def] at h
    split at h
    · cases h
    · next hp => simpa using hp
  cases c with
  | stop watcher => exact absurd rfl (hstop watcher)
  | send watcher evt =>
    rw [exec.eq_def] at h
    simp only [hcalm,Bool.false_eq_true,if_false] at h
    split at h
    · cases h
    next w hw =>
    rw [hopen w (List.mem_of_getElem? hw)] at h
    simp only [Bool.false_eq_true,if_false] at h
    split at h
    · cases h
    · cases h
      rfl
  | _ =>
    cases exec_effect h
    all_goals exact hcalm

/-- Nothing is closed but the `done` of stopped watchers. -/
structure Metered (sourceID : String) (s : MeteredStore) : Prop extends Accurate sourceID s where
  isOpen : ∀ w ∈ s.store.heap, w.resultClosed = false

variable {m : MeteredStore}

theorem Metered.put (h : Metered sourceID m) {ns : String} {labelSelector : LabelSelector}
    {store : WatcherStore} (hcalm : store.panicked = false)
    (hheap : store.heap = m.store.heap ++ [⟨ns,labelSelector,false,false⟩]) :
    Metered sourceID (m.after sourceID store (.putWatcher ns labelSelector)) := by
  refine ⟨⟨hcalm,fun watcher => ?_,fun ns' => ?_⟩,fun w hw => ?_⟩
  · refine (h.once watcher).trans (if_congr (Bool.eq_iff_iff.mp ?_) rfl rfl)
    change m.store.stopped watcher = store.stopped watcher
    rw [stopped,stopped,hheap,List.getElem?_append]
    split
    · rfl
    · next hlt =>
      rw [List.getElem?_eq_none (Nat.le_of_not_lt hlt)]
      cases hw : [(⟨ns,labelSelector,false,false⟩ : WorkWatcher)][watcher - m.store.heap.length]? with
      | none => rfl
      | some w =>
        rw [List.mem_singleton.mp (List.mem_of_getElem? hw)]
        rfl
  · change Function.update m.gauge (sourceID,ns) _ (sourceID,ns') = (store.heap.countP _ : ℤ)
    rw [hheap,List.countP_append,List.countP_singleton]
    by_cases hns : ns' = ns
    · subst hns
      rw [Function.update_self,h.gauge]
      simp [runsIn]
    · rw [Function.update_of_ne (fun he => hns (Prod.ext_iff.mp he).2),h.gauge]
      simp [runsIn,Ne.symm hns]
  · change w ∈ store.heap at hw
    rw [hheap] at hw
    rcases List.mem_append.mp hw with hw | hw
    · exact h.isOpen w hw
    · rw [List.mem_singleton.mp hw]

theorem Metered.stopOne (h : Metered sourceID m) {watcher : ℕ} {w : WorkWatcher}
    (hw : m.store.heap[watcher]? = some w) (hrun : w.stopped = false) :
    Metered sourceID (m.after sourceID
      (m.store.updateWatcher watcher fun w => { w with stopped := true }) (.stop watcher)) := by
  have hafter : m.after sourceID (m.store.updateWatcher watcher fun w => { w with stopped := true })
      (.stop watcher) = {
        store := m.store.updateWatcher watcher fun w => { w with stopped := true }
        gauge := Function.update m.gauge (sourceID,w.namespace_)
          (m.gauge (sourceID,w.namespace_) - 1)
        decreased := m.decreased ++ [watcher] } := by
    simp only [MeteredStore.after,hw]
  rw [hafter]
  refine ⟨⟨h.calm,fun k => ?_,fun ns => ?_⟩,fun w' hw' => ?_⟩
  · have hold := h.once k
    dsimp only
    rw [List.count_append,hold,List.count_singleton]
    rw [stopped,stopped,getElem?_updateWatcher]
    by_cases hk : k = watcher
    · subst hk
      simp [hw,hrun]
    · simp [hk,Ne.symm hk]
  · have hcount := countP_modify (runsIn ns) (fun w => { w with stopped := true }) hw
    have hold := h.gauge ns
    have hstopped : runsIn ns { w with stopped := true } = false := by simp [runsIn]
    simp only [hstopped,Bool.false_eq_true,if_false,add_zero] at hcount
    change Function.update m.gauge (sourceID,w.namespace_) _ (sourceID,ns) =
      ((m.store.heap.modify watcher _).countP (runsIn ns) : ℤ)
    by_cases hns : ns = w.namespace_
    · subst hns
      have hone : runsIn w.namespace_ w = true := by simp [runsIn,hrun]
      rw [hone,if_pos rfl] at hcount
      rw [Function.update_self,hold]
      omega
    · have hnone : runsIn ns w = false := by simp [runsIn,Ne.symm hns]
      rw [hnone,if_neg Bool.false_ne_true] at hcount
      rw [Function.update_of_ne (fun he => hns (Prod.ext_iff.mp he).2),hold]
      omega
  · obtain ⟨k,hk⟩ := List.mem_iff_getElem?.mp hw'
    rw [getElem?_updateWatcher] at hk
    split at hk
    · next hkw =>
      rw [hkw,hw] at hk
      cases hk
      exact h.isOpen w (List.mem_of_getElem? hw)
    · exact h.isOpen w' (List.mem_of_getElem? hk)

theorem Metered.other (h : Metered sourceID m) {store : WatcherStore}
    (hcalm : store.panicked = false) (hheap : store.heap = m.store.heap) :
    Metered sourceID { m with store := store } := by
  have hstopped : ∀ k, store.stopped k = m.store.stopped k := fun k => by rw [stopped,stopped,hheap]
  refine ⟨⟨hcalm,fun k => ?_,fun ns => ?_⟩,fun w hw => h.isOpen w (hheap ▸ hw)⟩
  · rw [hstopped]
    exact h.once k
  · rw [hheap]
    exact h.gauge ns

/-- A call that stops only a running watcher. -/
theorem Metered.step {m' : MeteredStore} (h : Metered sourceID m)
    (hx : meteredExec selects sourceID i o c m = some (r,m'))
    (hstop : ∀ watcher, c = .stop watcher → m.store.stopped watcher = false) :
    Metered sourceID m' := by
  obtain ⟨⟨r',store⟩,hexec,heq⟩ := Option.map_eq_some_iff.mp hx
  cases heq
  cases c with
  | putWatcher ns labelSelector =>
    have hcalm := exec_calm hexec h.isOpen fun _ => StoreCall.noConfusion
    cases exec_effect hexec
    exact h.put hcalm rfl
  | stop watcher =>
    obtain ⟨w,hw,⟨hrun,rfl⟩ | hstopped⟩ := exec_stop hexec
    · exact h.stopOne hw hrun
    · have hrun := hstop watcher rfl
      rw [stopped,hw,Option.any_some,hstopped] at hrun
      cases hrun
  | _ =>
    have hcalm := exec_calm hexec h.isOpen fun _ => StoreCall.noConfusion
    have hheap := exec_heap hexec (fun _ _ => StoreCall.noConfusion) fun _ => StoreCall.noConfusion
    exact h.other hcalm hheap

/-- A stop of a stopped watcher decreases the gauge once more. -/
theorem Accurate.not_stop_again {watcher : ℕ} {m' : MeteredStore} {r : Unit}
    (h : Accurate sourceID m)
    (hx : meteredExec selects sourceID i o (.stop watcher) m = some (r,m'))
    (hstopped : m.store.stopped watcher = true) : ¬ Accurate sourceID m' := by
  intro h'
  obtain ⟨⟨r',store⟩,hexec,heq⟩ := Option.map_eq_some_iff.mp hx
  obtain ⟨w,hw,-⟩ := exec_stop hexec
  have hm' : m'.decreased = m.decreased ++ [watcher] := by
    simp only [Prod.mk.injEq] at heq
    rw [← heq.2]
    simp only [MeteredStore.after,hw]
  have htwo := h'.once watcher
  rw [hm',List.count_append,h.once watcher,hstopped,List.count_singleton_self,if_pos rfl] at htwo
  split at htwo <;> omega

end Steps

/-- In a run that stops only running watchers no closed channel is closed or sent on, and the
gauge is accurate. A further step keeps it so if and only if it stops no stopped watcher. -/
theorem gauge_accurate_iff (selects : String → Work → Bool) (pkg : LabelsPackage)
    (quote : String → String) (sourceID : String) (works : List Work) (activities : ℕ → Activity)
    {cfg : MeteredConfig} (hr : ReachWhen (meteredExec selects sourceID) StopsRunning
      (meteredStart pkg quote sourceID works activities) cfg) :
    Accurate sourceID cfg.shared ∧ ∀ i o c r s', (cfg.threads i).pending = some c →
      meteredExec selects sourceID i o c cfg.shared = some (r,s') →
        (Accurate sourceID s' ↔ StopsRunning cfg c) := by
  have hmetered : Metered sourceID cfg.shared := by
    induction hr with
    | refl => exact ⟨⟨rfl,fun _ => rfl,fun _ => rfl⟩,fun _ hw => nomatch hw⟩
    | tail _ hs ih =>
      obtain ⟨i,o,ht,hx,hg⟩ := hs
      exact ih.step hx hg
  refine ⟨hmetered.toAccurate,fun i o c r s' _ hx => ⟨fun h watcher hc => ?_,fun hg => ?_⟩⟩
  · subst hc
    refine Bool.eq_false_iff.mpr fun hstopped => ?_
    exact hmetered.toAccurate.not_stop_again hx hstopped h
  · exact (hmetered.step hx hg).toAccurate

/-! ### One stop, and more than one -/

/-- Watchers for all namespaces and for one, and calls that stop the first of them. -/
def gaugeActivities : ℕ → Activity
  | 0 => .getWatcher "" ""
  | 1 => .getWatcher "ns" ""
  | _ => .stop 0

def gaugeStart : MeteredConfig := meteredStart Reference.labelsPackage id "src" [] gaugeActivities

/-- The call stops a watcher that is stopped. -/
def stopsStopped (s : MeteredStore) : StoreCall → Bool
  | .stop watcher => s.store.stopped watcher
  | _ => false

/-- The calls but such stops. -/
def meteredOnce (selects : String → Work → Bool) (sourceID : String) (i : ℕ) (o : StoreChoice)
    (c : StoreCall) (s : MeteredStore) : Option (c.Resp × MeteredStore) :=
  if stopsStopped s c then none else meteredExec selects sourceID i o c s

theorem exec_of_once {selects : String → Work → Bool} {sourceID : String} {i : ℕ}
    {o : StoreChoice} {c : StoreCall} {s s' : MeteredStore} {r : c.Resp}
    (h : meteredOnce selects sourceID i o c s = some (r,s')) :
    meteredExec selects sourceID i o c s = some (r,s') ∧
      ∀ cfg : MeteredConfig, cfg.shared = s → StopsRunning cfg c := by
  rw [meteredOnce] at h
  split at h
  · cases h
  next hc =>
    refine ⟨h,fun cfg hs watcher hw => ?_⟩
    subst hw
    rw [hs]
    exact Bool.eq_false_iff.mpr hc

/-- Two watchers are registered, and the first one is stopped once. -/
theorem gauge_accurate_once : ∃ cfg,
    ReachWhen (meteredExec (fun _ _ => true) "src") StopsRunning gaugeStart cfg ∧
      Accurate "src" cfg.shared ∧ cfg.shared.store.heap.length = 2 ∧
      cfg.shared.gauge ("src","") = 0 ∧ cfg.shared.gauge ("src","ns") = 1 := by
  have hrun : (follow (meteredOnce (fun _ _ => true) "src")
      (inOrder [0,0,0,0,0,1,1,1,1,1,2]) gaugeStart).any fun cfg =>
        cfg.shared.store.heap.length = 2 ∧ cfg.shared.gauge ("src","") = 0 ∧
          cfg.shared.gauge ("src","ns") = 1 := by
    decide +kernel
  obtain ⟨cfg,hcfg,hp⟩ := (Option.any_eq_true _ _).mp hrun
  have hr : ReachWhen (meteredExec (fun _ _ => true) "src") StopsRunning gaugeStart cfg :=
    ReachWhen.of_reach (meteredExec (fun _ _ => true) "src")
      (fun _ _ _ _ _ _ h => (exec_of_once h).1)
      (fun _ _ _ _ _ _ h => (exec_of_once h).2)
      (Reach.of_follow (meteredOnce (fun _ _ => true) "src") hcfg)
  exact ⟨cfg,hr,(gauge_accurate_iff _ Reference.labelsPackage id "src" [] gaugeActivities hr).1,
    of_decide_eq_true hp⟩

/-- The second stop decreases the gauge again, below zero, and the third one closes a closed
channel. -/
theorem stop_not_idempotent :
    (∃ cfg, Reach (meteredExec (fun _ _ => true) "src") gaugeStart cfg ∧
      cfg.shared.store.heap.length = 1 ∧ cfg.shared.store.stopped 0 = true ∧
      cfg.shared.decreased = [0,0] ∧ cfg.shared.gauge ("src","") = -1) ∧
    ∃ cfg, Reach (meteredExec (fun _ _ => true) "src") gaugeStart cfg ∧
      cfg.shared.store.panicked = true := by
  have htwo : (follow (meteredExec (fun _ _ => true) "src") (inOrder [0,0,0,0,0,2,3])
      gaugeStart).any fun cfg => cfg.shared.store.heap.length = 1 ∧
        cfg.shared.store.stopped 0 = true ∧ cfg.shared.decreased = [0,0] ∧
          cfg.shared.gauge ("src","") = -1 := by
    decide +kernel
  have hthree : (follow (meteredExec (fun _ _ => true) "src") (inOrder [0,0,0,0,0,2,3,4])
      gaugeStart).any fun cfg => cfg.shared.store.panicked = true := by
    decide +kernel
  obtain ⟨cfg₂,h₂,hp₂⟩ := (Option.any_eq_true _ _).mp htwo
  obtain ⟨cfg₃,h₃,hp₃⟩ := (Option.any_eq_true _ _).mp hthree
  exact ⟨⟨cfg₂,.of_follow _ h₂,of_decide_eq_true hp₂⟩,⟨cfg₃,.of_follow _ h₃,of_decide_eq_true hp₃⟩⟩

end WatcherStore

end Maestro
