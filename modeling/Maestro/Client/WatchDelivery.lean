import Maestro.Client.WatcherStore
import Maestro.Data.Search

/-!
# What a watcher receives

The methods of the store, one after the other. `registerWatcher` returns the running watcher of
the namespace, whatever selector is asked for, so a watcher sees what its first caller asked for.
-/

namespace Maestro
open Data Concurrent

namespace WatcherStore

/-- What a caller does with the store. -/
inductive WatchOp
  | getWatcher (namespace_ labelSelector : String)
  | stop (watcher : ℕ)
  | send (evt : WatchEvent)
deriving DecidableEq

section Run

variable (selects : String → Work → Bool) (pkg : LabelsPackage) (quote : String → String)
  (sourceID : String)

/-- Run an operation alone: the watcher that it returns, and the store afterwards. -/
def WatchOp.run (env : ℕ → StoreChoice) (s : WatcherStore) :
    WatchOp → Option (Option ℕ × WatcherStore)
  | .getWatcher ns labelSelector =>
    (Prog.eval (exec selects 0) env (Maestro.getWatcher pkg quote sourceID ns labelSelector) s).map
      fun p => (p.1.toOption,p.2)
  | .stop watcher =>
    (Prog.eval (exec selects 0) env (performStore (.stop watcher)) s).map fun p => (none,p.2)
  | .send evt =>
    (Prog.eval (exec selects 0) env (sendWatchEvent pkg evt) s).map fun p => (none,p.2)

/-- Run operations one after the other. -/
def runAll : List (WatchOp × (ℕ → StoreChoice)) → WatcherStore → Option WatcherStore
  | [], s => some s
  | (op,env) :: ops, s =>
    match op.run selects pkg quote sourceID env s with
    | none => none
    | some (_,s') => runAll ops s'

end Run

/-- A stop is the stop of a watcher that was returned. -/
def WatchOp.Valid (s : WatcherStore) : WatchOp → Prop
  | .stop watcher => watcher < s.heap.length
  | _ => True

/-- The events that a watcher received. -/
def received (watcher : ℕ) (journal : List WatchEntry) : List WatchEvent :=
  journal.filterMap fun
    | .delivered w evt => if w = watcher then some evt else none
    | _ => none

/-- The events that are sent until the watcher is stopped. -/
def sentUntilStop (watcher : ℕ) : List (WatchOp × (ℕ → StoreChoice)) → List WatchEvent
  | [] => []
  | (.send evt,_) :: ops => evt :: sentUntilStop watcher ops
  | (.stop w,_) :: ops => if w = watcher then [] else sentUntilStop watcher ops
  | (.getWatcher _ _,_) :: ops => sentUntilStop watcher ops

/-- What the maps of the store say about its watchers. -/
structure Tidy (s : WatcherStore) : Prop where
  unlocked : s.writer = none ∧ s.readers = []
  keys : (s.watchers.map Prod.fst).Nodup
  named : ∀ p ∈ s.watchers, ∃ w, s.heap[p.2]? = some w ∧ w.namespace_ = p.1
  closed : ∀ w ∈ s.heap, w.resultClosed → w.stopped
  live : ∀ k w, s.heap[k]? = some w → w.stopped = false → (w.namespace_,k) ∈ s.watchers

section Received

variable {watcher : ℕ} {journal : List WatchEntry}

theorem received_append (entries : List WatchEntry) :
    received watcher (journal ++ entries) = received watcher journal ++ received watcher entries :=
  List.filterMap_append

theorem received_reads (works : List Work) :
    received watcher (journal ++ works.map .read) = received watcher journal := by
  rw [received_append]
  have hnone : received watcher (works.map .read) = [] := by
    rw [received,List.filterMap_eq_nil_iff]
    simp
  rw [hnone,List.append_nil]

end Received

section Eval

variable {selects : String → Work → Bool} {pkg : LabelsPackage} {quote : String → String}
  {sourceID : String} {env : ℕ → StoreChoice} {s : WatcherStore}

/-- The watchers of a list that take the event. -/
def takers (pkg : LabelsPackage) (s : WatcherStore) (evt : WatchEvent)
    (ws : List (ℕ × WorkWatcher)) : List (ℕ × WorkWatcher) :=
  ws.filter fun p => !s.stopped p.1 && p.2.accepts pkg evt.object

theorem exec_send (hp : s.panicked = false) (hc : ∀ w ∈ s.heap, w.resultClosed → w.stopped)
    {watcher : ℕ} (hmem : watcher < s.heap.length) (hs : s.stopped watcher = false)
    (i : ℕ) (o : StoreChoice) (evt : WatchEvent) :
    exec selects i o (.send watcher evt) s =
      some ((),{ s with journal := s.journal ++ [.delivered watcher evt] }) := by
  have hget := List.getElem?_eq_getElem hmem
  have hrun : (s.heap.get ⟨watcher,hmem⟩).stopped = false := by
    simpa [stopped,hget] using hs
  have hopen : (s.heap.get ⟨watcher,hmem⟩).resultClosed = false := by
    refine Bool.eq_false_iff.mpr fun hclosed => ?_
    rw [hc _ (List.get_mem _ _) hclosed] at hrun
    cases hrun
  simp only [List.get_eq_getElem] at hrun hopen
  simp [exec,hp,hget,hrun,hopen]

theorem eval_receive (hp : s.panicked = false) (hc : ∀ w ∈ s.heap, w.resultClosed → w.stopped)
    {evt : WatchEvent} {p : ℕ × WorkWatcher} (hmem : p.1 < s.heap.length) :
    Prog.eval (exec selects 0) env (receive pkg evt p) s =
      some ((),{ s with
        journal := s.journal ++ (takers pkg s evt [p]).map fun p => .delivered p.1 evt }) := by
  refine Prog.eval_lift_bind.mpr ⟨s.stopped p.1,s,by simp [exec,hp],?_⟩
  cases hs : s.stopped p.1 with
  | true => simp [takers,hs,Prog.eval]
  | false =>
    cases ha : p.2.accepts pkg evt.object with
    | true =>
      simp only [Bool.false_eq_true,if_false,if_true]
      rw [Prog.eval_lift,exec_send hp hc hmem hs]
      simp [takers,hs,ha]
    | false => simp [takers,hs,ha,Prog.eval]

/-- The loop over the watchers, by induction on those that are left. -/
theorem eval_receiveEach (s : WatcherStore) (hp : s.panicked = false)
    (hc : ∀ w ∈ s.heap, w.resultClosed → w.stopped) {evt : WatchEvent}
    {ws : List (ℕ × WorkWatcher)} (hmem : ∀ p ∈ ws, p.1 < s.heap.length) :
    Prog.eval (exec selects 0) env (receiveEach pkg evt ws) s =
      some ((),{ s with
        journal := s.journal ++ (takers pkg s evt ws).map fun p => .delivered p.1 evt }) := by
  induction ws generalizing s env with
  | nil => simp [receiveEach,takers,Prog.eval]
  | cons p ws ih =>
    have hone : Prog.eval (exec selects 0) env (receive pkg evt p) s = _ :=
      eval_receive hp hc (hmem p List.mem_cons_self)
    obtain ⟨m,hm⟩ := Prog.eval_bind_of hone
    let s₁ : WatcherStore := { s with
      journal := s.journal ++ (takers pkg s evt [p]).map fun p => .delivered p.1 evt }
    refine (hm fun _ => receiveEach pkg evt ws).trans
      ((ih s₁ hp hc fun q hq => hmem q (List.mem_cons_of_mem _ hq)).trans ?_)
    have hsplit : takers pkg s evt (p :: ws) = takers pkg s evt [p] ++ takers pkg s evt ws :=
      List.filter_append [p] ws
    simp only [s₁,hsplit,List.map_append,List.append_assoc]
    rfl

theorem mem_range {o : StoreChoice} {p : ℕ × WorkWatcher} :
    p ∈ s.range o ↔ ∃ ns, (ns,p.1) ∈ s.watchers ∧ s.heap[p.1]? = some p.2 := by
  have hentries : ∀ q, q ∈ (if (o.order s.watchers).isPerm s.watchers then o.order s.watchers
      else s.watchers) ↔ q ∈ s.watchers := by
    intro q
    split
    · next h => exact (List.isPerm_iff.mp h).mem_iff
    · rfl
  simp only [range,List.mem_filterMap,hentries,Option.map_eq_some_iff]
  constructor
  · rintro ⟨⟨ns,k⟩,hk,w,hw,rfl⟩
    exact ⟨ns,hk,hw⟩
  · rintro ⟨ns,hk,hw⟩
    exact ⟨(ns,p.1),hk,p.2,hw,rfl⟩

/-- The watchers of the map are distinct. -/
theorem Tidy.range_nodup (h : s.Tidy) (o : StoreChoice) : ((s.range o).map Prod.fst).Nodup := by
  let entries := if (o.order s.watchers).isPerm s.watchers then o.order s.watchers else s.watchers
  have hperm : entries.Perm s.watchers := by
    unfold entries
    split
    · next h => exact List.isPerm_iff.mp h
    · exact List.Perm.refl _
  have hrange : (s.range o).map Prod.fst = entries.map Prod.snd := by
    rw [range,List.map_filterMap,← List.filterMap_eq_map]
    refine List.filterMap_congr fun p hp => ?_
    obtain ⟨w,hw,-⟩ := h.named p (hperm.mem_iff.mp hp)
    simp [hw]
  -- a watcher has one namespace
  have hnodup : (s.watchers.map Prod.snd).Nodup := by
    refine List.Nodup.map_on ?_ (List.Nodup.of_map _ h.keys)
    intro p hp q hq hpq
    obtain ⟨w,hw,hns⟩ := h.named p hp
    obtain ⟨w',hw',hns'⟩ := h.named q hq
    rw [hpq,hw'] at hw
    cases hw
    exact Prod.ext (hns.symm.trans hns') hpq
  rw [hrange]
  exact (hperm.map _).nodup_iff.mpr hnodup

theorem eval_sendWatchEvent (hp : s.panicked = false) (h : s.Tidy) (evt : WatchEvent) :
    ∃ o, Prog.eval (exec selects 0) env (sendWatchEvent pkg evt) s =
      some ((),{ s with
        inHand := s.inHand.filter fun p => p.1 ≠ 0
        journal := s.journal ++ (takers pkg s evt (s.range o)).map fun p => .delivered p.1 evt }) := by
  have hmem : ∀ p ∈ s.range (env 1), p.1 < s.heap.length := by
    intro p hp
    obtain ⟨-,-,hw⟩ := mem_range.mp hp
    exact List.getElem?_eq_some_iff.mp hw |>.1
  refine ⟨env 1,?_⟩
  refine Prog.eval_lift_bind.mpr ⟨(),{ s with readers := [0] },?_,?_⟩
  · simp [exec,hp,h.unlocked]
  refine Prog.eval_lift_bind.mpr ⟨s.range (env 1),{ s with readers := [0] },?_,?_⟩
  · simp [exec,hp]
    rfl
  have hloop : Prog.eval (exec selects 0) (fun n => env (n+1+1))
      (receiveEach pkg evt (s.range (env 1))) { s with readers := [0] } = _ :=
    eval_receiveEach { s with readers := [0] } hp h.closed hmem
  obtain ⟨m,hm⟩ := Prog.eval_bind_of hloop
  refine (hm fun _ => performStore .rUnlock).trans ?_
  rw [Prog.eval_lift]
  simp [exec,hp,h.unlocked]
  rfl

/-- What a watcher receives of an event that is sent to watchers of the heap. -/
theorem received_takers {evt : WatchEvent} {ws : List (ℕ × WorkWatcher)}
    (hn : (ws.map Prod.fst).Nodup) (hws : ∀ p ∈ ws, s.heap[p.1]? = some p.2) {k : ℕ}
    {w : WorkWatcher} (hw : s.heap[k]? = some w) :
    received k ((takers pkg s evt ws).map fun p => .delivered p.1 evt) =
      if k ∈ ws.map Prod.fst ∧ w.stopped = false ∧ w.accepts pkg evt.object then [evt] else [] := by
  induction ws with
  | nil => rfl
  | cons p ws ih =>
    rw [List.map_cons,List.nodup_cons] at hn
    have hsplit : takers pkg s evt (p :: ws) = takers pkg s evt [p] ++ takers pkg s evt ws :=
      List.filter_append [p] ws
    rw [hsplit,List.map_append,received_append,
      ih hn.2 fun q hq => hws q (List.mem_cons_of_mem _ hq)]
    by_cases hk : p.1 = k
    · subst hk
      have hp : w = p.2 := Option.some.inj (hw.symm.trans (hws p List.mem_cons_self))
      subst hp
      rw [if_neg fun h => hn.1 h.1,List.append_nil]
      have hs : s.stopped p.1 = p.2.stopped := by rw [stopped,hw]; rfl
      cases hstop : p.2.stopped <;> cases hacc : p.2.accepts pkg evt.object <;>
        simp [takers,received,hs,hstop,hacc]
    · have hnone : received k ((takers pkg s evt [p]).map fun p => .delivered p.1 evt) = [] := by
        cases hs : s.stopped p.1 <;> cases hacc : p.2.accepts pkg evt.object <;>
          simp [takers,received,hs,hacc,hk]
      have hmem : k ∈ (p :: ws).map Prod.fst ↔ k ∈ ws.map Prod.fst := by
        rw [List.map_cons,List.mem_cons]
        exact or_iff_right (Ne.symm hk)
      rw [hnone,List.nil_append]
      simp only [hmem]

theorem Tidy.received_send (h : s.Tidy) (o : StoreChoice) (evt : WatchEvent) {k : ℕ}
    {w : WorkWatcher} (hw : s.heap[k]? = some w) :
    received k ((takers pkg s evt (s.range o)).map fun p => .delivered p.1 evt) =
      if w.stopped = false ∧ w.accepts pkg evt.object then [evt] else [] := by
  rw [received_takers (h.range_nodup o) (fun p hp => (mem_range.mp hp).choose_spec.2) hw]
  by_cases hs : w.stopped = false
  · have hmem : k ∈ (s.range o).map Prod.fst :=
      List.mem_map.mpr ⟨(k,w),mem_range.mpr ⟨_,h.live k w hw hs,hw⟩,rfl⟩
    simp [hmem]
  · simp [hs]

theorem eval_addEach (s : WatcherStore) (hp : s.panicked = false) (works : List Work) :
    ∃ queue hand, Prog.eval (exec selects 0) env (addEach works) s =
      some ((),{ s with workQueue := queue, inHand := hand }) := by
  induction works generalizing s env with
  | nil => exact ⟨s.workQueue,s.inHand,rfl⟩
  | cons work works ih =>
    let s₁ : WatcherStore := { s with
      workQueue := enqueue work s.workQueue
      inHand := s.inHand.erase (0,work) }
    obtain ⟨queue,hand,hrest⟩ := @ih (fun n => env (n+1)) s₁ hp
    exact ⟨queue,hand,Prog.eval_lift_bind.mpr ⟨(),s₁,by simp [exec,hp,s₁],hrest⟩⟩

/-- The store with a new watcher. -/
def put (s : WatcherStore) (ns : String) (labelSelector : LabelSelector) : WatcherStore :=
  { s with
    writer := none
    heap := s.heap ++ [⟨ns,labelSelector,false,false⟩]
    watchers := s.watchers.filter (fun p => p.1 ≠ ns) ++ [(ns,s.heap.length)]
    journal := s.journal ++ [.registered s.heap.length] }

/-- The watcher `k` is the running one of the namespace, or a new one. -/
theorem eval_registerWatcher (hp : s.panicked = false) (h : s.Tidy) (ns : String)
    (labelSelector : LabelSelector) :
    ∃ k s', Prog.eval (exec selects 0) env (registerWatcher ns labelSelector) s = some (k,s') ∧
      ((s.watchers.lookup ns = some k ∧ s.stopped k = false ∧ s' = { s with writer := none }) ∨
        (∀ k', s.watchers.lookup ns = some k' → s.stopped k' = true) ∧ k = s.heap.length ∧
          s' = s.put ns labelSelector) := by
  let s₁ : WatcherStore := { s with writer := some 0 }
  have hlock : ∀ o, exec selects 0 o .lock s = some ((),s₁) := by
    intro o
    simp [exec,hp,h.unlocked,s₁]
  have hfind : ∀ o, exec selects 0 o (.findWatcher ns) s₁ = some (s.watchers.lookup ns,s₁) := by
    intro o
    simp [exec,hp,s₁]
  have hput : ∀ env', Prog.eval (exec selects 0) env' (do
      let watcher ← performStore (.putWatcher ns labelSelector)
      performStore .unlock
      return watcher) s₁ = some (s.heap.length,s.put ns labelSelector) := by
    intro env'
    refine Prog.eval_lift_bind.mpr ⟨s.heap.length,
      { s.put ns labelSelector with writer := some 0 },by simp [exec,hp,s₁,put],?_⟩
    exact Prog.eval_lift_bind.mpr ⟨(),s.put ns labelSelector,by simp [exec,hp,put],rfl⟩
  cases hl : s.watchers.lookup ns with
  | none =>
    refine ⟨s.heap.length,s.put ns labelSelector,?_,Or.inr ⟨by simp,rfl,rfl⟩⟩
    refine Prog.eval_lift_bind.mpr ⟨(),s₁,hlock _,?_⟩
    refine Prog.eval_lift_bind.mpr ⟨none,s₁,hl ▸ hfind _,?_⟩
    exact hput _
  | some k =>
    have hcheck : ∀ o, exec selects 0 o (.isStopped k) s₁ = some (s.stopped k,s₁) := by
      intro o
      simp [exec,hp,s₁,stopped]
    cases hs : s.stopped k with
    | true =>
      refine ⟨s.heap.length,s.put ns labelSelector,?_,
        Or.inr ⟨fun k' hk' => by cases hk'; exact hs,rfl,rfl⟩⟩
      refine Prog.eval_lift_bind.mpr ⟨(),s₁,hlock _,?_⟩
      refine Prog.eval_lift_bind.mpr ⟨some k,s₁,hl ▸ hfind _,?_⟩
      refine Prog.eval_lift_bind.mpr ⟨true,s₁,hs ▸ hcheck _,?_⟩
      exact hput _
    | false =>
      refine ⟨k,{ s with writer := none },?_,Or.inl ⟨rfl,hs,rfl⟩⟩
      refine Prog.eval_lift_bind.mpr ⟨(),s₁,hlock _,?_⟩
      refine Prog.eval_lift_bind.mpr ⟨some k,s₁,hl ▸ hfind _,?_⟩
      refine Prog.eval_lift_bind.mpr ⟨false,s₁,hs ▸ hcheck _,?_⟩
      exact Prog.eval_lift_bind.mpr ⟨(),{ s with writer := none },by simp [exec,hp,s₁],rfl⟩

/-- `GetWatcher` returned the watcher `k`. -/
structure Registered (s : WatcherStore) (ns : String) (labelSelector : LabelSelector) (k : ℕ)
    (s' : WatcherStore) : Prop where
  panicked : s'.panicked = false
  unlocked : s'.writer = none ∧ s'.readers = []
  received : ∀ w, received w s'.journal = received w s.journal
  watcher : (s.watchers.lookup ns = some k ∧ s.stopped k = false ∧ s'.heap = s.heap ∧
      s'.watchers = s.watchers) ∨
    (∀ k', s.watchers.lookup ns = some k' → s.stopped k' = true) ∧ k = s.heap.length ∧
      s'.heap = s.heap ++ [⟨ns,labelSelector,false,false⟩] ∧
      s'.watchers = s.watchers.filter (fun p => p.1 ≠ ns) ++ [(ns,k)]

theorem eval_getWatcher (hp : s.panicked = false) (h : s.Tidy) (ns labelSelector : String) :
    ∃ r s', Prog.eval (exec selects 0) env (getWatcher pkg quote sourceID ns labelSelector) s =
      some (r,s') ∧ ((∃ err, r = .error err ∧ s' = s) ∨
        ∃ search k, toLabelSearch pkg quote labelSelector = .ok search ∧ r = .ok k ∧
          s.Registered ns search.selector k s') := by
  cases hsearch : toLabelSearch pkg quote labelSelector with
  | error err =>
    refine ⟨.error err,s,?_,Or.inl ⟨err,rfl,rfl⟩⟩
    simp [getWatcher,hsearch,Prog.eval]
  | ok search =>
    simp only [getWatcher,hsearch]
    cases hlisted : (env 0).listed with
    | error err =>
      refine ⟨.error err,s,?_,Or.inl ⟨err,rfl,rfl⟩⟩
      exact Prog.eval_lift_bind.mpr ⟨.error err,s,by simp [exec,hp,hlisted],rfl⟩
    | ok uids =>
      generalize " and ".intercalate _ = text
      let works := s.list selects text uids
      let s₁ : WatcherStore := { s with
        inHand := s.inHand ++ works.map (0,·)
        journal := s.journal ++ works.map .read }
      have hlist : exec selects 0 (env 0) (.pageList text) s = some (.ok works,s₁) := by
        simp [exec,hp,hlisted,s₁,works]
      have hp₁ : s₁.panicked = false := hp
      have h₁ : s₁.Tidy := ⟨h.unlocked,h.keys,h.named,h.closed,h.live⟩
      obtain ⟨k,s₂,hreg,hk⟩ : ∃ k s₂, Prog.eval (exec selects 0) (fun n => env (n+1))
          (registerWatcher ns search.selector) s₁ = some (k,s₂) ∧ _ :=
        eval_registerWatcher hp₁ h₁ ns search.selector
      have hp₂ : s₂.panicked = false := by
        rcases hk with ⟨-,-,rfl⟩ | ⟨-,-,rfl⟩ <;> exact hp
      obtain ⟨m,hm⟩ := Prog.eval_bind_of hreg
      obtain ⟨queue,hand,hadd⟩ : ∃ queue hand, Prog.eval (exec selects 0) (fun n => env (n+m+1))
          (addEach works) s₂ = some ((),{ s₂ with workQueue := queue, inHand := hand }) :=
        eval_addEach s₂ hp₂ works
      obtain ⟨m',hm'⟩ := Prog.eval_bind_of hadd
      refine ⟨.ok k,{ s₂ with workQueue := queue, inHand := hand },?_,
        Or.inr ⟨search,k,rfl,rfl,hp₂,?_,?_,?_⟩⟩
      · refine Prog.eval_lift_bind.mpr ⟨.ok works,s₁,hlist,?_⟩
        exact (hm _).trans (hm' fun _ => .ret (.ok k : Except String ℕ))
      · rcases hk with ⟨-,-,rfl⟩ | ⟨-,-,rfl⟩ <;> exact ⟨rfl,h.unlocked.2⟩
      · intro w
        rcases hk with ⟨-,-,rfl⟩ | ⟨-,-,rfl⟩
        · exact received_reads works
        · refine (received_append [.registered s₁.heap.length]).trans ?_
          rw [received_reads works]
          exact List.append_nil _
      · rcases hk with ⟨hl,hs,rfl⟩ | ⟨hl,rfl,rfl⟩
        · exact Or.inl ⟨hl,hs,rfl,rfl⟩
        · exact Or.inr ⟨hl,rfl,rfl,rfl⟩

end Eval

section Steps

variable {selects : String → Work → Bool} {pkg : LabelsPackage} {quote : String → String}
  {sourceID : String} {env : ℕ → StoreChoice} {s s' : WatcherStore}

theorem Registered.tidy {ns : String} {labelSelector : LabelSelector} {k : ℕ}
    (hr : s.Registered ns labelSelector k s') (h : s.Tidy) : s'.Tidy := by
  rcases hr.watcher with ⟨-,-,hheap,hmap⟩ | ⟨hstopped,rfl,hheap,hmap⟩
  · exact ⟨hr.unlocked,by rw [hmap]; exact h.keys,by rw [hmap,hheap]; exact h.named,
      by rw [hheap]; exact h.closed,by rw [hmap,hheap]; exact h.live⟩
  refine ⟨hr.unlocked,?_,?_,?_,?_⟩
  · rw [hmap,List.map_append,List.nodup_append]
    refine ⟨h.keys.sublist (List.filter_sublist.map _),List.nodup_singleton _,?_⟩
    rintro a ha b hb rfl
    obtain ⟨p,hp,rfl⟩ := List.mem_map.mp ha
    exact of_decide_eq_true (List.mem_filter.mp hp).2 (List.mem_singleton.mp hb)
  · rw [hmap,hheap]
    intro p hp
    rcases List.mem_append.mp hp with hp | hp
    · obtain ⟨w,hw,hns⟩ := h.named p (List.mem_filter.mp hp).1
      exact ⟨w,by rw [List.getElem?_append_left (List.getElem?_eq_some_iff.mp hw).1,hw],hns⟩
    · rw [List.mem_singleton.mp hp]
      exact ⟨_,List.getElem?_concat_length,rfl⟩
  · rw [hheap]
    intro w hw hclosed
    rcases List.mem_append.mp hw with hw | hw
    · exact h.closed w hw hclosed
    · rw [List.mem_singleton.mp hw] at hclosed
      cases hclosed
  · rw [hheap,hmap]
    intro k w hw hrun
    rw [List.getElem?_append] at hw
    split at hw
    · -- the other running watchers have other namespaces
      have hmem := h.live k w hw hrun
      refine List.mem_append_left _ (List.mem_filter.mpr ⟨hmem,decide_eq_true fun hns => ?_⟩)
      have hlookup := (lookup_eq_some_iff_mem h.keys).mpr hmem
      rw [show w.namespace_ = ns from hns] at hlookup
      have hstop := hstopped k hlookup
      rw [stopped,hw,Option.any_some,hrun] at hstop
      cases hstop
    · next hlt =>
      obtain ⟨hidx,rfl⟩ := List.getElem?_eq_some_iff.mp hw
      have hk : k = s.heap.length := by simp at hidx; omega
      subst hk
      simp

theorem Tidy.update (h : s.Tidy) {watcher : ℕ} {w : WorkWatcher} (hw : s.heap[watcher]? = some w)
    {f : WorkWatcher → WorkWatcher} (hns : (f w).namespace_ = w.namespace_)
    (hstop : (f w).stopped = true) : (s.updateWatcher watcher f).Tidy := by
  refine ⟨h.unlocked,h.keys,fun p hp => ?_,fun w' hw' hclosed => ?_,fun k w' hw' hrun => ?_⟩
  · obtain ⟨w',hw',hp'⟩ := h.named p hp
    rw [getElem?_updateWatcher]
    split
    · next hk =>
      rw [hk] at hw' ⊢
      cases hw.symm.trans hw'
      exact ⟨f w,by rw [hw]; rfl,hns.trans hp'⟩
    · exact ⟨w',hw',hp'⟩
  · obtain ⟨k,hk⟩ := List.mem_iff_getElem?.mp hw'
    rw [getElem?_updateWatcher] at hk
    split at hk
    · next hkw =>
      rw [hkw,hw] at hk
      cases hk
      exact hstop
    · exact h.closed w' (List.mem_of_getElem? hk) hclosed
  · rw [getElem?_updateWatcher] at hw'
    split at hw'
    · next hkw =>
      rw [hkw,hw] at hw'
      cases hw'
      rw [hstop] at hrun
      cases hrun
    · exact h.live k w' hw' hrun

/-- A stop of a watcher leaves the others alone. -/
theorem eval_stop (hp : s.panicked = false) (h : s.Tidy) {watcher : ℕ}
    (hv : watcher < s.heap.length) :
    ∃ s', Prog.eval (exec selects 0) env (performStore (.stop watcher)) s = some ((),s') ∧
      s'.Tidy ∧ s'.journal = s.journal ∧ s'.heap.length = s.heap.length ∧
      (∀ k, k ≠ watcher → s'.heap[k]? = s.heap[k]?) ∧ s'.stopped watcher = true := by
  obtain ⟨w,hw⟩ : ∃ w, s.heap[watcher]? = some w := ⟨_,List.getElem?_eq_getElem hv⟩
  have hupdate : ∀ f : WorkWatcher → WorkWatcher, (f w).namespace_ = w.namespace_ →
      (f w).stopped = true → (s.updateWatcher watcher f).Tidy ∧
        (s.updateWatcher watcher f).heap.length = s.heap.length ∧
        (∀ k, k ≠ watcher → (s.updateWatcher watcher f).heap[k]? = s.heap[k]?) ∧
        (s.updateWatcher watcher f).stopped watcher = true := by
    intro f hns hstop
    refine ⟨h.update hw hns hstop,List.length_modify _ _ _,fun k hk => ?_,?_⟩
    · rw [getElem?_updateWatcher,if_neg hk]
    · rw [stopped,getElem?_updateWatcher,if_pos rfl,hw]
      exact hstop
  cases hstop : w.stopped with
  | false =>
    obtain ⟨htidy,hlen,hother,hdone⟩ :=
      hupdate (fun w => { w with stopped := true }) rfl rfl
    refine ⟨_,?_,htidy,rfl,hlen,hother,hdone⟩
    rw [Prog.eval_lift]
    simp [exec,hp,hw,hstop]
  | true =>
    cases hclosed : w.resultClosed with
    | false =>
      obtain ⟨htidy,hlen,hother,hdone⟩ :=
        hupdate (fun w => { w with resultClosed := true }) rfl hstop
      refine ⟨_,?_,htidy,rfl,hlen,hother,hdone⟩
      rw [Prog.eval_lift]
      simp [exec,hp,hw,hstop,hclosed]
    | true =>
      refine ⟨{ s with panicked := true },?_,⟨h.unlocked,h.keys,h.named,h.closed,h.live⟩,rfl,rfl,
        fun _ _ => rfl,?_⟩
      · rw [Prog.eval_lift]
        simp [exec,hp,hw,hstop,hclosed]
      · rw [stopped,hw]
        exact hstop

/-- What an operation does to the watchers and to what they have received. -/
structure OpEffect (pkg : LabelsPackage) (op : WatchOp) (s s' : WatcherStore) : Prop where
  tidy : s'.Tidy
  heap : ∀ k w, s.heap[k]? = some w → op ≠ .stop k → s'.heap[k]? = some w
  stopped : ∀ k, op = .stop k → ∃ w, s'.heap[k]? = some w ∧ w.stopped = true
  received : ∀ k w, s.heap[k]? = some w →
    received k s'.journal = received k s.journal ++ match op with
      | .send evt => if w.stopped = false ∧ w.accepts pkg evt.object then [evt] else []
      | _ => []

theorem OpEffect.same {op : WatchOp} (hop : ∀ k, op ≠ .stop k) (hsend : ∀ evt, op ≠ .send evt)
    (h : s.Tidy) : OpEffect pkg op s s := by
  refine ⟨h,fun k w hw _ => hw,fun k hk => absurd hk (hop k),fun k w _ => ?_⟩
  cases op with
  | send evt => exact absurd rfl (hsend evt)
  | _ => exact (List.append_nil _).symm

theorem Registered.effect {ns labelSelector : String} {selector : LabelSelector} {k : ℕ}
    (hr : s.Registered ns selector k s') (h : s.Tidy) :
    OpEffect pkg (.getWatcher ns labelSelector) s s' := by
  refine ⟨hr.tidy h,fun k' w hw _ => ?_,fun k' => WatchOp.noConfusion,fun k' w _ => ?_⟩
  · rcases hr.watcher with ⟨-,-,hheap,-⟩ | ⟨-,-,hheap,-⟩ <;> rw [hheap]
    · exact hw
    · rw [List.getElem?_append_left (List.getElem?_eq_some_iff.mp hw).1,hw]
  · rw [hr.received,List.append_nil]

/-- Every operation runs to its end, unless the program has panicked. -/
theorem exists_run (hp : s.panicked = false) (h : s.Tidy) {op : WatchOp} (hv : op.Valid s) :
    ∃ r s', op.run selects pkg quote sourceID env s = some (r,s') ∧ OpEffect pkg op s s' ∧
      ∀ ns labelSelector k, op = .getWatcher ns labelSelector → r = some k →
        ∃ search, toLabelSearch pkg quote labelSelector = .ok search ∧
          s.Registered ns search.selector k s' := by
  cases op with
  | getWatcher ns labelSelector =>
    obtain ⟨r,s',he,hcase⟩ : ∃ r s', Prog.eval (exec selects 0) env
        (getWatcher pkg quote sourceID ns labelSelector) s = some (r,s') ∧ _ :=
      eval_getWatcher hp h ns labelSelector
    refine ⟨r.toOption,s',by rw [WatchOp.run,he]; rfl,?_,?_⟩
    · rcases hcase with ⟨err,-,rfl⟩ | ⟨search,k,-,-,hreg⟩
      · exact .same (fun _ => WatchOp.noConfusion) (fun _ => WatchOp.noConfusion) h
      · exact hreg.effect h
    · rintro ns' labelSelector' k hop hr
      cases hop
      rcases hcase with ⟨err,rfl,-⟩ | ⟨search,k',hsearch,rfl,hreg⟩
      · cases hr
      · cases hr
        exact ⟨search,hsearch,hreg⟩
  | stop watcher =>
    obtain ⟨s',he,htidy,hj,-,hother,hstop⟩ : ∃ s', Prog.eval (exec selects 0) env
        (performStore (.stop watcher)) s = some ((),s') ∧ _ := eval_stop hp h hv
    refine ⟨none,s',by rw [WatchOp.run,he]; rfl,⟨htidy,fun k w hw hk => ?_,fun k hk => ?_,
      fun k w _ => by rw [hj,List.append_nil]⟩,fun _ _ _ => WatchOp.noConfusion⟩
    · rw [hother k fun he => hk (by rw [he]),hw]
    · cases hk
      rw [WatcherStore.stopped] at hstop
      obtain ⟨w,hw,hstop⟩ := (Option.any_eq_true _ _).mp hstop
      exact ⟨w,hw,hstop⟩
  | send evt =>
    obtain ⟨o,he⟩ : ∃ o, Prog.eval (exec selects 0) env (sendWatchEvent pkg evt) s = some ((),_) :=
      eval_sendWatchEvent hp h evt
    refine ⟨none,_,by rw [WatchOp.run,he,Option.map_some],⟨?_,fun k w hw _ => ?_,
      fun k => WatchOp.noConfusion,fun k w hw => ?_⟩,fun _ _ _ => WatchOp.noConfusion⟩
    · exact ⟨h.unlocked,h.keys,h.named,h.closed,h.live⟩
    · exact hw
    · rw [received_append,h.received_send o evt hw]

/-- After a panic, only a call that asks for nothing returns. -/
theorem run_panicked (hp : s.panicked = true) {op : WatchOp} {r : Option ℕ}
    (hrun : op.run selects pkg quote sourceID env s = some (r,s')) :
    r = none ∧ s' = s ∧ ∃ ns labelSelector, op = .getWatcher ns labelSelector := by
  cases op with
  | getWatcher ns labelSelector =>
    obtain ⟨q,hq,hr⟩ := Option.map_eq_some_iff.mp hrun
    cases hsearch : toLabelSearch pkg quote labelSelector with
    | error err =>
      simp only [getWatcher,hsearch] at hq
      cases hq
      cases hr
      exact ⟨rfl,rfl,ns,labelSelector,rfl⟩
    | ok search =>
      simp only [getWatcher,hsearch] at hq
      obtain ⟨_,_,hx,-⟩ := Prog.eval_lift_bind.mp hq
      simp [exec,hp] at hx
  | stop watcher =>
    obtain ⟨q,hq,-⟩ := Option.map_eq_some_iff.mp hrun
    have hx := Prog.eval_lift.mp hq
    simp [exec,hp] at hx
  | send evt =>
    obtain ⟨q,hq,-⟩ := Option.map_eq_some_iff.mp hrun
    obtain ⟨_,_,hx,-⟩ := Prog.eval_lift_bind.mp hq
    simp [exec,hp] at hx

theorem run_valid {op : WatchOp} {p : Option ℕ × WatcherStore}
    (hrun : op.run selects pkg quote sourceID env s = some p) : op.Valid s := by
  cases op with
  | stop watcher =>
    obtain ⟨q,hq,-⟩ := Option.map_eq_some_iff.mp hrun
    have hx := Prog.eval_lift.mp hq
    by_contra hlt
    have hnone : s.heap[watcher]? = none := List.getElem?_eq_none (Nat.le_of_not_lt hlt)
    simp [exec,hnone] at hx
  | _ => trivial

theorem run_effect (h : s.Tidy) {op : WatchOp} {r : Option ℕ}
    (hrun : op.run selects pkg quote sourceID env s = some (r,s')) :
    OpEffect pkg op s s' ∧ ∀ ns labelSelector k, op = .getWatcher ns labelSelector → r = some k →
      ∃ search, toLabelSearch pkg quote labelSelector = .ok search ∧
        s.Registered ns search.selector k s' := by
  cases hp : s.panicked with
  | true =>
    obtain ⟨rfl,rfl,ns,labelSelector,rfl⟩ := run_panicked hp hrun
    exact ⟨.same (fun _ => WatchOp.noConfusion) (fun _ => WatchOp.noConfusion) h,
      fun _ _ _ _ hr => nomatch hr⟩
  | false =>
    obtain ⟨r',s₁,he,heffect⟩ : ∃ r' s₁, op.run selects pkg quote sourceID env s = some (r',s₁) ∧ _ :=
      exists_run hp h (run_valid hrun)
    cases he.symm.trans hrun
    exact heffect

theorem Tidy.runAll {ops : List (WatchOp × (ℕ → StoreChoice))} (h : s.Tidy)
    (hrun : runAll selects pkg quote sourceID ops s = some s') : s'.Tidy := by
  induction ops generalizing s with
  | nil => cases hrun; exact h
  | cons p ops ih =>
    obtain ⟨op,env⟩ := p
    rw [WatcherStore.runAll] at hrun
    split at hrun
    · cases hrun
    · next r s₁ he => exact ih (run_effect h he).1.tidy hrun

/-- What a watcher receives in a run, by induction on the operations. -/
theorem received_runAll {ops : List (WatchOp × (ℕ → StoreChoice))} (h : s.Tidy) {k : ℕ}
    {w : WorkWatcher} (hw : s.heap[k]? = some w)
    (hrun : runAll selects pkg quote sourceID ops s = some s') :
    received k s'.journal = received k s.journal ++
      if w.stopped then []
      else (sentUntilStop k ops).filter fun evt => w.accepts pkg evt.object := by
  induction ops generalizing s w with
  | nil =>
    cases hrun
    simp [sentUntilStop]
  | cons p ops ih =>
    obtain ⟨op,env⟩ := p
    rw [runAll] at hrun
    split at hrun
    · cases hrun
    next r s₁ he =>
    have heffect := (run_effect h he).1
    cases op with
    | getWatcher ns labelSelector =>
      rw [ih heffect.tidy (heffect.heap k w hw WatchOp.noConfusion) hrun,heffect.received k w hw,
        List.append_nil]
      rfl
    | stop watcher =>
      by_cases hk : watcher = k
      · subst hk
        obtain ⟨w',hw',hstop⟩ := heffect.stopped watcher rfl
        rw [ih heffect.tidy hw' hrun,heffect.received watcher w hw,hstop]
        simp [sentUntilStop]
      · have hne : WatchOp.stop watcher ≠ .stop k := fun he => hk (WatchOp.stop.inj he)
        rw [ih heffect.tidy (heffect.heap k w hw hne) hrun,heffect.received k w hw,List.append_nil]
        simp [sentUntilStop,hk]
    | send evt =>
      rw [ih heffect.tidy (heffect.heap k w hw WatchOp.noConfusion) hrun,heffect.received k w hw]
      cases hstop : w.stopped <;> cases hacc : w.accepts pkg evt.object <;>
        simp [sentUntilStop,hacc]

end Steps

theorem tidy_start (server : String → Option Work) : Tidy { server := server } :=
  ⟨⟨rfl,rfl⟩,List.nodup_nil,by simp,by simp,by simp⟩

/-- The watcher that is returned runs; it is the one of the namespace, or has the selector. -/
theorem Registered.exists_watcher {s s' : WatcherStore} {ns : String} {selector : LabelSelector}
    {k : ℕ} (hr : s.Registered ns selector k s') (h : s.Tidy) :
    ∃ w, s'.heap[k]? = some w ∧ w.namespace_ = ns ∧ w.stopped = false ∧
      (s.watchers.lookup ns = some k ∧ s.heap[k]? = some w ∨ w.labelSelector = selector ∧
        ∀ k', s.watchers.lookup ns = some k' → s.stopped k' = true) := by
  rcases hr.watcher with ⟨hl,hs,hheap,-⟩ | ⟨hl,rfl,hheap,-⟩
  · obtain ⟨w,hw,hns⟩ := h.named (ns,k) ((lookup_eq_some_iff_mem h.keys).mp hl)
    have hrun : w.stopped = false := by rw [stopped,hw] at hs; exact hs
    exact ⟨w,by rw [hheap]; exact hw,hns,hrun,Or.inl ⟨hl,hw⟩⟩
  · exact ⟨_,by rw [hheap]; exact List.getElem?_concat_length,rfl,rfl,Or.inr ⟨rfl,hl⟩⟩

/-- The event is one that a watch on the namespace with the selector asks for. -/
def asked (pkg : LabelsPackage) (ns : String) (selector : LabelSelector) (evt : WatchEvent) : Bool :=
  (ns = namespaceAll || ns = evt.object.namespace_) && selector.matches pkg evt.object.labels

/-- A running watcher of the namespace selects what the selector does. -/
def Agrees (pkg : LabelsPackage) (s : WatcherStore) (ns : String) (selector : LabelSelector) :
    Prop :=
  ∀ k w, s.watchers.lookup ns = some k → s.heap[k]? = some w → w.stopped = false →
    ∀ labels, w.labelSelector.matches pkg labels = selector.matches pkg labels

/-- In every store that a sequence of operations reaches, every operation returns; and a watcher
that is asked for receives until its stop exactly what is asked for, whatever is done next, if and
only if a running watcher of the namespace selects the same. -/
theorem watcher_sees_asked_iff (selects : String → Work → Bool) (pkg : LabelsPackage)
    (quote : String → String) (sourceID : String) (server : String → Option Work)
    {before : List (WatchOp × (ℕ → StoreChoice))} {s₁ : WatcherStore}
    (h₁ : runAll selects pkg quote sourceID before { server := server } = some s₁) :
    (s₁.panicked = false → ∀ (op : WatchOp) env, op.Valid s₁ →
      (op.run selects pkg quote sourceID env s₁).isSome) ∧
    ∀ ns labelSelector env k s₂,
      (WatchOp.getWatcher ns labelSelector).run selects pkg quote sourceID env s₁ =
        some (some k,s₂) →
      ∃ search, toLabelSearch pkg quote labelSelector = .ok search ∧
        ((∀ after s₃, runAll selects pkg quote sourceID after s₂ = some s₃ →
          received k s₃.journal = received k s₂.journal ++
            (sentUntilStop k after).filter (asked pkg ns search.selector)) ↔
          s₁.Agrees pkg ns search.selector) := by
  have htidy : s₁.Tidy := (tidy_start server).runAll h₁
  refine ⟨fun hp op env hv => ?_,fun ns labelSelector env k s₂ hget => ?_⟩
  · obtain ⟨r,s',he,-⟩ : ∃ r s', op.run selects pkg quote sourceID env s₁ = some (r,s') ∧ _ :=
      exists_run hp htidy hv
    rw [he]
    rfl
  obtain ⟨heffect,hreg⟩ := run_effect htidy hget
  obtain ⟨search,hsearch,hreg⟩ := hreg ns labelSelector k rfl rfl
  obtain ⟨w,hw,hns,hrun,hsame⟩ := hreg.exists_watcher htidy
  refine ⟨search,hsearch,fun hall k' w' hlookup hw' hrun' labels => ?_,fun hagree after s₃ h₃ => ?_⟩
  · rcases hsame with ⟨hlookup',hold⟩ | ⟨-,hstopped⟩
    swap
    · have hstop := hstopped k' hlookup
      rw [stopped,hw',Option.any_some,hrun'] at hstop
      cases hstop
    cases hlookup.symm.trans hlookup'
    cases hold.symm.trans hw'
    -- an event with these labels is received as the watcher selects it
    let evt : WatchEvent := ⟨.modified,{ uid := "", namespace_ := ns, labels := labels }⟩
    obtain ⟨r,s₃,he,heffect',-⟩ : ∃ r s₃, (WatchOp.send evt).run selects pkg quote sourceID env s₂ =
      some (r,s₃) ∧ _ := exists_run hreg.panicked heffect.tidy trivial
    have hrecv := hall [(.send evt,env)] s₃ (by rw [runAll,he]; rfl)
    rw [heffect'.received k w hw] at hrecv
    have hlist := List.append_cancel_left hrecv
    have haccepts : w.accepts pkg evt.object = w.labelSelector.matches pkg labels := by
      simp [WorkWatcher.accepts,evt,hns]
    have hasked : asked pkg ns search.selector evt = search.selector.matches pkg labels := by
      simp [asked,evt]
    have hsent : sentUntilStop k [(.send evt,env)] = [evt] := rfl
    simp only [hrun,haccepts,hsent,List.filter_cons,hasked,List.filter_nil,true_and] at hlist
    cases hl : w.labelSelector.matches pkg labels <;>
      cases hr : search.selector.matches pkg labels <;> rw [hl,hr] at hlist <;>
      first | rfl | cases hlist
  · have hselect : ∀ labels, w.labelSelector.matches pkg labels =
        search.selector.matches pkg labels := by
      rcases hsame with ⟨hlookup,hold⟩ | ⟨hsel,-⟩
      · exact hagree k w hlookup hold hrun
      · rw [hsel]
        exact fun _ => rfl
    rw [received_runAll heffect.tidy hw h₃,hrun]
    simp only [WorkWatcher.accepts,hns,hselect]
    rfl

/-! ### Two selectors for one namespace -/

/-- The event of a work in the namespace `ns` that runs in `env`. -/
def envEvent (env : String) : WatchEvent :=
  ⟨.modified,{ uid := env, namespace_ := "ns", labels := [("env",env)] }⟩

/-- One watcher is asked for and receives what its selector matches. -/
theorem watcher_sees_asked_dev : ∃ s₂ s₃ : WatcherStore,
    (WatchOp.getWatcher "ns" "env!=prod").run (fun _ _ => true) Reference.labelsPackage id "src"
      (fun _ => {}) {} = some (some 0,s₂) ∧
    runAll (fun _ _ => true) Reference.labelsPackage id "src"
      [(.send (envEvent "dev"),fun _ => {}),(.send (envEvent "prod"),fun _ => {})] s₂ = some s₃ ∧
    received 0 s₃.journal = [envEvent "dev"] := by
  let sends : List (WatchOp × (ℕ → StoreChoice)) :=
    [(.send (envEvent "dev"),fun _ => {}),(.send (envEvent "prod"),fun _ => {})]
  have hget : ((WatchOp.getWatcher "ns" "env!=prod").run (fun _ _ => true) Reference.labelsPackage id
      "src" (fun _ => {}) {}).any fun p => p.1 = some 0 ∧ received 0 p.2.journal = [] ∧
        (runAll (fun _ _ => true) Reference.labelsPackage id "src" sends p.2).isSome := by
    decide +kernel
  obtain ⟨⟨k,s₂⟩,hrun,hp⟩ := (Option.any_eq_true _ _).mp hget
  obtain ⟨rfl,hnone,hsome⟩ := of_decide_eq_true hp
  obtain ⟨s₃,h₃⟩ := Option.isSome_iff_exists.mp hsome
  obtain ⟨search,hsearch,hiff⟩ := (watcher_sees_asked_iff (fun _ _ => true) Reference.labelsPackage id
    "src" (fun _ => none) (show runAll _ _ _ _ [] _ = _ from rfl)).2 "ns" "env!=prod" _ 0 s₂ hrun
  have hagree : Agrees Reference.labelsPackage {} "ns" search.selector :=
    fun k w hlookup => nomatch hlookup
  refine ⟨s₂,s₃,hrun,h₃,?_⟩
  rw [hiff.mpr hagree sends s₃ h₃,hnone]
  have hsel : search = Reference.labelSearch "env!=prod" := by
    have hknown : toLabelSearch Reference.labelsPackage id "env!=prod" =
      .ok (Reference.labelSearch "env!=prod") := by decide +kernel
    exact Except.ok.inj (hsearch.symm.trans hknown)
  rw [hsel]
  decide +kernel

/-- The second caller asks for another selector and gets the first one's watcher, which receives
what the second caller has not asked for. -/
theorem second_selector_ignored : ∃ s₁ s₂ s₃ : WatcherStore,
    (WatchOp.getWatcher "ns" "").run (fun _ _ => true) Reference.labelsPackage id "src"
      (fun _ => {}) {} = some (some 0,s₁) ∧
    (WatchOp.getWatcher "ns" "env!=prod").run (fun _ _ => true) Reference.labelsPackage id "src"
      (fun _ => {}) s₁ = some (some 0,s₂) ∧
    (WatchOp.send (envEvent "prod")).run (fun _ _ => true) Reference.labelsPackage id "src"
      (fun _ => {}) s₂ = some (none,s₃) ∧
    received 0 s₂.journal = [] ∧ received 0 s₃.journal = [envEvent "prod"] ∧
    toLabelSearch Reference.labelsPackage id "env!=prod" =
      .ok (Reference.labelSearch "env!=prod") ∧
    asked Reference.labelsPackage "ns" (Reference.labelSearch "env!=prod").selector
      (envEvent "prod") = false := by
  have hruns : ((WatchOp.getWatcher "ns" "").run (fun _ _ => true) Reference.labelsPackage id "src"
      (fun _ => {}) {}).any fun p₁ => p₁.1 = some 0 ∧
    ((WatchOp.getWatcher "ns" "env!=prod").run (fun _ _ => true) Reference.labelsPackage id "src"
      (fun _ => {}) p₁.2).any fun p₂ => p₂.1 = some 0 ∧ received 0 p₂.2.journal = [] ∧
    ((WatchOp.send (envEvent "prod")).run (fun _ _ => true) Reference.labelsPackage id "src"
      (fun _ => {}) p₂.2).any fun p₃ => p₃.1 = none ∧
        received 0 p₃.2.journal = [envEvent "prod"] := by
    decide +kernel
  obtain ⟨⟨k₁,s₁⟩,h₁,hp₁⟩ := (Option.any_eq_true _ _).mp hruns
  obtain ⟨rfl,hruns⟩ := of_decide_eq_true hp₁
  obtain ⟨⟨k₂,s₂⟩,h₂,hp₂⟩ := (Option.any_eq_true _ _).mp hruns
  obtain ⟨rfl,hnone,hruns⟩ := of_decide_eq_true hp₂
  obtain ⟨⟨k₃,s₃⟩,h₃,hp₃⟩ := (Option.any_eq_true _ _).mp hruns
  obtain ⟨rfl,hrecv⟩ := of_decide_eq_true hp₃
  exact ⟨s₁,s₂,s₃,h₁,h₂,h₃,hnone,hrecv,by decide +kernel,by decide +kernel⟩

end WatcherStore

end Maestro
