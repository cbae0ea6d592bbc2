import Maestro.Client.WatcherStore

/-!
# Stopped watchers

A sender looks whether a watcher is stopped and then waits until its consumer takes the event, with
the read lock of the store in hand. A watcher that is stopped between the two steps has no
consumer any more, and the sender waits for ever.
-/

namespace Maestro
open Data Concurrent

namespace WatcherStore

/-- The watcher that a call has just found running. -/
def found : (c : StoreCall) → c.Resp → Option ℕ
  | .isStopped watcher,stopped => if stopped then none else some watcher
  | _,_ => none

/-- Every event is sent right after its watcher was found running; `live` is the watcher that was
found running just now. -/
def SendsAfterCheck {α : Type} : Option ℕ → StoreM α → Prop
  | _,.ret _ => True
  | live,.call c k => (∀ watcher evt, c = .send watcher evt → live = some watcher) ∧
      ∀ r, SendsAfterCheck (found c r) (k r)

section Programs

variable {α β : Type} {live : Option ℕ}

theorem SendsAfterCheck.of_none {p : StoreM α} (h : SendsAfterCheck none p) :
    SendsAfterCheck live p := by
  cases p with
  | ret a => trivial
  | call c k => exact ⟨fun watcher evt hc => (by cases h.1 watcher evt hc),h.2⟩

theorem SendsAfterCheck.bind {p : StoreM α} {f : α → StoreM β} (hp : SendsAfterCheck live p)
    (hf : ∀ a, SendsAfterCheck none (f a)) : SendsAfterCheck live (p >>= f) := by
  induction p generalizing live with
  | ret a => exact (hf a).of_none
  | call c k ih => exact ⟨hp.1,fun r => ih r (hp.2 r)⟩

theorem SendsAfterCheck.call {c : StoreCall} {k : c.Resp → StoreM α}
    (hc : ∀ watcher evt, c ≠ .send watcher evt) (hk : ∀ r, SendsAfterCheck none (k r)) :
    SendsAfterCheck live (.call c k) :=
  ⟨fun watcher evt h => absurd h (hc watcher evt),fun r => (hk r).of_none⟩

theorem SendsAfterCheck.perform {c : StoreCall} (hc : ∀ watcher evt, c ≠ .send watcher evt) :
    SendsAfterCheck live (performStore c) :=
  .call hc fun _ => trivial

variable (pkg : LabelsPackage) (quote : String → String) (sourceID : String)

theorem receive_sends (evt : WatchEvent) (w : ℕ × WorkWatcher) :
    SendsAfterCheck none (receive pkg evt w) := by
  refine ⟨by simp,fun stopped => ?_⟩
  cases stopped with
  | true => trivial
  | false =>
    change SendsAfterCheck (some w.1)
      (if w.2.accepts pkg evt.object then performStore (.send w.1 evt) else Prog.ret ())
    split
    · exact ⟨fun watcher evt' h => by cases h; rfl,fun _ => trivial⟩
    · trivial

theorem receiveEach_sends (evt : WatchEvent) (ws : List (ℕ × WorkWatcher)) :
    SendsAfterCheck none (receiveEach pkg evt ws) := by
  induction ws with
  | nil => trivial
  | cons w ws ih => exact (receive_sends pkg evt w).bind fun _ => ih

theorem sendWatchEvent_sends (evt : WatchEvent) :
    SendsAfterCheck none (sendWatchEvent pkg evt) :=
  .call (by simp) fun _ => .call (by simp) fun watchers =>
    (receiveEach_sends pkg evt watchers).bind fun _ => .perform (by simp)

theorem addEach_sends (works : List Work) : SendsAfterCheck none (addEach works) := by
  induction works with
  | nil => trivial
  | cons work works ih => exact .call (by simp) fun _ => ih

theorem registerWatcher_sends (ns : String) (labelSelector : LabelSelector) :
    SendsAfterCheck none (registerWatcher ns labelSelector) := by
  have hput : SendsAfterCheck none (do
      let watcher ← performStore (.putWatcher ns labelSelector)
      performStore .unlock
      return watcher) :=
    .call (by simp) fun _ => .call (by simp) fun _ => trivial
  refine .call (by simp) fun _ => .call (by simp) fun found => ?_
  cases found with
  | none => exact hput
  | some watcher =>
    refine .call (by simp) fun stopped => ?_
    cases stopped with
    | true => exact hput
    | false => exact .call (by simp) fun _ => trivial

theorem getWatcher_sends (ns labelSelector : String) :
    SendsAfterCheck none (getWatcher pkg quote sourceID ns labelSelector) := by
  rw [getWatcher]
  split
  · trivial
  next search _ =>
    refine .call (by simp) fun listed => ?_
    cases listed with
    | error err => trivial
    | ok works =>
      exact (registerWatcher_sends ns search.selector).bind fun _ =>
        (addEach_sends works).bind fun _ => trivial

theorem sync_sends : SendsAfterCheck none (sync sourceID) := by
  refine .call (by simp) fun _ => .call (by simp) fun watchers => ?_
  simp only [Prog.bind]
  split
  · exact .call (by simp) fun _ => trivial
  · refine .call (by simp) fun listed => ?_
    cases listed with
    | error err => exact .call (by simp) fun _ => trivial
    | ok works => exact (addEach_sends works).bind fun _ => .call (by simp) fun _ => trivial

theorem process_sends (n : ℕ) : SendsAfterCheck none (process pkg n) := by
  induction n with
  | zero => trivial
  | succ n ih =>
    exact .call (by simp) fun work => (sendWatchEvent_sends pkg _).bind fun _ => ih

theorem subscription_sends (n : ℕ) : SendsAfterCheck none (subscription pkg n) := by
  induction n with
  | zero => trivial
  | succ n ih =>
    exact .call (by simp) fun work => (sendWatchEvent_sends pkg _).bind fun _ => ih

theorem program_sends (activity : Activity) :
    SendsAfterCheck none (activity.program pkg quote sourceID) := by
  cases activity with
  | getWatcher ns labelSelector =>
    exact (getWatcher_sends pkg quote sourceID ns labelSelector).bind fun _ => trivial
  | sync => exact (sync_sends sourceID).bind fun _ => trivial
  | process n => exact process_sends pkg n
  | subscription n => exact subscription_sends pkg n
  | stop watcher => exact .perform (by simp)
  | change work publish => exact .perform (by simp)

end Programs

/-! ### Orderly stops -/

abbrev StoreConfig := Config ℕ WatcherStore StoreCall StoreCall.Resp Unit

/-- A watcher is stopped only while no sender has found it running and waits to send to it. -/
def OrderlyStop (cfg : StoreConfig) (c : StoreCall) : Prop :=
  ∀ watcher, c = .stop watcher →
    ∀ j evt, (cfg.threads j).pending ≠ some (.send watcher evt)

/-- Only a stop changes that a watcher is running. -/
theorem stopped_of_effect {selects : String → Work → Bool} {i : ℕ} {s s' : WatcherStore}
    {c : StoreCall} {r : c.Resp} (h : StoreEffect selects i s c r s') {watcher : ℕ}
    (hrun : s.stopped watcher = false) : s'.stopped watcher = false ∨ c = .stop watcher := by
  cases h
  case putWatcher ns labelSelector =>
    left
    rw [stopped,List.getElem?_append]
    split
    · exact hrun
    · cases hw : [(⟨ns,labelSelector,false,false⟩ : WorkWatcher)][watcher - s.heap.length]? with
      | none => rfl
      | some w =>
        have hmem := List.mem_of_getElem? hw
        rw [List.mem_singleton.mp hmem]
        rfl
  case stop stoppedWatcher f hf =>
    by_cases heq : stoppedWatcher = watcher
    · exact .inr (by rw [heq])
    · left
      rw [stopped,updateWatcher,List.getElem?_modify_ne _ _ heq]
      exact hrun
  all_goals exact .inl hrun

/-- The threads of a run, each with the watcher that it has just found running. -/
def Attentive (cfg : StoreConfig) : Prop :=
  ∀ i, ∃ live, SendsAfterCheck live (cfg.threads i) ∧
    ∀ watcher, live = some watcher → cfg.shared.stopped watcher = false

theorem found_running {selects : String → Work → Bool} {i : ℕ} {s s' : WatcherStore}
    {c : StoreCall} {r : c.Resp} (h : StoreEffect selects i s c r s') {watcher : ℕ}
    (hf : found c r = some watcher) : s'.stopped watcher = false := by
  cases h
  case isStopped w =>
    rw [found] at hf
    split at hf
    · cases hf
    next hrun =>
      cases hf
      simpa using hrun
  all_goals cases hf

theorem Attentive.step {selects : String → Work → Bool} {cfg cfg' : StoreConfig}
    (h : Attentive cfg) (hs : StepWhen (exec selects) OrderlyStop cfg cfg') : Attentive cfg' := by
  obtain ⟨i,o,ht,hx,hg⟩ := hs
  next c k r s =>
  have he := exec_effect hx
  intro j
  by_cases hj : j = i
  · subst j
    obtain ⟨live,hsends,-⟩ := h i
    rw [ht] at hsends
    refine ⟨found c r,?_,fun watcher hf => found_running he hf⟩
    simpa only [Function.update_self] using hsends.2 r
  · obtain ⟨live,hsends,hrun⟩ := h j
    simp only [Function.update_of_ne hj]
    by_cases hstop : ∃ watcher, live = some watcher ∧ c = .stop watcher
    · -- the stopped watcher is not the one that this thread is about to send to
      obtain ⟨watcher,rfl,hc⟩ := hstop
      refine ⟨none,?_,by simp⟩
      cases hp : cfg.threads j with
      | ret a => trivial
      | call d l =>
        rw [hp] at hsends
        refine ⟨fun target evt hd => ?_,hsends.2⟩
        have htarget := hsends.1 target evt hd
        have hpending := hg watcher hc j evt
        rw [hp,Prog.pending,hd] at hpending
        exact absurd (by cases htarget; rfl) hpending
    · refine ⟨live,hsends,fun watcher hl => ?_⟩
      rcases stopped_of_effect he (hrun watcher hl) with hkeep | hc
      · exact hkeep
      · exact absurd ⟨watcher,hl,hc⟩ hstop

/-- In a run in which every stop finds no sender between its check and its send, no sender ever
waits to send to a stopped watcher. -/
theorem no_sender_waits_on_stopped {selects : String → Work → Bool} {pkg : LabelsPackage}
    {quote : String → String} {sourceID : String} {works : List Work} {activities : ℕ → Activity}
    {cfg : StoreConfig} (hr : ReachWhen (exec selects) OrderlyStop
      (storeStart pkg quote sourceID works activities) cfg) :
    ∀ i watcher evt, (cfg.threads i).pending = some (.send watcher evt) →
      cfg.shared.stopped watcher = false := by
  have hattentive : Attentive cfg := by
    induction hr with
    | refl => exact fun i => ⟨none,program_sends pkg quote sourceID (activities i),by simp⟩
    | tail _ hs ih => exact ih.step hs
  intro i watcher evt hp
  obtain ⟨live,hsends,hrun⟩ := hattentive i
  obtain ⟨k,hk⟩ := Prog.pending_eq_some.mp hp
  rw [hk] at hsends
  exact hrun watcher (hsends.1 watcher evt rfl)

/-! ### A stop between the check and the send -/

/-- A watcher for all namespaces, a work that the server publishes, its reception, and a consumer
that stops the watcher; another watcher is asked for. -/
def stopActivities : ℕ → Activity
  | 0 => .getWatcher "" ""
  | 1 => .change ⟨"x","ns",[],0,1,0,false⟩ true
  | 2 => .subscription 1
  | 3 => .stop 0
  | _ => .getWatcher "ns" ""

def stopStart : StoreConfig := storeStart Reference.labelsPackage id "src" [] stopActivities

/-- The threads in the order of their steps, under the first choices. -/
def inOrder (threads : List ℕ) : List (ℕ × StoreChoice) := threads.map fun i => (i,{})

/-- The work is received, and its sender has found the watcher running. -/
def untilCheck : List ℕ := [0,0,0,0,0,1,2,2,2,2]

def isStop : StoreCall → Bool
  | .stop _ => true
  | _ => false

/-- The calls but stops. -/
def execRunning (selects : String → Work → Bool) (i : ℕ) (o : StoreChoice) (c : StoreCall)
    (s : WatcherStore) : Option (c.Resp × WatcherStore) :=
  if isStop c then none else exec selects i o c s

theorem exec_of_running {selects : String → Work → Bool} {i : ℕ} {o : StoreChoice} {c : StoreCall}
    {s s' : WatcherStore} {r : c.Resp} (h : execRunning selects i o c s = some (r,s')) :
    exec selects i o c s = some (r,s') ∧ ∀ cfg, OrderlyStop cfg c := by
  rw [execRunning] at h
  split at h
  · cases h
  next hc =>
    refine ⟨h,fun cfg watcher hs => ?_⟩
    subst hs
    exact absurd rfl hc

theorem no_sender_waits_until_check : ∃ cfg,
    ReachWhen (exec fun _ _ => true) OrderlyStop stopStart cfg ∧
      (cfg.threads 2).pending = some (.send 0 ⟨.modified,⟨"x","ns",[],0,1,0,false⟩⟩) ∧
      cfg.shared.stopped 0 = false := by
  have hrun : (follow (execRunning fun _ _ => true) (inOrder untilCheck) stopStart).any fun cfg =>
      (cfg.threads 2).pending = some (.send 0 ⟨.modified,⟨"x","ns",[],0,1,0,false⟩⟩) := by
    decide +kernel
  obtain ⟨cfg,hcfg,hp⟩ := (Option.any_eq_true _ _).mp hrun
  have hp := of_decide_eq_true hp
  have hr : ReachWhen (exec fun _ _ => true) OrderlyStop stopStart cfg :=
    ReachWhen.of_reach (exec fun _ _ => true)
      (fun _ _ _ _ _ _ h => (exec_of_running h).1)
      (fun _ _ _ _ _ _ h cfg _ => (exec_of_running h).2 cfg)
      (Reach.of_follow (execRunning fun _ _ => true) hcfg)
  exact ⟨cfg,hr,hp,no_sender_waits_on_stopped hr 2 0 _ hp⟩

/-- The watcher is stopped right after the check: the sender waits with the read lock in hand, it
can never go on, and neither can the other call get the lock. -/
theorem sender_waits_on_stopped : ∃ cfg,
    Reach (exec fun _ _ => true) stopStart cfg ∧
      (cfg.threads 2).pending = some (.send 0 ⟨.modified,⟨"x","ns",[],0,1,0,false⟩⟩) ∧
      cfg.shared.stopped 0 = true ∧ cfg.shared.readers = [2] ∧
      (exec (fun _ _ => true) 2 {} (.send 0 ⟨.modified,⟨"x","ns",[],0,1,0,false⟩⟩)
        cfg.shared).isNone ∧
      (cfg.threads 4).pending = some .lock ∧
      (exec (fun _ _ => true) 4 {} .lock cfg.shared).isNone := by
  have hrun : (follow (exec fun _ _ => true) (inOrder (untilCheck ++ [3,4])) stopStart).any
      fun cfg => decide (
        (cfg.threads 2).pending = some (.send 0 ⟨.modified,⟨"x","ns",[],0,1,0,false⟩⟩) ∧
        cfg.shared.stopped 0 = true ∧ cfg.shared.readers = [2] ∧
        (exec (fun _ _ => true) 2 {} (.send 0 ⟨.modified,⟨"x","ns",[],0,1,0,false⟩⟩)
          cfg.shared).isNone ∧
        (cfg.threads 4).pending = some .lock ∧
        (exec (fun _ _ => true) 4 {} .lock cfg.shared).isNone) := by
    decide +kernel
  obtain ⟨cfg,hcfg,hp⟩ := (Option.any_eq_true _ _).mp hrun
  exact ⟨cfg,Reach.of_follow _ hcfg,of_decide_eq_true hp⟩

end WatcherStore

end Maestro
