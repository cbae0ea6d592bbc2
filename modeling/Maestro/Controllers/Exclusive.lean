import Maestro.Controllers.EventLog

/-!
# Exclusive processing of events

Any number of instances with the lock based filter, whose statements may fail. A handler
runs only under the lock of its event, and not after some instance has stored
that the event is reconciled.
-/

namespace Maestro
open Concurrent Data

/-- Tasks of an instance that uses the lock based filter. -/
def EventTask.locking : EventTask → Prop
  | .lockBased _ | .sync _ | .retire _ => True
  | _ => False

/-- Some instance stored that the event is reconciled. -/
def Replaced (key : String) (J : List Entry) : Prop :=
  ∃ t row, (⟨t,.savedEvent row⟩ : Entry) ∈ J ∧ row.id = key

/-- Statements may fail; a UUID is generated by one session only, its owner. -/
def ownPool (owner : String → ℕ) (n : ℕ) (i : Fin n) (ch : Choice) (c : Call) (s : State) :
    Option (c.Resp × State) :=
  if owner ch.uuid = i then exec i ch c s else none

/-- Handlers and saves need the lock of the event, and a handler needs an event that has not been
replaced. -/
def lockRule (owner : String → ℕ) {n : ℕ} (tasks : Fin n → EventTask) (i : Fin n) (c : Call)
    (s : State) : Prop :=
  match c with
  | .newNonBlockingLock _ _ => s.Free i
  | .unlock uuid => owner uuid = i
  | .saveEvent row => s.HasLock i row.id .events ∧ row.reconciledDate.isSome
  | .handler _ _ => ∃ key, tasks i = .lockBased key ∧ s.HasLock i key .events ∧
    ¬ Replaced key s.journal
  | .createEvent _ | .newAdvisoryLock _ _ => False
  | _ => True

/-- Locks belong to the owners of their UUIDs, and events that were replaced are done with. -/
structure Guarded (owner : String → ℕ) {n : ℕ} (tasks : Fin n → EventTask) (s : State) : Prop where
  owners : ∀ l ∈ s.locks.held, owner l.owner = l.session
  replaced : ∀ key, Replaced key s.journal → ∀ row, s.events.find key = some row →
    row.reconciledDate.isSome
  handled : ∀ pre t row post, s.journal = pre ++ ⟨t,.savedEvent row⟩ :: post →
    ∀ (i : Fin n) handler sourceID ok, tasks i = .lockBased row.id →
      (⟨i,.handled handler sourceID ok⟩ : Entry) ∉ post

section Step

variable {owner : String → ℕ} {n : ℕ} {tasks : Fin n → EventTask} {i j : Fin n} {ch : Choice}
    {c : Call} {r : c.Resp} {s s' : State} {key : String}

theorem ownPool_exec (h : ownPool owner n i ch c s = some (r,s')) :
    exec i ch c s = some (r,s') ∧ owner ch.uuid = i := by
  unfold ownPool at h
  split at h
  · next ho => exact ⟨h,ho⟩
  · cases h

theorem ownPool_executes : Executes (ownPool owner n) := fun _ _ _ _ _ _ hx => (ownPool_exec hx).1

/-- What saves leave behind is reconciled. -/
theorem Guarded.replaced_step (h : Guarded owner tasks s) {t : ℕ} (hx : EventEffect t s c s')
    (hc : ∀ e, c ≠ .createEvent e) (hs : ∀ e, c = .saveEvent e → e.reconciledDate.isSome) :
    ∀ key, Replaced key s'.journal → ∀ row, s'.events.find key = some row →
      row.reconciledDate.isSome := by
  have hback : ∀ {J : List Entry} {acts : List Act} {key},
      Replaced key (J ++ acts.map (Entry.mk t)) → (∀ row, .savedEvent row ∉ acts) →
      Replaced key J := by
    rintro J acts key ⟨u,row,hm,hid⟩ hno
    rcases List.mem_append.mp hm with hm | hm
    · exact ⟨u,row,hm,hid⟩
    · obtain ⟨a,ha,he⟩ := List.mem_map.mp hm
      cases he
      exact absurd ha (hno row)
  intro key hrep row hrow
  cases hx with
  | quiet acts he hj hq =>
    rw [hj] at hrep
    rw [he] at hrow
    exact h.replaced key (hback hrep fun row hm => hq _ hm) row hrow
  | insert event => exact absurd rfl (hc event)
  | save event now =>
    rw [State.find_saveEvent] at hrow
    split at hrow
    · cases hrow
      exact hs event rfl
    · next hne =>
      obtain ⟨u,row',hm,hid⟩ := hrep
      rcases List.mem_append.mp hm with hm | hm
      · exact h.replaced key ⟨u,row',hm,hid⟩ row hrow
      · cases List.mem_singleton.mp hm
        exact absurd hid hne
  | purge =>
    rw [State.find_purgeEvents] at hrow
    exact h.replaced key (hback hrep (by simp)) row (Option.filter_eq_some_iff.mp hrow).1
  | retire cutoff date now picked hp =>
    rw [State.find_retireEvents] at hrow
    obtain ⟨row',hrow',rfl⟩ := Option.map_eq_some_iff.mp hrow
    unfold Event.setReconciled
    split
    · rfl
    · exact h.replaced key (hback hrep (by simp)) row' hrow'

theorem Guarded.step (ha : lockRule owner tasks i c s) (hx : ownPool owner n i ch c s = some (r,s'))
    (h : Guarded owner tasks s) : Guarded owner tasks s' := by
  obtain ⟨hx,ho⟩ := ownPool_exec hx
  refine ⟨?_,h.replaced_step (exec_eventEffect hx) ?_ ?_,?_⟩
  · intro l hl
    rcases exec_locks hx with he | ⟨uuid,-,he⟩ | ⟨k,he⟩
    · rw [he] at hl
      exact h.owners l hl
    · rw [he] at hl
      exact h.owners l (LockTable.mem_release.mp hl).1
    · rcases (LockTable.mem_acquire he).mp hl with rfl | hl
      · exact ho
      · exact h.owners l hl
  · rintro e rfl
    exact ha
  · rintro e rfl
    exact ha.2
  · intro pre t row post hsplit j handler sourceID ok htask hm
    obtain ⟨acts,hj,hb⟩ := exec_acts hx
    rw [hj] at hsplit
    rcases append_split hsplit with ⟨rest,hold,rfl⟩ | ⟨mid,hnew,-⟩
    · rcases List.mem_append.mp hm with hm | hm
      · exact h.handled pre t row rest hold j handler sourceID ok htask hm
      · -- a handler that runs now: its event has not been replaced
        obtain ⟨a,ha',he⟩ := List.mem_map.mp hm
        obtain ⟨hij,rfl⟩ := Entry.mk.inj he
        cases Fin.ext hij
        have hcall : c = .handler handler sourceID := (hb _ ha').resolve_right fun hn => hn trivial
        subst hcall
        obtain ⟨key,hkey,-,hnot⟩ := ha
        cases hkey.symm.trans htask
        exact hnot ⟨t,row,by rw [hold]; simp,rfl⟩
    · -- one call does not save and run a handler
      have hsaved : (⟨t,.savedEvent row⟩ : Entry) ∈ acts.map (Entry.mk i) := by
        rw [hnew]
        simp
      have hhandled : (⟨j,.handled handler sourceID ok⟩ : Entry) ∈ acts.map (Entry.mk i) := by
        rw [hnew]
        exact List.mem_append_right _ (List.mem_cons_of_mem _ hm)
      obtain ⟨a,ha',he⟩ := List.mem_map.mp hsaved
      obtain ⟨a',ha'',he'⟩ := List.mem_map.mp hhandled
      obtain ⟨-,rfl⟩ := Entry.mk.inj he
      obtain ⟨-,rfl⟩ := Entry.mk.inj he'
      obtain ⟨event,now,hc,-⟩ := (hb _ ha').resolve_right fun hn => hn trivial
      have hc' : c = .handler handler sourceID := (hb _ ha'').resolve_right fun hn => hn trivial
      cases hc.symm.trans hc'

end Step

/-- Between lock and unlock. -/
def Locked (owner : String → ℕ) {n : ℕ} (tasks : Fin n → EventTask) (i : Fin n) (key : String)
    (s : State) : Prop :=
  Guarded owner tasks s ∧ s.HasLock i key .events

/-- The event can still be handled, and nobody else does. -/
def Handling (owner : String → ℕ) {n : ℕ} (tasks : Fin n → EventTask) (i : Fin n) (key : String)
    (s : State) : Prop :=
  Locked owner tasks i key s ∧ ¬ Replaced key s.journal

/-- Calls that need no lock and take none. -/
def Call.lockless (owner : String → ℕ) (i : ℕ) : Call → Prop
  | .newNonBlockingLock _ _ | .newAdvisoryLock _ _ | .saveEvent _ | .handler _ _
  | .createEvent _ => False
  | .unlock uuid => owner uuid = i
  | _ => True

section Outline

variable {owner : String → ℕ} {n : ℕ} {tasks : Fin n → EventTask} {i : Fin n} {ch : Choice}
    {c : Call} {r : c.Resp} {s s' : State} {key : String} {reg : Registry}

theorem kept_guarded : Kept (ownPool owner n) (lockRule owner tasks) (Guarded owner tasks) :=
  fun _ _ _ _ _ _ ha hx h => h.step ha hx

theorem exec_saved (hx : exec i ch c s = some (r,s')) (hno : ∀ row, c = .saveEvent row → row.id ≠ key)
    (h : ¬ Replaced key s.journal) : ¬ Replaced key s'.journal := by
  obtain ⟨acts,hj,hb⟩ := exec_acts hx
  rintro ⟨t,row,hm,hid⟩
  rw [hj] at hm
  rcases List.mem_append.mp hm with hm | hm
  · exact h ⟨t,row,hm,hid⟩
  · obtain ⟨a,ha,he⟩ := List.mem_map.mp hm
    obtain ⟨-,rfl⟩ := Entry.mk.inj he
    obtain ⟨event,now,hc,rfl⟩ := (hb _ ha).resolve_right fun hn => hn trivial
    exact hno event hc hid

theorem stable_unlocked :
    Stable (ownPool owner n) (lockRule owner tasks) i fun s => s.Free i := by
  intro j hj ch c s r s' _ hx hfree l hl
  rcases exec_locks (ownPool_exec hx).1 with he | ⟨uuid,-,he⟩ | ⟨k,he⟩
  · rw [he] at hl
    exact hfree l hl
  · rw [he] at hl
    exact hfree l (LockTable.mem_release.mp hl).1
  · rcases (LockTable.mem_acquire he).mp hl with rfl | hl
    · exact val_ne hj
    · exact hfree l hl

theorem stable_hasLock (id : String) (lockType : LockType) :
    Stable (ownPool owner n) (lockRule owner tasks) i
      fun s => Guarded owner tasks s ∧ s.HasLock i id lockType := by
  intro j hj ch c s r s' ha hx ⟨hg,uuid,hl⟩
  refine ⟨hg.step ha hx,uuid,?_⟩
  rcases exec_locks (ownPool_exec hx).1 with he | ⟨uuid',rfl,he⟩ | ⟨k,he⟩
  · rw [he]
    exact hl
  · -- another session releases only locks of its own
    rw [he]
    refine LockTable.mem_release.mpr ⟨hl,?_⟩
    rintro rfl
    exact val_ne hj (ha.symm.trans (hg.owners _ hl))
  · exact (LockTable.mem_acquire he).mpr (Or.inr hl)

theorem stable_locked :
    Stable (ownPool owner n) (lockRule owner tasks) i (Locked owner tasks i key) :=
  stable_hasLock key .events

theorem stable_handling :
    Stable (ownPool owner n) (lockRule owner tasks) i (Handling owner tasks i key) := by
  intro j hj ch c s r s' ha hx ⟨hl,hnot⟩
  refine ⟨stable_locked j hj ch c s r s' ha hx hl,exec_saved (ownPool_exec hx).1 ?_ hnot⟩
  rintro row rfl rfl
  exact val_ne hj (ha.1.exclusive hl.2)

theorem Locked.own (h : Locked owner tasks i key s) (ha : lockRule owner tasks i c s)
    (hx : ownPool owner n i ch c s = some (r,s')) (hc : ∀ uuid, c ≠ .unlock uuid) :
    Locked owner tasks i key s' := by
  obtain ⟨hg,uuid,hl⟩ := h
  refine ⟨hg.step ha hx,uuid,?_⟩
  rcases exec_locks (ownPool_exec hx).1 with he | ⟨uuid',he,-⟩ | ⟨k,he⟩
  · rw [he]
    exact hl
  · exact absurd he (hc uuid')
  · exact (LockTable.mem_acquire he).mpr (Or.inr hl)

/-- A call of the session itself that ends nothing. -/
theorem safe_handling {α : Type} {Q : α → State → Prop} {c : Call} {k : c.Resp → M α}
    (ha : ∀ s, Handling owner tasks i key s → lockRule owner tasks i c s)
    (hc : ∀ uuid, c ≠ .unlock uuid) (hs : ∀ row, c ≠ .saveEvent row)
    (hk : ∀ r, Safe (ownPool owner n) (lockRule owner tasks) i Q (k r)
      (Handling owner tasks i key)) :
    Safe (ownPool owner n) (lockRule owner tasks) i Q (.call c k) (Handling owner tasks i key) := by
  refine Safe.call fun s hh => ⟨ha s hh,fun ch r s' hx => ⟨_,stable_handling,?_,hk r⟩⟩
  exact ⟨hh.1.own (ha s hh) hx hc,
    exec_saved (ownPool_exec hx).1 (fun row he => absurd he (hs row)) hh.2⟩

theorem safe_lockedHandlers (htask : tasks i = .lockBased key) (sourceID : String)
    (handlers : List ℕ) :
    Safe (ownPool owner n) (lockRule owner tasks) i (fun _ => Handling owner tasks i key)
      (runHandlers sourceID (handlers.map handlerFunc)) (Handling owner tasks i key) := by
  induction handlers with
  | nil => exact Safe.ret fun _ h => h
  | cons handler handlers ih =>
    refine safe_handling (c := .handler handler sourceID) (fun s hh => ⟨key,htask,hh.1.2,hh.2⟩)
      (fun _ => Call.noConfusion) (fun _ => Call.noConfusion) fun r => ?_
    cases r with
    | error err => exact Safe.ret fun _ h => h
    | ok u => exact ih

/-- The save at the end, and what follows it. -/
theorem safe_lockedReplace {row : Event} (hid : row.id = key) (hr : row.reconciledDate.isSome) :
    Safe (ownPool owner n) (lockRule owner tasks) i (fun _ => Locked owner tasks i key)
      (EventService.replace row) (Handling owner tasks i key) := by
  refine Safe.call fun s hh => ?_
  have ha : lockRule owner tasks i (.saveEvent row) s := ⟨hid ▸ hh.1.2,hr⟩
  refine ⟨ha,fun ch r s' hx => ⟨_,stable_locked,hh.1.own ha hx fun _ => Call.noConfusion,?_⟩⟩
  cases r with
  | error err =>
    refine Safe.call fun s hl => ⟨trivial,fun ch r s' hx =>
      ⟨Locked owner tasks i key,stable_locked,?_,?_⟩⟩
    · exact hl.own (c := .markForRollback err) trivial hx fun _ => Call.noConfusion
    · exact Safe.ret fun _ h => h
  | ok u => exact Safe.ret fun _ h => h

theorem safe_lockedProcess (htask : tasks i = .lockBased key) :
    Safe (ownPool owner n) (lockRule owner tasks) i (fun _ => Locked owner tasks i key)
      (processEvent reg.controllers key) (Locked owner tasks i key) := by
  refine ownPool_executes.safe_processEvent stable_locked (fun _ _ => trivial) (fun _ h => h)
    fun e s source fns hs hrow hnone hsource hfns => ?_
  have hid : e.id = key := Table.find_some_key hrow
  rw [reg.controllers_lookup] at hsource
  obtain ⟨types,hsrc,rfl⟩ := Option.map_eq_some_iff.mp hsource
  rw [lookup_map] at hfns
  obtain ⟨handlers,htypes,rfl⟩ := Option.map_eq_some_iff.mp hfns
  -- nobody has replaced the event so far
  have hnot : ¬ Replaced key s.journal := fun hrep => by
    have hrec := hs.1.replaced key hrep e hrow
    rw [hnone] at hrec
    cases hrec
  refine ⟨_,_,stable_handling,⟨hs,hnot⟩,stable_handling,fun _ _ => trivial,
    (safe_lockedHandlers htask e.sourceID handlers).weaken (fun _ h => h)
      fun r s h => ⟨h.1,fun _ => h⟩,fun now => safe_lockedReplace hid rfl⟩

/-- What follows takes no lock. -/
theorem safe_lockless {α : Type} {p : M α}
    (hp : p.Calls Answers (Call.lockless owner i) fun _ => True) :
    Safe (ownPool owner n) (lockRule owner tasks) i (fun _ => Guarded owner tasks) p
      (Guarded owner tasks) :=
  ownPool_executes.safe_rest kept_guarded (fun c s hc _ => by cases c <;> trivial) hp

theorem unlock_lockless {uuid : String} (h : uuid = "" ∨ owner uuid = i) :
    (unlock uuid).Calls Answers (Call.lockless owner i) fun _ => True := by
  unfold unlock
  split
  · trivial
  · next hne => exact ⟨h.resolve_left hne,fun _ _ => trivial⟩

/-- A try-lock: refused, in vain, or the lock is held from then on. -/
theorem safe_tryLock {α : Type} {Q : α → State → Prop} {id : String} {lockType : LockType}
    {f : String × Bool × Option DbErr → M α}
    (hno : ∀ uuid err, uuid = "" ∨ owner uuid = i →
      Safe (ownPool owner n) (lockRule owner tasks) i Q (f (uuid,false,err)) (Guarded owner tasks))
    (hyes : ∀ uuid, owner uuid = i → Safe (ownPool owner n) (lockRule owner tasks) i Q
      (f (uuid,true,none)) fun s => Guarded owner tasks s ∧ s.HasLock i id lockType) :
    Safe (ownPool owner n) (lockRule owner tasks) i Q (newNonBlockingLock id lockType >>= f)
      fun s => Guarded owner tasks s ∧ s.Free i := by
  refine Safe.call fun s ⟨hg,hfree⟩ => ⟨hfree,fun ch r s' hx => ?_⟩
  have hg' := hg.step (c := .newNonBlockingLock id lockType) hfree hx
  obtain ⟨hx,ho⟩ := ownPool_exec hx
  rcases exec_cases hx with ⟨err,-,he,rfl⟩ | ⟨-,hc⟩
  · cases he
    exact ⟨_,kept_guarded.stable i,hg,hno _ _ (Or.inl rfl)⟩
  · simp only [commit] at hc
    split at hc
    · cases hc
      exact ⟨_,kept_guarded.stable i,hg,hno _ _ (Or.inr ho)⟩
    · obtain ⟨locks,hl,he⟩ := Option.map_eq_some_iff.mp hc
      cases he
      refine ⟨_,stable_hasLock id lockType,
        ⟨hg',ch.uuid,(LockTable.mem_acquire hl).mpr (Or.inl rfl)⟩,hyes _ ho⟩

theorem safe_lockedHandle (htask : tasks i = .lockBased key) :
    Safe (ownPool owner n) (lockRule owner tasks) i (fun _ => Guarded owner tasks)
      (handleEvent reg.controllers (.lockBased []) key)
      fun s => Guarded owner tasks s ∧ s.Free i := by
  have hlast : ∀ uuid (result : Except String Bool), uuid = "" ∨ owner uuid = i →
      Safe (ownPool owner n) (lockRule owner tasks) i (fun _ => Guarded owner tasks)
        ((EventFilter.lockBased [(key,uuid)]).deferredAction key >>= fun h =>
          (pure (result,h) : M _)) (Guarded owner tasks) := by
    intro uuid result hu
    refine safe_lockless (.bind (Q := fun _ => True) ?_ fun _ _ => trivial)
    have hfind : [(key,uuid)].find? (fun p => decide (p.1 = key)) = some (key,uuid) := by simp
    simp only [EventFilter.deferredAction,hfind]
    exact .bind (unlock_lockless hu) fun _ _ => trivial
  refine safe_tryLock (fun uuid err hu => ?_) fun uuid hu => ?_
  · cases err with
    | some err => exact hlast uuid _ hu
    | none => exact hlast uuid _ hu
  · change Safe _ _ i _ (processEvent reg.controllers key >>= fun result =>
      (EventFilter.lockBased [(key,uuid)]).deferredAction key >>= fun h => pure (result,h)) _
    exact Safe.bind (safe_lockedProcess htask) fun result =>
      (hlast uuid result (Or.inr hu)).weaken (fun s hs => hs.1) fun _ _ h => h

theorem safe_lockedRetire (threshold : Time) :
    Safe (ownPool owner n) (lockRule owner tasks) i (fun _ => Guarded owner tasks)
      (staleDeleteDetectorRun threshold) fun s => Guarded owner tasks s ∧ s.Free i := by
  have hrest : ∀ uuid, uuid = "" ∨ owner uuid = i → ∀ {p : M Unit},
      p.Calls Answers (Call.lockless owner i) (fun _ => True) →
      Safe (ownPool owner n) (lockRule owner tasks) i (fun _ => Guarded owner tasks)
        (Prog.deferring (unlock uuid) p) (Guarded owner tasks) :=
    fun uuid hu p hp => safe_lockless (hp.deferring (unlock_lockless hu))
  refine safe_tryLock (fun uuid err hu => hrest uuid hu ?_) fun uuid hu => Safe.weaken
    (hrest uuid (Or.inr hu) ?_) (fun s hs => hs.1) fun _ _ h => h
  · cases err <;> trivial
  · exact .bind (reconcileStaleDeleteEvents_calls trivial (fun _ => trivial) fun _ _ => trivial)
      fun _ _ => trivial

end Outline

section Runs

variable {ext : External} {reg : Registry} {owner : String → ℕ} {n : ℕ}
    {tasks : Fin n → EventTask} {s₀ : State}

/-- Nothing has been recorded and nothing is locked. -/
structure State.Idle (s₀ : State) : Prop where
  journal : s₀.journal = []
  locks : s₀.locks.held = []

theorem State.Idle.guarded (h : s₀.Idle) : Guarded owner tasks s₀ := by
  constructor
  · simp [h.locks]
  · rintro key ⟨t,row,hm,-⟩
    simp [h.journal] at hm
  · intro pre t row post hsplit
    simp [h.journal] at hsplit

theorem eventStart_guarded (htasks : ∀ i, (tasks i).locking) (h₀ : s₀.Idle) :
    Verified (ownPool owner n) (lockRule owner tasks) (fun _ _ => Guarded owner tasks)
      (eventStart ext reg tasks s₀) := by
  intro i
  refine ⟨_,(kept_guarded.stable i).and stable_unlocked,⟨h₀.guarded,fun l hl => ?_⟩,?_⟩
  · rw [eventStart,h₀.locks] at hl
    cases hl
  have hlocking := htasks i
  change Safe _ _ i _ ((tasks i).run ext reg) _
  cases htask : tasks i with
  | lockBased key => exact Safe.map (safe_lockedHandle htask) fun _ _ h => h
  | sync queue =>
    exact (safe_lockless (syncEvents_calls (fun _ => trivial) trivial trivial
      fun _ => trivial)).weaken (fun s hs => hs.1) fun _ _ h => h
  | retire threshold => exact safe_lockedRetire threshold
  | operation | predicated => rw [htask] at hlocking; exact hlocking.elim

end Runs

/-- With the lock based filter an event is processed by one instance at a time: while a handler
runs, its instance holds the lock of the event and no other does. After an instance has stored that
the event is reconciled no handler is invoked for it, by whichever instance and however
early its call began. -/
theorem events_processed_exclusively (ext : External) (reg : Registry) (owner : String → ℕ) {n : ℕ}
    {tasks : Fin n → EventTask} (htasks : ∀ i, (tasks i).locking) {s₀ : State} (h₀ : s₀.Idle)
    {cfg : Config (Fin n) State Call Call.Resp Unit}
    (hr : Reach (ownPool owner n) (eventStart ext reg tasks s₀) cfg) :
    (∀ i handler sourceID k, cfg.threads i = .call (.handler handler sourceID) k →
      ∃ key, tasks i = .lockBased key ∧ cfg.shared.HasLock i key .events ∧
        ∀ j, cfg.shared.HasLock j key .events → j = i) ∧
    ∀ pre t row post, cfg.shared.journal = pre ++ ⟨t,.savedEvent row⟩ :: post →
      ∀ (i : Fin n) handler sourceID ok, tasks i = .lockBased row.id →
        (⟨i,.handled handler sourceID ok⟩ : Entry) ∉ post := by
  have hv : Verified (ownPool owner n) (lockRule owner tasks) (fun _ _ => Guarded owner tasks)
    (eventStart ext reg tasks s₀) := eventStart_guarded htasks h₀
  constructor
  · intro i handler sourceID k hnext
    obtain ⟨key,htask,hlock,-⟩ := (hv.reach hr).next hnext
    exact ⟨key,htask,hlock,fun j hj => hj.exclusive hlock⟩
  · exact (hv.invariant (fun i ch c s r s' ha hx h => h.step ha hx) hr h₀.guarded).handled

/-- An update whose event is still to be handled. -/
def pendingState : State where
  events := Table.empty.insert
    { id := "event", source := "Resources", sourceID := "web", eventType := .update }
    (Table.find_empty _)

/-- Two instances have the event in their queues. -/
def racingTasks (_ : Fin 2) : EventTask := .lockBased "event"

def racingEventStart : Config (Fin 2) State Call Call.Resp Unit :=
  eventStart Reference.packages updateRegistry racingTasks pendingState

/-- The second instance makes the third call, the first one all the others. -/
def racingOwner (uuid : String) : ℕ := if uuid = "uuid-2" then 1 else 0

/-- One instance is about to run a handler, the other has tried the lock in vain. -/
theorem events_processed_exclusively_race : ∃ cfg : Config (Fin 2) State Call Call.Resp Unit,
    Reach (ownPool racingOwner 2) racingEventStart cfg ∧
    (∃ k, cfg.threads 0 = .call (.handler 0 "web") k) ∧ cfg.shared.HasLock 0 "event" .events ∧
    ¬ cfg.shared.HasLock 1 "event" .events := by
  have h : (follow (ownPool racingOwner 2) (turns [0,0,1]) racingEventStart).any fun cfg =>
      match cfg.threads 0 with
      | .call (.handler handler sourceID) _ => decide (handler = 0 ∧ sourceID = "web")
      | _ => false := by
    decide +kernel
  obtain ⟨cfg,hr,h⟩ := (Option.any_eq_true _ _).mp h
  have hr := Reach.of_follow _ hr
  split at h
  · next handler sourceID k hnext =>
    obtain ⟨rfl,rfl⟩ := of_decide_eq_true h
    have hlocking : ∀ i, (racingTasks i).locking := fun _ => trivial
    obtain ⟨key,htask,hlock,hother⟩ := (events_processed_exclusively Reference.packages
      updateRegistry racingOwner hlocking ⟨rfl,rfl⟩ hr).1 0 0 "web" k hnext
    cases htask
    exact ⟨cfg,hr,⟨k,hnext⟩,hlock,fun h => absurd (hother 1 h) (by decide)⟩
  · cases h

end Maestro
