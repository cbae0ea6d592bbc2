import Maestro.Db.Effects

/-!
# What a statement can do to the events

The counterpart of `RowEffect` for the `events` table.
-/

namespace Maestro
open Data Concurrent

variable {t : ℕ} {ch : Choice} {s s' : State}

/-- Acts that leave the events alone. -/
def Act.eventless : Act → Prop
  | .insertedEvent _ => False
  | .savedEvent _ => False
  | .purgedEvents _ => False
  | .retiredEvents _ => False
  | _ => True

def State.insertEvent (s : State) (t : ℕ) (e : Event) (h : s.events.find e.id = none) : State :=
  { s with events := s.events.insert e h }.record t [.insertedEvent e]

/-- `Save`: the whole row, by its primary key. -/
def State.saveEvent (s : State) (t : ℕ) (e : Event) : State :=
  { s with events := s.events.save e }.record t [.savedEvent e]

def State.purgeEvents (s : State) (t : ℕ) : State :=
  { s with events := s.events.filter fun e => e.reconciledDate.isNone }.record t
    [.purgedEvents (s.events.rows.filter fun e => e.reconciledDate.isSome)]

def State.retireEvents (s : State) (t : ℕ) (picked : List Event) (date now : Time) : State :=
  let events := s.events.map (.setReconciled picked date now) (Event.setReconciled_id _ _ _)
  { s with events := events }.record t [.retiredEvents picked]

section Find

variable (t : ℕ) (k : String)

theorem State.find_insertEvent (e : Event) (h : s.events.find e.id = none) :
    (s.insertEvent t e h).events.find k = if k = e.id then some e else s.events.find k :=
  Table.find_insert _ _ h _

theorem State.find_saveEvent (e : Event) :
    (s.saveEvent t e).events.find k = if e.id = k then some e else s.events.find k :=
  Table.find_save _ _ _

theorem State.find_purgeEvents :
    (s.purgeEvents t).events.find k =
      (s.events.find k).filter fun e => e.reconciledDate.isNone :=
  Table.find_filter _ _ _

theorem State.find_retireEvents (picked : List Event) (date now : Time) :
    (s.retireEvents t picked date now).events.find k =
      (s.events.find k).map (.setReconciled picked date now) :=
  Table.find_map _ _ (Event.setReconciled_id _ _ _) _

end Find

/-- What a call of session `t` does to the events and to the journal. -/
inductive EventEffect (t : ℕ) (s : State) : Call → State → Prop
  | quiet {c : Call} {s' : State} (acts : List Act) (hr : s'.events = s.events)
      (hj : s'.journal = s.journal ++ acts.map (Entry.mk t)) (hq : ∀ a ∈ acts, a.eventless) :
      EventEffect t s c s'
  | insert (event : Event) (now : Time) (uuid : String)
      (h : s.events.find (event.beforeCreate now uuid).id = none) :
      EventEffect t s (.createEvent event) (s.insertEvent t (event.beforeCreate now uuid) h)
  | save (event : Event) (now : Time) :
      EventEffect t s (.saveEvent event) (s.saveEvent t { event with updatedAt := now })
  | purge : EventEffect t s .deleteReconciledEvents (s.purgeEvents t)
  | retire (cutoff date now : Time) (picked : List Event)
      (h : ∀ e ∈ picked, e ∈ s.staleDeleteEvents cutoff) :
      EventEffect t s (.reconcileStaleDeleteEvents cutoff date) (s.retireEvents t picked date now)

theorem EventEffect.same (c : Call) : EventEffect t s c s := .quiet [] rfl (by simp) (by simp)

theorem EventEffect.one {c : Call} {a : Act} (hr : s'.events = s.events)
    (hj : s'.journal = s.journal ++ [⟨t,a⟩]) (hq : a.eventless) : EventEffect t s c s' :=
  .quiet [a] hr hj (by simpa using hq)

theorem commit_eventEffect {c : Call} {r : c.Resp} (h : commit t ch c s = some (r,s')) :
    EventEffect t s c s' := by
  cases c with
  | createEvent event =>
    obtain ⟨hfree,-,rfl⟩ := commit_createEvent h
    exact .insert event ch.now ch.uuid hfree
  | saveEvent event =>
    cases h
    exact .save event ch.now
  | deleteReconciledEvents =>
    cases h
    exact .purge
  | reconcileStaleDeleteEvents cutoff date =>
    simp only [commit] at h
    split at h
    · next hperm =>
      cases h
      exact .retire cutoff date ch.now _ fun e he => hperm.mem_iff.mp (List.mem_of_mem_take he)
    · cases h
  | createResource resource =>
    rcases commit_createResource h with ⟨-,-,rfl⟩ | ⟨-,-,rfl⟩
    · exact .one rfl rfl trivial
    · exact .same _
  | updateResource id version payload =>
    obtain ⟨-,⟨-,rfl⟩ | ⟨-,-,rfl⟩⟩ := commit_updateResource h
    · exact .same _
    · exact .one rfl rfl trivial
  | updateResourceStatus id status =>
    obtain ⟨-,⟨-,rfl⟩ | ⟨-,-,rfl⟩⟩ := commit_updateResourceStatus h
    · exact .same _
    · exact .one rfl rfl trivial
  | deleteResource id unscoped =>
    cases unscoped with
    | false =>
      rcases commit_softDelete h with ⟨-,-,rfl⟩ | ⟨-,-,⟨-,-,-,rfl⟩ | ⟨-,rfl⟩⟩
      · exact .same _
      · exact .one rfl rfl trivial
      · exact .same _
    | true =>
      rcases commit_hardDelete h with ⟨-,-,rfl⟩ | ⟨-,-,⟨-,rfl⟩ | ⟨-,-,rfl⟩⟩
      · exact .same _
      · exact .same _
      · exact .one rfl rfl trivial
  | newAdvisoryLock id lockType =>
    obtain ⟨locks,-,hl⟩ := Option.map_eq_some_iff.mp h
    cases hl
    exact .quiet [] rfl (by simp) (by simp)
  | newNonBlockingLock id lockType =>
    simp only [commit] at h
    split at h
    · cases h
      exact .same _
    · obtain ⟨locks,-,hl⟩ := Option.map_eq_some_iff.mp h
      cases hl
      exact .quiet [] rfl (by simp) (by simp)
  | createStatusEvent event =>
    obtain ⟨-,-,rfl⟩ := commit_createStatusEvent h
    exact .one rfl rfl trivial
  | findUnreconciledEvents =>
    simp only [commit] at h
    split at h
    · cases h
      exact .one rfl rfl trivial
    · cases h
  | publish action resource =>
    simp only [commit] at h
    split at h
    · cases h
      exact .one rfl rfl trivial
    · cases h
      exact .same _
  | now | markForRollback | unlock | findResourcesBySource | takeEvent | findLatestDeleteEvent
  | subscribers =>
    cases h
    exact .quiet [] rfl (by simp) (by simp)
  | takeResource | notify | broadcast | handler | queue =>
    cases h
    exact .one rfl rfl trivial

theorem exec_eventEffect {c : Call} {r : c.Resp} (h : exec t ch c s = some (r,s')) :
    EventEffect t s c s' := by
  rcases exec_cases h with ⟨-,-,-,rfl⟩ | ⟨-,hc⟩
  · exact .same c
  · exact commit_eventEffect hc

end Maestro
