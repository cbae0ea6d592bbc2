import Maestro.Server.Delivery

/-!
# The throttle of repeated deletions

Any number of `MarkAsDeleting` calls next to the handling, the purging and the retiring of
events, under a clock that never goes back.
-/

namespace Maestro
open Concurrent Data

/-- What `FindLatestDeleteEvent` asks for. -/
def Event.deletes (id : String) (e : Event) : Bool :=
  decide (e.source = "Resources" ∧ e.sourceID = id ∧ e.eventType = .delete)

def Entry.deleteEvent? (id : String) : Entry → Option Event
  | ⟨_,.insertedEvent e⟩ => if e.deletes id then some e else none
  | _ => none

/-- The Delete events of the resource, in the order of their insertion. -/
def deleteEvents (id : String) (J : List Entry) : List Event := J.filterMap (Entry.deleteEvent? id)

/-- The columns of an event that nothing changes. -/
def Event.origin (e : Event) : Event := { e with updatedAt := 0, reconciledDate := none }

/-- The database and the clock that all instances read. -/
structure Clocked where
  state : State
  clock : Time

/-- UUIDs of events are new, an `Unlock` names no lock of another session and the database does not
invent a missing row. -/
def Choice.orderly (ch : Choice) (i : ℕ) (s : State) (c : Call) : Bool :=
  decide (ch.fault c ≠ some .recordNotFound) &&
  match c with
  | .createEvent _ => s.journal.all fun e => match e.act with
    | .insertedEvent e => decide (e.id ≠ ch.uuid)
    | _ => true
  | .unlock uuid => s.locks.held.all fun l => decide (l.owner = uuid → l.session = i)
  | _ => true

def orderlyPool (n : ℕ) (i : Fin n) (ch : Choice) (c : Call) (s : State) :
    Option (c.Resp × State) :=
  if ch.orderly i s c then exec i ch c s else none

/-- The statements under a clock that never goes back. -/
def clockedPool (n : ℕ) (i : Fin n) (ch : Choice) (c : Call) (s : Clocked) :
    Option (c.Resp × Clocked) :=
  if s.clock ≤ ch.now then
    (orderlyPool n i ch c s.state).map fun p => (p.1,⟨p.2,ch.now⟩)
  else
    none

/-- No purge removes a Delete event of the resource before the interval is over. -/
def Choice.patient (ch : Choice) (interval : Time) (id : String) (s : State) : Call → Bool
  | .deleteReconciledEvents => s.events.rows.all fun e =>
    !(e.deletes id && e.reconciledDate.isSome) || decide (e.createdAt + interval ≤ ch.now)
  | _ => true

def patientPool (interval : Time) (id : String) (n : ℕ) (i : Fin n) (ch : Choice) (c : Call)
    (s : Clocked) : Option (c.Resp × Clocked) :=
  if ch.patient interval id s.state c then clockedPool n i ch c s else none

/-- What the sessions do to the resource and to its events: no hard delete, a Delete event only
from a `MarkAsDeleting` that holds the lock of the marked row, and saves of events that were
inserted. -/
def throttleRule (id : String) {n : ℕ} (tasks : Fin n → EventTask) (i : Fin n) (c : Call)
    (s : State) : Prop :=
  match c with
  | .deleteResource id' true => id' ≠ id
  | .createEvent e => e.deletes id → (∃ interval, tasks i = .operation (.markAsDeleting interval id)) ∧
    s.HasLock i id .resources ∧ s.Marked id
  | .saveEvent row => ∃ e, Inserted s.journal e ∧ e.origin = row.origin
  | _ => True

/-- A Delete event is inserted only when the interval is over for all earlier ones. -/
def spacingRule (interval : Time) (id : String) {n : ℕ} (tasks : Fin n → EventTask) (i : Fin n)
    (c : Call) (s : Clocked) : Prop :=
  throttleRule id tasks i c s.state ∧ ∀ e, c = .createEvent e → e.deletes id →
    ∀ e' ∈ deleteEvents id s.state.journal, e'.createdAt + interval ≤ s.clock

/-- Rows of events are events that were inserted. -/
structure Traced (s : State) : Prop where
  unique : ∀ e e', Inserted s.journal e → Inserted s.journal e' → e.id = e'.id → e = e'
  known : ∀ key row, s.events.find key = some row → ∃ e, Inserted s.journal e ∧ e.origin = row.origin

structure Throttled (interval : Time) (id : String) (s : Clocked) : Prop where
  traced : Traced s.state
  spaced : (deleteEvents id s.state.journal).Pairwise fun e e' => e.createdAt + interval ≤ e'.createdAt
  past : ∀ e ∈ deleteEvents id s.state.journal, e.createdAt ≤ s.clock
  /-- An event that is younger than the interval is in the table. -/
  young : ∀ e ∈ deleteEvents id s.state.journal, e.createdAt + interval ≤ s.clock ∨
    ∃ row, s.state.events.find e.id = some row
  marked : deleteEvents id s.state.journal ≠ [] → s.state.Marked id

section Step

variable {n : ℕ} {tasks : Fin n → EventTask} {i : Fin n} {ch : Choice} {c : Call} {r : c.Resp}
    {s s' : State} {id : String} {interval : Time} {x x' : Clocked}

@[simp] theorem deleteEvents_append (J K : List Entry) :
    deleteEvents id (J ++ K) = deleteEvents id J ++ deleteEvents id K := List.filterMap_append

theorem mem_deleteEvents {J : List Entry} {e : Event} :
    e ∈ deleteEvents id J ↔ Inserted J e ∧ e.deletes id := by
  simp only [deleteEvents,List.mem_filterMap]
  constructor
  · rintro ⟨⟨t,act⟩,hm,he⟩
    cases act with
    | insertedEvent e' =>
      simp only [Entry.deleteEvent?] at he
      split at he
      · next hd =>
        cases he
        exact ⟨⟨t,hm⟩,hd⟩
      · cases he
    | _ => cases he
  · rintro ⟨⟨t,hm⟩,hd⟩
    exact ⟨_,hm,if_pos hd⟩

theorem orderlyPool_exec (h : orderlyPool n i ch c s = some (r,s')) :
    exec i ch c s = some (r,s') ∧ ch.orderly i s c := by
  unfold orderlyPool at h
  split at h
  · next ho => exact ⟨h,ho⟩
  · cases h

theorem orderlyPool_executes : Executes (orderlyPool n) :=
  fun _ _ _ _ _ _ hx => (orderlyPool_exec hx).1

theorem clockedPool_orderly (h : clockedPool n i ch c x = some (r,x')) :
    orderlyPool n i ch c x.state = some (r,x'.state) ∧ x.clock ≤ ch.now ∧ x'.clock = ch.now := by
  unfold clockedPool at h
  split at h
  · next hle =>
    obtain ⟨p,hp,he⟩ := Option.map_eq_some_iff.mp h
    cases he
    exact ⟨hp,hle,rfl⟩
  · cases h

theorem patientPool_clocked (h : patientPool interval id n i ch c x = some (r,x')) :
    clockedPool n i ch c x = some (r,x') ∧ ch.patient interval id x.state c := by
  unfold patientPool at h
  split at h
  · next hp => exact ⟨h,hp⟩
  · cases h

theorem Choice.fresh_of_orderly {event : Event} (h : ch.orderly i s (.createEvent event)) :
    ∀ e, Inserted s.journal e → e.id ≠ ch.uuid := by
  rintro e ⟨t,hm⟩
  have hall := ((Bool.and_eq_true _ _).mp h).2
  exact of_decide_eq_true (List.all_eq_true.mp hall _ hm)

/-- What a statement inserts: an event, if it is an insertion. -/
theorem exec_inserted (h : exec i ch c s = some (r,s')) {e : Event} (hi : Inserted s'.journal e) :
    Inserted s.journal e ∨ ∃ event, c = .createEvent event ∧ e = event.beforeCreate ch.now ch.uuid ∧
      s'.journal = s.journal ++ [⟨i,.insertedEvent e⟩] ∧ s'.events.find ch.uuid = some e := by
  by_cases hc : ∃ event, c = .createEvent event
  · obtain ⟨event,rfl⟩ := hc
    rcases exec_cases h with ⟨-,-,-,rfl⟩ | ⟨-,hc⟩
    · exact Or.inl hi
    · obtain ⟨hfree,-,rfl⟩ := commit_createEvent hc
      obtain ⟨t,hm⟩ := hi
      rcases List.mem_append.mp hm with hm | hm
      · exact Or.inl ⟨t,hm⟩
      · cases List.mem_singleton.mp hm
        exact Or.inr ⟨event,rfl,rfl,rfl,Table.find_insert_self _ _ hfree⟩
  · cases exec_eventEffect h with
    | quiet acts _ hj hq =>
      rw [hj] at hi
      refine Or.inl (hi.of_append fun t e hm => ?_)
      obtain ⟨a,ha,he⟩ := List.mem_map.mp hm
      cases he
      exact hq _ ha
    | insert event => exact absurd ⟨event,rfl⟩ hc
    | save | purge | retire => exact Or.inl (hi.of_snoc fun _ => Act.noConfusion)

theorem exec_inserted_mono (h : exec i ch c s = some (r,s')) {e : Event} (hi : Inserted s.journal e) :
    Inserted s'.journal e := by
  obtain ⟨acts,hj,-⟩ := exec_acts h
  rw [hj]
  exact hi.append

theorem Traced.step (ha : throttleRule id tasks i c s) (hx : orderlyPool n i ch c s = some (r,s'))
    (h : Traced s) : Traced s' := by
  obtain ⟨hx,ho⟩ := orderlyPool_exec hx
  have hmono : ∀ {e}, Inserted s.journal e → Inserted s'.journal e := exec_inserted_mono hx
  refine ⟨fun e e' hi hi' hid => ?_,fun key row hrow => ?_⟩
  · rcases exec_inserted hx hi with hold | ⟨event,rfl,rfl,-,-⟩
    · rcases exec_inserted hx hi' with hold' | ⟨event,rfl,rfl,-,-⟩
      · exact h.unique e e' hold hold' hid
      · exact absurd hid (Choice.fresh_of_orderly ho e hold)
    · rcases exec_inserted hx hi' with hold' | ⟨event',hc,rfl,-,-⟩
      · exact absurd hid.symm (Choice.fresh_of_orderly ho e' hold')
      · cases hc
        rfl
  · have hold : ∀ {row}, s.events.find key = some row →
        ∃ e, Inserted s'.journal e ∧ e.origin = row.origin := fun hrow => by
      obtain ⟨e,hi,he⟩ := h.known key _ hrow
      exact ⟨e,hmono hi,he⟩
    cases exec_eventEffect hx with
    | quiet acts he _ _ =>
      rw [he] at hrow
      exact hold hrow
    | insert event now uuid hfree =>
      rw [State.find_insertEvent] at hrow
      split at hrow
      · cases hrow
        exact ⟨_,⟨i,by simp [State.insertEvent]⟩,rfl⟩
      · exact hold hrow
    | save event now =>
      rw [State.find_saveEvent] at hrow
      split at hrow
      · cases hrow
        obtain ⟨e,hi,he⟩ := ha
        exact ⟨e,hmono hi,he⟩
      · exact hold hrow
    | purge =>
      rw [State.find_purgeEvents] at hrow
      exact hold (Option.filter_eq_some_iff.mp hrow).1
    | retire cutoff date now picked hp =>
      rw [State.find_retireEvents] at hrow
      obtain ⟨row',hrow',rfl⟩ := Option.map_eq_some_iff.mp hrow
      obtain ⟨e,hi,he⟩ := hold hrow'
      refine ⟨e,hi,he.trans ?_⟩
      unfold Event.setReconciled
      split <;> rfl

/-- The row of an event that was inserted has its columns. -/
theorem Traced.origin (h : Traced s) {e row : Event} (hi : Inserted s.journal e)
    (hrow : s.events.find e.id = some row) : e.origin = row.origin := by
  obtain ⟨e',hi',he⟩ := h.known _ row hrow
  have hid : e'.id = e.id := by
    have hkey : row.id = e.id := Table.find_some_key hrow
    have hids : e'.origin.id = row.origin.id := by rw [he]
    exact hids.trans hkey
  rw [← h.unique e' e hi' hi hid]
  exact he

theorem Event.deletes_of_origin (id : String) {e row : Event} (h : e.origin = row.origin) :
    e.deletes id = row.deletes id ∧ e.createdAt = row.createdAt := by
  simp only [Event.origin,Event.mk.injEq] at h
  obtain ⟨-,hat,-,hs,hid,ht,-⟩ := h
  exact ⟨by simp [Event.deletes,hs,hid,ht],hat⟩

/-- The Delete events after a statement: one more, if it inserts one. -/
theorem deleteEvents_step (id : String) (h : exec i ch c s = some (r,s')) :
    deleteEvents id s'.journal = deleteEvents id s.journal ∨
    ∃ event, c = .createEvent event ∧ event.deletes id ∧ deleteEvents id s'.journal =
      deleteEvents id s.journal ++ [event.beforeCreate ch.now ch.uuid] ∧
      s'.events.find ch.uuid = some (event.beforeCreate ch.now ch.uuid) := by
  by_cases hc : ∃ event, c = .createEvent event
  · obtain ⟨event,rfl⟩ := hc
    rcases exec_cases h with ⟨-,-,-,rfl⟩ | ⟨-,hc⟩
    · exact Or.inl rfl
    · obtain ⟨hfree,-,rfl⟩ := commit_createEvent hc
      have hsame : (event.beforeCreate ch.now ch.uuid).deletes id = event.deletes id := rfl
      by_cases hd : event.deletes id
      · refine Or.inr ⟨event,rfl,hd,?_,Table.find_insert_self _ _ hfree⟩
        simp [deleteEvents,Entry.deleteEvent?,hsame,hd]
      · left
        simp [deleteEvents,Entry.deleteEvent?,hsame,hd]
  · left
    cases exec_eventEffect h with
    | quiet acts _ hj hq =>
      have hnil : deleteEvents id (acts.map (Entry.mk i)) = [] := by
        refine List.filterMap_eq_nil_iff.mpr fun e hm => ?_
        obtain ⟨a,ha,rfl⟩ := List.mem_map.mp hm
        have hq := hq a ha
        cases a <;> first | rfl | exact hq.elim
      rw [hj,deleteEvents_append,hnil,List.append_nil]
    | insert event => exact absurd ⟨event,rfl⟩ hc
    | save | purge | retire =>
      exact (deleteEvents_append _ _).trans (List.append_nil _)

/-- Events stay in the table until they are purged. -/
theorem find_step (h : exec i ch c s = some (r,s')) {key : String} {row : Event}
    (hrow : s.events.find key = some row) : (∃ row', s'.events.find key = some row') ∨
      c = .deleteReconciledEvents ∧ row.reconciledDate.isSome := by
  cases exec_eventEffect h with
  | quiet acts he _ _ => exact Or.inl ⟨row,by rw [he]; exact hrow⟩
  | insert event now uuid hfree =>
    rw [State.find_insertEvent]
    split
    · exact Or.inl ⟨_,rfl⟩
    · exact Or.inl ⟨row,hrow⟩
  | save event now =>
    rw [State.find_saveEvent]
    split
    · exact Or.inl ⟨_,rfl⟩
    · exact Or.inl ⟨row,hrow⟩
  | purge =>
    rw [State.find_purgeEvents]
    cases hrec : row.reconciledDate with
    | none => exact Or.inl ⟨row,by simp [hrow,hrec]⟩
    | some date => exact Or.inr ⟨rfl,rfl⟩
  | retire cutoff date now picked hp =>
    rw [State.find_retireEvents,hrow]
    exact Or.inl ⟨_,rfl⟩

theorem Throttled.step (ha : spacingRule interval id tasks i c x)
    (hx : patientPool interval id n i ch c x = some (r,x'))
    (h : Throttled interval id x) : Throttled interval id x' := by
  obtain ⟨hx,hpatient⟩ := patientPool_clocked hx
  obtain ⟨hx,hle,hclock⟩ := clockedPool_orderly hx
  have htraced := h.traced.step ha.1 hx
  obtain ⟨hx,ho⟩ := orderlyPool_exec hx
  have hmarked : x.state.Marked id → x'.state.Marked id := by
    refine (exec_rowEffect hx).marked ?_
    rintro id' rfl
    exact ha.1
  -- events of before
  have hold : ∀ e ∈ deleteEvents id x.state.journal, e.createdAt + interval ≤ x'.clock ∨
      ∃ row, x'.state.events.find e.id = some row := by
    intro e hm
    rcases h.young e hm with hle' | ⟨row,hrow⟩
    · exact Or.inl (hclock ▸ hle'.trans hle)
    · rcases find_step hx hrow with hrow' | ⟨rfl,hrec⟩
      · exact Or.inr hrow'
      · left
        obtain ⟨hi,hd⟩ := mem_deleteEvents.mp hm
        obtain ⟨hsame,hat⟩ := Event.deletes_of_origin id (h.traced.origin hi hrow)
        have hrow' := List.all_eq_true.mp hpatient row (Table.find_some_mem hrow)
        rw [← hsame,hd,hrec] at hrow'
        rw [hat,hclock]
        simpa using hrow'
  rcases deleteEvents_step id hx with hsame | ⟨event,rfl,hd,hnew,hfind⟩
  · refine ⟨htraced,by rw [hsame]; exact h.spaced,?_,by rw [hsame]; exact hold,?_⟩
    · intro e hm
      rw [hsame] at hm
      exact hclock ▸ (h.past e hm).trans hle
    · rw [hsame]
      exact fun hne => hmarked (h.marked hne)
  · have hfree := ha.2 event rfl hd
    have hmark := (ha.1 hd).2.2
    refine ⟨htraced,?_,?_,?_,fun _ => hmarked hmark⟩
    · rw [hnew,List.pairwise_append]
      refine ⟨h.spaced,List.pairwise_singleton _ _,fun e hm e' hm' => ?_⟩
      rw [List.mem_singleton.mp hm']
      exact (hfree e hm).trans hle
    · intro e hm
      rw [hnew] at hm
      rcases List.mem_append.mp hm with hm | hm
      · exact hclock ▸ (h.past e hm).trans hle
      · rw [List.mem_singleton.mp hm,hclock]
        exact le_refl ch.now
    · intro e hm
      rw [hnew] at hm
      rcases List.mem_append.mp hm with hm | hm
      · exact hold e hm
      · rw [List.mem_singleton.mp hm]
        exact Or.inr ⟨_,hfind⟩

end Step

/-- Calls that insert no Delete event of the resource, save nothing and keep its row. -/
def Call.unrelated (id : String) : Call → Prop
  | .deleteResource id' true => id' ≠ id
  | .createEvent e => ¬ e.deletes id
  | .saveEvent _ => False
  | _ => True

theorem Call.outside.unrelated {id : String} {c : Call} (h : c.outside id) : c.unrelated id := by
  cases c with
  | deleteResource id' unscoped => cases unscoped <;> exact h
  | createEvent e => exact fun hd => h (of_decide_eq_true hd).2.2 (of_decide_eq_true hd).2.1
  | saveEvent => exact h
  | _ => trivial

section Handling

variable {ext : External} {reg : Registry} {n : ℕ} {tasks : Fin n → EventTask} {i : Fin n}
    {id key : String}

theorem kept_traced : Kept (orderlyPool n) (throttleRule id tasks) Traced :=
  fun _ _ _ _ _ _ ha hx h => h.step ha hx

theorem safe_unrelated {α : Type} {p : M α} (hp : p.Calls Answers (Call.unrelated id) fun _ => True) :
    Safe (orderlyPool n) (throttleRule id tasks) i (fun _ => Traced) p Traced := by
  refine orderlyPool_executes.safe_rest kept_traced (fun c s hc _ => ?_) hp
  cases c with
  | deleteResource id' unscoped => cases unscoped <;> exact hc
  | createEvent e => exact fun hd => absurd hd hc
  | saveEvent => exact hc.elim
  | _ => trivial

/-- An event that has been read was inserted with these columns. -/
theorem kept_origin (e : Event) : Kept (orderlyPool n) (throttleRule id tasks) fun s =>
    Traced s ∧ ∃ e', Inserted s.journal e' ∧ e'.origin = e.origin :=
  kept_traced.and fun _ _ _ _ _ _ _ hx ⟨e',hi,he⟩ =>
    ⟨e',exec_inserted_mono (orderlyPool_exec hx).1 hi,he⟩

theorem safe_saveOrigin {e e' : Event} (he : e'.origin = e.origin) :
    Safe (orderlyPool n) (throttleRule id tasks) i (fun _ => Traced) (EventService.replace e')
      fun s => Traced s ∧ ∃ e', Inserted s.journal e' ∧ e'.origin = e.origin := by
  have hcalls : (EventService.replace e').Calls Answers
      (fun c => c = .saveEvent e' ∨ ∃ err, c = .markForRollback err) fun _ => True :=
    replace_calls (Or.inl rfl) fun err => Or.inr ⟨err,rfl⟩
  refine (orderlyPool_executes.safe_rest (kept_origin e) ?_ hcalls).weaken (fun _ h => h)
    fun _ _ h => h.1
  rintro c s (rfl | ⟨err,rfl⟩) hs
  · obtain ⟨e₀,hi,he₀⟩ := hs.2
    exact ⟨e₀,hi,he₀.trans he.symm⟩
  · trivial

/-- Registered handlers make no other calls. -/
theorem registered_calls (handlers : List ℕ) (sourceID : String) :
    (runHandlers sourceID (handlers.map handlerFunc)).Calls Answers
      (fun c => ∃ handler id, c = .handler handler id) fun _ => True := by
  refine runHandlers_calls fun fn hfn id => ?_
  obtain ⟨handler,-,rfl⟩ := List.mem_map.mp hfn
  exact .lift_bind ⟨handler,id,rfl⟩ fun _ _ => trivial

theorem safe_throttledEvent :
    Safe (orderlyPool n) (throttleRule id tasks) i (fun _ => Traced)
      (processEvent reg.controllers key) Traced := by
  refine orderlyPool_executes.safe_processEvent (kept_traced.stable i) (fun _ _ => trivial)
    (fun _ h => h) fun e s source fns hs hrow _ hsource hfns => ?_
  rw [reg.controllers_lookup] at hsource
  obtain ⟨types,-,rfl⟩ := Option.map_eq_some_iff.mp hsource
  rw [lookup_map] at hfns
  obtain ⟨handlers,-,rfl⟩ := Option.map_eq_some_iff.mp hfns
  refine ⟨_,_,(kept_origin e).stable i,⟨hs,hs.known key e hrow⟩,(kept_origin e).stable i,
    fun _ _ => trivial,(orderlyPool_executes.safe_rest (kept_origin e) ?_
      (registered_calls handlers e.sourceID)).weaken (fun _ h => h) fun _ _ h => ⟨h.1,fun _ => h⟩,
    fun now => safe_saveOrigin rfl⟩
  rintro c s ⟨handler,sourceID,rfl⟩ _
  trivial

theorem safe_throttledPredicate :
    Safe (orderlyPool n) (throttleRule id tasks) i (fun _ => Traced)
      (GRPCBroker.predicateEvent ext key) Traced :=
  orderlyPool_executes.safe_predicateEvent (kept_traced.stable i) (fun _ _ => trivial)
    (fun _ h => h) fun e _ hs hrow _ => ⟨_,kept_origin e,⟨hs,hs.known key e hrow⟩,
      fun _ hs => ⟨hs.1,trivial,trivial,fun _ => trivial⟩,
      fun _ => (safe_saveOrigin rfl).weaken (fun _ h => h.1) fun _ _ h => h⟩

end Handling

section Marking

variable {n : ℕ} {tasks : Fin n → EventTask} {i : Fin n} {ch : Choice} {c : Call} {r : c.Resp}
    {id : String} {interval : Time} {x x' : Clocked} {G : List Event → Time → Prop}

theorem kept_throttled : Kept (patientPool interval id n) (spacingRule interval id tasks)
    (Throttled interval id) := fun _ _ _ _ _ _ ha hx h => h.step ha hx

theorem patientPool_exec (h : patientPool interval id n i ch c x = some (r,x')) :
    exec i ch c x.state = some (r,x'.state) ∧ x.clock ≤ x'.clock := by
  obtain ⟨hx,hle,hclock⟩ := clockedPool_orderly (patientPool_clocked h).1
  exact ⟨(orderlyPool_exec hx).1,hclock ▸ hle⟩

theorem kept_rowMarked : Kept (patientPool interval id n) (spacingRule interval id tasks)
    fun x => x.state.Marked id := by
  intro j ch c x r x' ha hx hm
  refine (exec_rowEffect (patientPool_exec hx).1).marked ?_ hm
  rintro id' rfl
  exact ha.1

/-- Under the lock of the resource, where `G` is about its Delete events and the time. -/
def UnderLock (interval : Time) (id : String) (i : ℕ) (G : List Event → Time → Prop) (x : Clocked) :
    Prop :=
  Throttled interval id x ∧ x.state.HasLock i id .resources ∧
    G (deleteEvents id x.state.journal) x.clock

/-- Time passes. -/
def Lasting (G : List Event → Time → Prop) : Prop := ∀ D t t', t ≤ t' → G D t → G D t'

/-- The lock is kept by all calls but the session's own unlock. -/
theorem hasLock_step {j : Fin n} (hx : patientPool interval id n j ch c x = some (r,x'))
    (hc : j ≠ i ∨ ∀ uuid, c ≠ .unlock uuid) (h : x.state.HasLock i id .resources) :
    x'.state.HasLock i id .resources := by
  obtain ⟨hx,-,-⟩ := clockedPool_orderly (patientPool_clocked hx).1
  obtain ⟨hx,ho⟩ := orderlyPool_exec hx
  refine h.exec hx ?_
  rintro uuid rfl l hl hu
  have hj := hc.resolve_right fun hne => hne uuid rfl
  have hown := List.all_eq_true.mp ((Bool.and_eq_true _ _).mp ho).2 l hl
  rw [of_decide_eq_true hown hu]
  exact val_ne hj

theorem UnderLock.step {j : Fin n} (hG : Lasting G) (ha : spacingRule interval id tasks j c x)
    (hx : patientPool interval id n j ch c x = some (r,x'))
    (hc : j ≠ i ∨ (∀ uuid, c ≠ .unlock uuid) ∧ ∀ e, c ≠ .createEvent e)
    (h : UnderLock interval id i G x) : UnderLock interval id i G x' := by
  obtain ⟨ht,hl,hg⟩ := h
  obtain ⟨hexec,hle⟩ := patientPool_exec hx
  refine ⟨ht.step ha hx,hasLock_step hx (hc.imp_right And.left) hl,hG _ _ _ hle ?_⟩
  rcases deleteEvents_step id hexec with hsame | ⟨event,rfl,hd,-,-⟩
  · rw [hsame]
    exact hg
  · -- another session would need the lock as well
    have hj := hc.resolve_right fun hne => hne.2 event rfl
    exact absurd ((ha.1 hd).2.1.exclusive hl) (val_ne hj)

theorem stable_underLock (hG : Lasting G) : Stable (patientPool interval id n)
    (spacingRule interval id tasks) i (UnderLock interval id i G) :=
  fun _ hj _ _ _ _ _ ha hx h => h.step hG ha hx (Or.inl hj)

theorem spacingRule_of_unrelated (h : c.unrelated id) : spacingRule interval id tasks i c x := by
  refine ⟨?_,fun e he hd => ?_⟩
  · cases c with
    | deleteResource id' unscoped => cases unscoped <;> exact h
    | createEvent e => exact fun hd => absurd hd h
    | saveEvent => exact h.elim
    | _ => trivial
  · subst he
    exact absurd hd h

theorem safe_throttled {α : Type} {p : M α} (hp : p.Calls Answers (Call.unrelated id) fun _ => True) :
    Safe (patientPool interval id n) (spacingRule interval id tasks) i
      (fun _ => Throttled interval id) p (Throttled interval id) :=
  (Safe.of_calls (fun _ _ _ _ _ hx => exec_answers (patientPool_exec hx).1) kept_throttled
    (fun _ _ hc _ => spacingRule_of_unrelated hc) hp).weaken (fun _ h => h) fun _ _ h => h.1

/-- All Delete events of the resource are at least the interval old. -/
def Aged (interval : Time) (D : List Event) (t : Time) : Prop :=
  ∀ e ∈ D, e.createdAt + interval ≤ t

theorem Aged.lasting : Lasting (Aged interval) :=
  fun _ _ _ hle h e hm => (h e hm).trans hle

/-- The insertion of a Delete event whose time has come. -/
theorem safe_announceDelete (htask : ∃ interval, tasks i = .operation (.markAsDeleting interval id)) :
    Safe (patientPool interval id n) (spacingRule interval id tasks) i
      (fun _ => Throttled interval id)
      (ResourceService.announce (ResourceService.deleteEvent id) handleDeleteError ())
      fun x => UnderLock interval id i (Aged interval) x ∧ x.state.Marked id := by
  refine Safe.call fun x ⟨⟨ht,hl,hage⟩,hm⟩ => ?_
  have ha : spacingRule interval id tasks i (.createEvent (ResourceService.deleteEvent id)) x :=
    ⟨fun _ => ⟨htask,hl,hm⟩,fun _ _ _ => hage⟩
  refine ⟨ha,fun ch r x' hx => ⟨_,kept_throttled.stable i,ht.step ha hx,safe_throttled ?_⟩⟩
  cases r with
  | error err => exact ⟨trivial,fun _ _ => trivial⟩
  | ok e => exact ⟨trivial,fun r _ => by cases r <;> trivial⟩

theorem laterEvent_createdAt (a b : Event) :
    a.createdAt ≤ (laterEvent a b).createdAt ∧ b.createdAt ≤ (laterEvent a b).createdAt := by
  unfold laterEvent
  split
  · next h =>
    rcases h with h | ⟨h,-⟩
    · exact ⟨le_refl _,le_of_lt h⟩
    · exact ⟨le_refl _,le_of_eq h⟩
  · next h =>
    have hle : ¬ b.createdAt < a.createdAt := fun hlt => h (Or.inl hlt)
    exact ⟨not_lt.mp hle,le_refl _⟩

/-- The loop behind `FindLatestDeleteEvent`: none of the events that it saw is later. -/
theorem latest_fold (events : List Event) (acc : Option Event) :
    match events.foldl (fun latest e => some (match latest with | none => e | some l => laterEvent l e))
      acc with
    | none => acc = none ∧ events = []
    | some l => (∀ a ∈ acc, a.createdAt ≤ l.createdAt) ∧ ∀ e ∈ events, e.createdAt ≤ l.createdAt := by
  induction events generalizing acc with
  | nil => cases acc <;> simp
  | cons e events ih =>
    have hrest := ih (some (match acc with | none => e | some l => laterEvent l e))
    rw [List.foldl_cons]
    split at hrest
    · simp at hrest
    · next l hl =>
      obtain ⟨hacc,hevents⟩ := hrest
      have hfirst := hacc _ rfl
      cases acc with
      | none =>
        refine ⟨fun a ha => by simp at ha,fun e' hm => ?_⟩
        rcases List.mem_cons.mp hm with rfl | hm
        · exact hfirst
        · exact hevents e' hm
      | some a =>
        obtain ⟨hleft,hright⟩ := laterEvent_createdAt a e
        refine ⟨fun a' ha => ?_,fun e' hm => ?_⟩
        · cases ha
          exact hleft.trans hfirst
        · rcases List.mem_cons.mp hm with rfl | hm
          · exact hright.trans hfirst
          · exact hevents e' hm

theorem latestDeleteEvent_spec (id : String) (rows : List Event) :
    match latestDeleteEvent rows id with
    | none => ∀ e ∈ rows, ¬ e.deletes id
    | some l => ∀ e ∈ rows, e.deletes id → e.createdAt ≤ l.createdAt := by
  have hfold := latest_fold (rows.filter fun e => e.deletes id) none
  change match latestDeleteEvent rows id with
    | none => _
    | some l => _ at hfold
  split at hfold
  · exact List.filter_eq_nil_iff.mp hfold.2
  · exact fun e hm hd => hfold.2 e (List.mem_filter.mpr ⟨hm,hd⟩)

/-- What the latest Delete event in the table says about all that were inserted. -/
theorem Throttled.latest (h : Throttled interval id x) :
    match latestDeleteEvent x.state.events.rows id with
    | none => Aged interval (deleteEvents id x.state.journal) x.clock
    | some l => ∀ e ∈ deleteEvents id x.state.journal,
      e.createdAt + interval ≤ x.clock ∨ e.createdAt ≤ l.createdAt := by
  have hrow : ∀ e ∈ deleteEvents id x.state.journal, e.createdAt + interval ≤ x.clock ∨
      ∃ row ∈ x.state.events.rows, row.deletes id ∧ e.createdAt = row.createdAt := by
    intro e hm
    refine (h.young e hm).imp_right fun ⟨row,hrow⟩ => ⟨row,Table.find_some_mem hrow,?_⟩
    obtain ⟨hi,hd⟩ := mem_deleteEvents.mp hm
    obtain ⟨hsame,hat⟩ := Event.deletes_of_origin id (h.traced.origin hi hrow)
    exact ⟨hsame ▸ hd,hat⟩
  have hspec := latestDeleteEvent_spec id x.state.events.rows
  split at hspec
  · exact fun e hm => (hrow e hm).resolve_right fun ⟨row,hmem,hd,_⟩ => hspec row hmem hd
  · exact fun e hm => (hrow e hm).imp_right fun ⟨row,hmem,hd,hat⟩ => hat ▸ hspec row hmem hd

/-- A statement of the session itself under the lock. -/
theorem safe_underLock {α : Type} {Q : α → Clocked → Prop} {c : Call} {k : c.Resp → M α}
    {K : Clocked → Prop} (hG : Lasting G)
    (hK : Kept (patientPool interval id n) (spacingRule interval id tasks) K)
    (hu : c.unrelated id) (hc : ∀ uuid, c ≠ .unlock uuid) (hn : ∀ e, c ≠ .createEvent e)
    (hk : ∀ ch r x x', patientPool interval id n i ch c x = some (r,x') →
      UnderLock interval id i G x → K x → UnderLock interval id i G x' → K x' →
      ∃ P', Stable (patientPool interval id n) (spacingRule interval id tasks) i P' ∧ P' x' ∧
        Safe (patientPool interval id n) (spacingRule interval id tasks) i Q (k r) P') :
    Safe (patientPool interval id n) (spacingRule interval id tasks) i Q (.call c k)
      fun x => UnderLock interval id i G x ∧ K x := by
  intro x ⟨hl,hx⟩
  have ha : spacingRule interval id tasks i c x := spacingRule_of_unrelated hu
  exact ⟨ha,fun ch r x' hstep => hk ch r x x' hstep hl hx (hl.step hG ha hstep (Or.inr ⟨hc,hn⟩))
    (hK i ch c x r x' ha hstep hx)⟩

theorem kept_row : Kept (patientPool interval id n) (spacingRule interval id tasks)
    fun x => ∃ row, x.state.resources.find id = some row := by
  intro j ch c x r x' ha hx hrow
  refine (exec_rowEffect (patientPool_exec hx).1).present ?_ hrow
  rintro id' rfl
  exact ha.1

/-- A marked resource: a Delete event only if the latest one is old enough. -/
theorem safe_republish (htask : ∃ interval, tasks i = .operation (.markAsDeleting interval id)) :
    Safe (patientPool interval id n) (spacingRule interval id tasks) i
      (fun _ => Throttled interval id) (ResourceService.republishDeleteEvent interval id)
      fun x => UnderLock interval id i (fun _ _ => True) x ∧ x.state.Marked id := by
  have hret : ∀ (a : Except ServiceError Unit) (G : List Event → Time → Prop),
      Safe (patientPool interval id n) (spacingRule interval id tasks) i
        (fun _ => Throttled interval id) (.ret a : M _)
        fun x => UnderLock interval id i G x ∧ x.state.Marked id :=
    fun _ _ => Safe.ret fun _ h => h.1.1
  have hstable : ∀ {G}, Lasting G → Stable (patientPool interval id n) (spacingRule interval id tasks) i
      fun x => UnderLock interval id i G x ∧ x.state.Marked id :=
    fun hG => (stable_underLock hG).and (kept_rowMarked.stable i)
  unfold ResourceService.republishDeleteEvent
  split
  · exact hret _ _
  refine safe_underLock (c := .findLatestDeleteEvent id) (fun _ _ _ _ _ => trivial) kept_rowMarked
    trivial (fun _ => Call.noConfusion) (fun _ => Call.noConfusion)
    fun ch r x x' hx hlock _ hlock' hm' => ?_
  obtain ⟨hstep,hle,-⟩ := clockedPool_orderly (patientPool_clocked hx).1
  obtain ⟨hstep,ho⟩ := orderlyPool_exec hstep
  rcases exec_cases hstep with ⟨err,hf,he,-⟩ | ⟨-,hcommit⟩
  · -- the error is logged only
    cases he
    refine ⟨_,hstable fun _ _ _ _ _ => trivial,⟨hlock',hm'⟩,?_⟩
    cases err with
    | recordNotFound => exact absurd hf (of_decide_eq_true ((Bool.and_eq_true _ _).mp ho).1)
    | other text => exact hret _ _
  · have hlatest := hlock.1.latest
    simp only [commit,Option.some.injEq,Prod.mk.injEq] at hcommit
    obtain ⟨rfl,hstate⟩ := hcommit
    have hle : x.clock ≤ x'.clock := (patientPool_exec hx).2
    cases hl : latestDeleteEvent x.state.events.rows id with
    | none =>
      rw [hl] at hlatest
      refine ⟨_,hstable Aged.lasting,⟨⟨hlock'.1,hlock'.2.1,?_⟩,hm'⟩,safe_announceDelete htask⟩
      rw [← hstate]
      exact Aged.lasting _ _ _ hle hlatest
    | some l =>
      rw [hl] at hlatest
      have hlast : Lasting fun D t => ∀ e ∈ D, e.createdAt + interval ≤ t ∨ e.createdAt ≤ l.createdAt :=
        fun _ _ _ hle h e hm => (h e hm).imp_left fun ht => ht.trans hle
      refine ⟨_,hstable hlast,⟨⟨hlock'.1,hlock'.2.1,?_⟩,hm'⟩,?_⟩
      · rw [← hstate]
        exact hlast _ _ _ hle hlatest
      refine safe_underLock (c := .now) hlast kept_rowMarked trivial (fun _ => Call.noConfusion)
        (fun _ => Call.noConfusion) fun ch now y y' hy _ _ hlock₁ hm₁ => ?_
      obtain ⟨hnow,-,hclock⟩ := clockedPool_orderly (patientPool_clocked hy).1
      have hnow := (orderlyPool_exec hnow).1
      rw [exec_now] at hnow
      simp only [Option.some.injEq,Prod.mk.injEq] at hnow
      obtain ⟨rfl,-⟩ := hnow
      by_cases hrecent : ch.now - l.createdAt < interval
      · refine ⟨_,hstable hlast,⟨hlock₁,hm₁⟩,?_⟩
        change Safe _ _ i _ (if decide (ch.now - l.createdAt < interval) = true then _ else _) _
        rw [if_pos (decide_eq_true hrecent)]
        exact hret _ _
      · -- the latest event is old enough, and so are the others
        have haged : Aged interval (deleteEvents id y'.state.journal) y'.clock := by
          intro e hm
          rcases hlock₁.2.2 e hm with hage | hbefore
          · exact hage
          · rw [hclock]
            exact (Int.add_le_add_right hbefore interval).trans
              (Int.add_le_of_le_sub_left (not_lt.mp hrecent))
        refine ⟨_,hstable Aged.lasting,⟨⟨hlock₁.1,hlock₁.2.1,haged⟩,hm₁⟩,?_⟩
        change Safe _ _ i _ (if decide (ch.now - l.createdAt < interval) = true then _ else _) _
        rw [if_neg (by simpa using hrecent)]
        exact safe_announceDelete htask

/-- The first mark: there is no Delete event yet. -/
theorem safe_firstMark :
    Safe (patientPool interval id n) (spacingRule interval id tasks) i
      (fun r x => Throttled interval id x ∧
        (r = .ok () → UnderLock interval id i (Aged interval) x ∧ x.state.Marked id))
      (ResourceDao.delete id false)
      fun x => UnderLock interval id i (fun D _ => D = []) x ∧
        ∃ row, x.state.resources.find id = some row := by
  have hnone : Lasting fun D _ => D = [] := fun _ _ _ _ h => h
  have herr : ∀ err, Safe (patientPool interval id n) (spacingRule interval id tasks) i
      (fun r x => Throttled interval id x ∧
        (r = .ok () → UnderLock interval id i (Aged interval) x ∧ x.state.Marked id))
      (markForRollback err >>= fun _ => (pure (.error err) : M (Except DbErr Unit)))
      (Throttled interval id) := by
    intro err
    have hmark : (markForRollback err).Calls Answers (Call.unrelated id) fun _ => True :=
      ⟨trivial,fun _ _ => trivial⟩
    exact (safe_throttled hmark).bind fun _ => Safe.ret fun x hx => ⟨hx,fun he => by cases he⟩
  refine safe_underLock (c := .deleteResource id false) hnone kept_row trivial
    (fun _ => Call.noConfusion) (fun _ => Call.noConfusion)
    fun ch r x x' hx _ hrow hlock' hrow' => ?_
  have hdone : x'.state.Marked id → ∃ P', Stable (patientPool interval id n)
      (spacingRule interval id tasks) i P' ∧ P' x' ∧
      Safe (patientPool interval id n) (spacingRule interval id tasks) i
        (fun r x => Throttled interval id x ∧
          (r = .ok () → UnderLock interval id i (Aged interval) x ∧ x.state.Marked id))
        (.ret (.ok ()) : M (Except DbErr Unit)) P' := by
    refine fun hm => ⟨_,(stable_underLock Aged.lasting).and (kept_rowMarked.stable i),
      ⟨⟨hlock'.1,hlock'.2.1,?_⟩,hm⟩,Safe.ret fun x hx => ⟨hx.1.1,fun _ => hx⟩⟩
    rw [hlock'.2.2]
    exact fun e he => by cases he
  obtain ⟨hstep,-⟩ := patientPool_exec hx
  rcases exec_cases hstep with ⟨err,-,he,-⟩ | ⟨-,hc⟩
  · cases he
    exact ⟨_,kept_throttled.stable i,hlock'.1,herr err⟩
  · rcases commit_softDelete hc with ⟨-,rfl,-⟩ | ⟨-,rfl,⟨row,hfind,-,hs'⟩ | ⟨hm,hs'⟩⟩
    · exact ⟨_,kept_throttled.stable i,hlock'.1,herr _⟩
    · refine hdone ⟨row.setDeletedAt ch.now,?_,by simp [ResourceRow.setDeletedAt]⟩
      rw [hs',State.find_softDelete,if_pos rfl,hfind]
      rfl
    · obtain ⟨row,hfind⟩ := hrow'
      exact hdone ⟨row,hfind,hm row (hs' ▸ hfind)⟩

theorem safe_throttledMark (htask : ∃ interval, tasks i = .operation (.markAsDeleting interval id)) :
    Safe (patientPool interval id n) (spacingRule interval id tasks) i
      (fun _ => Throttled interval id) (ResourceService.markAsDeleting interval id)
      (Throttled interval id) := by
  have hkept : Kept (patientPool interval id n) (spacingRule interval id tasks)
    (Throttled interval id) := kept_throttled
  have hn : ∀ c : Call, c.neutral → c.unrelated id := fun c hc => by cases c <;> trivial
  refine Safe.call fun x hx => ?_
  have ha : spacingRule interval id tasks i (.newAdvisoryLock id .resources) x :=
    spacingRule_of_unrelated trivial
  refine ⟨ha,fun ch r x' hstep => ?_⟩
  have hx' := hx.step ha hstep
  obtain ⟨owner,lockErr⟩ := r
  have hunlock : ∀ a : Except ServiceError Unit, (unlock owner >>= fun _ => (pure a : M _)).Calls
      Answers (Call.unrelated id) fun _ => True :=
    fun a => (unlock_calls hn owner).bind fun _ _ => trivial
  cases lockErr with
  | some err =>
    refine ⟨_,hkept.stable i,hx',?_⟩
    change Safe _ _ i _ (Prog.deferring (unlock owner) _) _
    exact Safe.bind (Q := fun _ => Throttled interval id) (Safe.ret fun _ h => h)
      fun a => safe_throttled (hunlock a)
  | none =>
    have hlock : UnderLock interval id i (fun _ _ => True) x' := by
      refine ⟨hx',?_,trivial⟩
      rcases exec_cases (patientPool_exec hstep).1 with ⟨err,-,he,-⟩ | ⟨-,hc⟩
      · cases he
      · obtain ⟨locks,hl,he⟩ := Option.map_eq_some_iff.mp hc
        simp only [Prod.mk.injEq] at he
        refine ⟨ch.uuid,?_⟩
        rw [← he.2]
        exact (LockTable.mem_acquire hl).mpr (Or.inl rfl)
    refine ⟨_,stable_underLock fun _ _ _ _ _ => trivial,hlock,?_⟩
    change Safe _ _ i _ (Prog.deferring (unlock owner) _) _
    refine Safe.bind (Q := fun _ => Throttled interval id) ?_ fun a => safe_throttled (hunlock a)
    have htrue : Kept (patientPool interval id n) (spacingRule interval id tasks) fun _ => True :=
      fun _ _ _ _ _ _ _ _ _ => trivial
    refine Safe.weaken (safe_underLock (c := .takeResource id) (fun _ _ _ _ _ => trivial) htrue
      trivial (fun _ => Call.noConfusion) (fun _ => Call.noConfusion)
      fun ch r x x' hstep hl _ hl' _ => ?_) (fun x hx => ⟨hx,trivial⟩) fun _ _ h => h
    obtain ⟨hexec,-⟩ := patientPool_exec hstep
    rcases exec_cases hexec with ⟨err,-,he,-⟩ | ⟨-,hc⟩
    · cases he
      refine ⟨_,hkept.stable i,hl'.1,?_⟩
      change Safe _ _ i _ (if (handleGetError "Resource" "id" id err).is404 then _ else _) _
      split <;> exact Safe.ret fun _ h => h
    · obtain ⟨hs',⟨-,rfl⟩ | ⟨row,hrow,rfl⟩⟩ := commit_takeResource hc
      · exact ⟨_,hkept.stable i,hl'.1,Safe.ret fun _ h => h⟩
      · have hrow' : x'.state.resources.find id = some row := by
          rw [hs']
          exact hrow
        by_cases hd : row.deletedAt = none
        · -- a row without a mark has no Delete event
          have hempty : deleteEvents id x'.state.journal = [] := by
            by_contra hne
            obtain ⟨row',hfind,hmark⟩ := hl'.1.marked hne
            cases hrow'.symm.trans hfind
            exact hmark hd
          refine ⟨_,(stable_underLock (G := fun D _ => D = []) fun _ _ _ _ h => h).and
            (kept_row.stable i),⟨⟨hl'.1,hl'.2.1,hempty⟩,row,hrow'⟩,?_⟩
          change Safe _ _ i _ (if row.deletedAt.isSome then _ else _) _
          rw [if_neg (by simp [hd])]
          refine Safe.bind safe_firstMark fun r => ?_
          cases r with
          | error err => exact Safe.ret fun _ h => h.1
          | ok u =>
            exact (safe_announceDelete htask).weaken (fun x hx => hx.2 rfl) fun _ _ h => h
        · refine ⟨_,(stable_underLock fun _ _ _ _ _ => trivial).and (kept_rowMarked.stable i),
            ⟨hl',row,hrow',hd⟩,?_⟩
          change Safe _ _ i _ (if row.deletedAt.isSome then _ else _) _
          rw [if_pos (Option.isSome_iff_ne_none.mpr hd)]
          exact safe_republish htask

end Marking

/-- No hard delete of the resource, and one republish interval for all its deletions. -/
def EventTask.throttles (interval : Time) (id : String) : EventTask → Prop
  | .operation op => op ≠ .delete id ∧ ∀ interval', op = .markAsDeleting interval' id →
    interval' = interval
  | _ => True

def throttleStart (ext : External) (reg : Registry) {n : ℕ} (tasks : Fin n → EventTask) (s₀ : State)
    (t₀ : Time) : Config (Fin n) Clocked Call Call.Resp Unit :=
  ⟨⟨s₀,t₀⟩,fun i => (tasks i).run ext reg⟩

section Runs

variable {ext : External} {reg : Registry} {n : ℕ} {tasks : Fin n → EventTask} {id : String}
    {interval t₀ : Time} {s₀ : State}

theorem State.Eventless.throttled (h : s₀.Eventless) : Throttled interval id ⟨s₀,t₀⟩ := by
  obtain ⟨hj,he⟩ := h
  have hD : deleteEvents id s₀.journal = [] := by rw [hj]; rfl
  refine ⟨⟨?_,?_⟩,by simp [hD],by simp [hD],by simp [hD],by simp [hD]⟩
  · rintro e e' ⟨t,hm⟩
    simp [hj] at hm
  · intro key row hrow
    simp [he] at hrow

/-- An outline of a session that inserts no Delete event of the resource. -/
theorem safe_lifted {i : Fin n} {p : M Unit}
    (hne : ∀ interval, tasks i ≠ .operation (.markAsDeleting interval id))
    (h : Safe (orderlyPool n) (throttleRule id tasks) i (fun _ => Traced) p Traced) :
    Safe (patientPool interval id n) (spacingRule interval id tasks) i (fun _ _ => True) p
      fun x => Traced x.state := by
  have hexec : ∀ j ch c x r x', patientPool interval id n j ch c x = some (r,x') →
      orderlyPool n j ch c x.state = some (r,x'.state) :=
    fun _ _ _ _ _ _ hx => (clockedPool_orderly (patientPool_clocked hx).1).1
  have hdown : ∀ j c x, spacingRule interval id tasks j c x → throttleRule id tasks j c x.state :=
    fun _ _ _ ha => ha.1
  have hup : ∀ c (x : Clocked), throttleRule id tasks i c x.state →
      spacingRule interval id tasks i c x := by
    refine fun c x ha => ⟨ha,fun e he hd => ?_⟩
    subst he
    obtain ⟨⟨interval',htask⟩,-⟩ := ha hd
    exact absurd htask (hne interval')
  exact (Safe.lift hexec hdown hup h).weaken (fun _ h => h) fun _ _ _ => trivial

theorem throttleStart_verified (htasks : ∀ i, (tasks i).throttles interval id)
    (h₀ : s₀.Eventless) :
    Verified (patientPool interval id n) (spacingRule interval id tasks) (fun _ _ _ => True)
      (throttleStart ext reg tasks s₀ t₀) := by
  intro i
  have hthrottle := htasks i
  have hstart : Throttled interval id (throttleStart ext reg tasks s₀ t₀).shared := h₀.throttled
  -- handlers, filters, purges and retirements never insert a Delete event
  have hlift : ∀ {p : M Unit}, (∀ op, tasks i ≠ .operation op) →
      Safe (orderlyPool n) (throttleRule id tasks) i (fun _ => Traced) p Traced →
      ∃ P, Stable (patientPool interval id n) (spacingRule interval id tasks) i P ∧
        P (throttleStart ext reg tasks s₀ t₀).shared ∧ Safe (patientPool interval id n)
          (spacingRule interval id tasks) i (fun _ _ => True) p P := by
    intro p hne hp
    refine ⟨fun x => Traced x.state,fun j _ ch c x r x' ha hx h => ?_,hstart.traced,
      safe_lifted (fun _ => hne _) hp⟩
    exact h.step ha.1 (clockedPool_orderly (patientPool_clocked hx).1).1
  change ∃ P, _ ∧ _ ∧ Safe _ _ i _ ((tasks i).run ext reg) P
  cases htask : tasks i with
  | operation op =>
    rw [htask] at hthrottle
    refine ⟨_,kept_throttled.stable i,hstart,Safe.map (Q := fun _ => Throttled interval id) ?_
      fun _ _ _ => trivial⟩
    by_cases hm : ∃ interval', op = .markAsDeleting interval' id
    · obtain ⟨interval',rfl⟩ := hm
      cases hthrottle.2 interval' rfl
      exact Safe.map (safe_throttledMark ⟨interval,htask⟩) fun _ _ h => h
    · exact safe_throttled ((op.run_outside ext hthrottle.1 fun interval' he =>
        hm ⟨interval',he⟩).mono (fun _ h => h.unrelated) fun _ h => h)
  | lockBased key =>
    refine hlift (by simp [htask]) (Safe.map (orderlyPool_executes.safe_handleEvent kept_traced
      (fun _ _ _ => trivial) (safe_unrelated ?_) safe_throttledEvent) fun _ _ h => h)
    exact (filter_calls (lockBased_make (fun _ => trivial) fun _ => trivial) key).mono
      (fun _ h => h) fun _ _ => trivial
  | predicated key =>
    exact hlift (by simp [htask]) (Safe.map (orderlyPool_executes.safe_handleEvent kept_traced
      (fun _ _ _ => trivial) (Safe.bind safe_throttledPredicate fun _ => Safe.ret fun _ h => h)
      safe_throttledEvent) fun _ _ h => h)
  | sync queue =>
    exact hlift (by simp [htask]) (safe_unrelated (syncEvents_calls (fun _ => trivial) trivial
      trivial fun _ => trivial))
  | retire threshold =>
    exact hlift (by simp [htask]) (safe_unrelated (staleDeleteDetectorRun_calls trivial
      (fun _ => trivial) trivial (fun _ => trivial) fun _ _ => trivial))

end Runs

/-- Any two Delete events of one incarnation of a resource are at least the republish interval
apart, if no purge removes one of them that is younger. -/
theorem delete_events_spaced (ext : External) (reg : Registry) {n : ℕ} {tasks : Fin n → EventTask}
    {interval : Time} {id : String} (htasks : ∀ i, (tasks i).throttles interval id) {s₀ : State}
    (h₀ : s₀.Eventless) {t₀ : Time} {cfg : Config (Fin n) Clocked Call Call.Resp Unit}
    (hr : Reach (patientPool interval id n) (throttleStart ext reg tasks s₀ t₀) cfg) :
    (deleteEvents id cfg.shared.state.journal).Pairwise
      fun e e' => e.createdAt + interval ≤ e'.createdAt :=
  ((throttleStart_verified htasks h₀).invariant kept_throttled hr h₀.throttled).spaced

/-- Two deletions of a resource. -/
def repeatedTasks (interval : Time) (_ : Fin 2) : EventTask :=
  .operation (.markAsDeleting interval "web")

def repeatedStart (interval : Time) : Config (Fin 2) Clocked Call Call.Resp Unit :=
  throttleStart Reference.packages [] (repeatedTasks interval) (.single Reference.webRow) 0

/-- The second deletion publishes again, when the interval is over. -/
theorem delete_events_spaced_twice : ∃ cfg : Config (Fin 2) Clocked Call Call.Resp Unit,
    Reach (patientPool 5 "web" 2) (repeatedStart 5) cfg ∧ ∃ e e',
      deleteEvents "web" cfg.shared.state.journal = [e,e'] ∧ e.createdAt + 5 ≤ e'.createdAt := by
  have h : (follow (patientPool 5 "web" 2) (turns [0,0,0,0,0,0,1,1,1,1,1,1,1])
      (repeatedStart 5)).any fun cfg =>
      decide ((deleteEvents "web" cfg.shared.state.journal).length = 2) := by
    decide +kernel
  obtain ⟨cfg,hr,h⟩ := (Option.any_eq_true _ _).mp h
  obtain ⟨e,e',hD⟩ := List.length_eq_two.mp (of_decide_eq_true h)
  have htasks : ∀ i, (repeatedTasks 5 i).throttles 5 "web" :=
    fun _ => ⟨(fun he => by cases he),(fun _ he => by cases he; rfl)⟩
  have hstart : (State.single Reference.webRow).Eventless := ⟨rfl,rfl⟩
  have hspaced := delete_events_spaced Reference.packages [] htasks hstart (.of_follow _ hr)
  rw [hD] at hspaced
  exact ⟨cfg,.of_follow _ hr,e,e',hD,(List.pairwise_cons.mp hspaced).1 e' (by simp)⟩

/-- A deletion, an instance that handles its event, a purge and another deletion. -/
def purgedTasks : Fin 4 → EventTask
  | 0 => .operation (.markAsDeleting 100 "web")
  | 1 => .lockBased "uuid-3"
  | 2 => .sync 0
  | 3 => .operation (.markAsDeleting 100 "web")

def purgedStart : Config (Fin 4) Clocked Call Call.Resp Unit :=
  throttleStart Reference.packages [("Resources",[(.delete,[0])])] purgedTasks
    (.single Reference.webRow) 0

/-- Two delete events that are less than the time apart. -/
def closePair (interval : Time) : List Event → Bool
  | [e,e'] => decide (e'.createdAt < e.createdAt + interval)
  | _ => false

theorem exists_of_closePair {interval : Time} {events : List Event}
    (h : closePair interval events = true) :
    ∃ e e', events = [e,e'] ∧ e'.createdAt < e.createdAt + interval := by
  unfold closePair at h
  split at h
  · next e e' => exact ⟨e,e',rfl,of_decide_eq_true h⟩
  · cases h

/-- The purge takes the event that the throttle looks for: the second deletion publishes at once. -/
theorem delete_republished_early : ∃ cfg : Config (Fin 4) Clocked Call Call.Resp Unit,
    Reach (clockedPool 4) purgedStart cfg ∧ ∃ e e',
      deleteEvents "web" cfg.shared.state.journal = [e,e'] ∧ e'.createdAt < e.createdAt + 100 := by
  have h : (follow (clockedPool 4) (turns [0,0,0,0,0,0,1,1,1,1,1,1,2,2,3,3,3,3,3,3])
      purgedStart).any fun cfg =>
      closePair 100 (deleteEvents "web" cfg.shared.state.journal) := by
    decide +kernel
  obtain ⟨cfg,hr,h⟩ := (Option.any_eq_true _ _).mp h
  exact ⟨cfg,.of_follow _ hr,exists_of_closePair h⟩

end Maestro
