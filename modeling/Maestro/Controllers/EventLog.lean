import Maestro.Api.Reference
import Maestro.Controllers.Sessions
import Maestro.Db.EventEffects
import Maestro.Server.History

/-!
# The fate of spec events

Any number of instances that handle, filter, purge, list and retire events while
resource operations insert them. Statements may fail; handlers may fail. An event
stays in the table as it was inserted until something marks it as reconciled, and the
journal says what did.
-/

namespace Maestro
open Concurrent Data

/-- The handlers that are registered, by number. -/
abbrev Registry := List (String × List (EventType × List ℕ))

/-- A handler whose outcome the environment decides. -/
def handlerFunc (handler : ℕ) : ControllerHandlerFunc := fun id => do
  let result ← perform (.handler handler id)
  return publishErr result

namespace Registry

def controllers (reg : Registry) : Controllers :=
  reg.map fun p => (p.1,p.2.map fun q => (q.1,q.2.map handlerFunc))

def handlers (reg : Registry) (source : String) (eventType : EventType) : Option (List ℕ) :=
  (reg.lookup source).bind fun types => types.lookup eventType

theorem controllers_lookup (reg : Registry) (source : String) :
    reg.controllers.lookup source =
      (reg.lookup source).map fun types => types.map fun q => (q.1,q.2.map handlerFunc) :=
  lookup_map _ _ _

end Registry

/-- Work on events, and the operations that insert them. -/
inductive EventTask
  | operation (op : Op)
  | lockBased (key : String)
  | predicated (key : String)
  | sync (queue : ℕ)
  | retire (threshold : Time)

namespace EventTask

def run (ext : External) (reg : Registry) : EventTask → M Unit
  | .operation op => (fun _ => ()) <$> op.run ext
  | .lockBased key => (fun _ => ()) <$> handleEvent reg.controllers (.lockBased []) key
  | .predicated key =>
    (fun _ => ()) <$> handleEvent reg.controllers (.predicated (GRPCBroker.predicateEvent ext)) key
  | .sync queue => syncEvents queue
  | .retire threshold => staleDeleteDetectorRun threshold

/-- The task is a `handleEvent` call on the key. -/
def handles (key : String) : EventTask → Prop
  | .lockBased key' => key' = key
  | .predicated key' => key' = key
  | _ => False

end EventTask

section Fate

variable {n : ℕ} (reg : Registry) (tasks : Fin n → EventTask)

/-- The acts of one session. -/
def actsOf (t : ℕ) (J : List Entry) : List Act :=
  (J.filter fun e => e.session = t).map Entry.act

def Inserted (J : List Entry) (e : Event) : Prop := ∃ t, (⟨t,.insertedEvent e⟩ : Entry) ∈ J

/-- Every handler of the list ran and succeeded, in this order. -/
def handledAll (handlers : List ℕ) (sourceID : String) : List Act :=
  handlers.map fun handler => .handled handler sourceID true

/-- Why the event may be taken as reconciled by a session that did `acts`: all its handlers
succeeded, or `PredicateEvent` found no resource. -/
def Settles (i : Fin n) (acts : List Act) (e : Event) : Prop :=
  ((tasks i).handles e.id ∧ ∃ handlers, reg.handlers e.source e.eventType = some handlers ∧
    handledAll handlers e.sourceID <:+ acts) ∨
  tasks i = .predicated e.id ∧ [.readResource e.sourceID none] <:+ acts

/-- An entry, after `pre`, that marks the event as reconciled. -/
inductive MarksEvent (pre : List Entry) (e : Event) : Entry → Prop
  | saved {i : Fin n} {row : Event} (hid : row.id = e.id) (hr : row.reconciledDate.isSome)
      (h : Settles reg tasks i (actsOf i pre) e) : MarksEvent pre e ⟨i,.savedEvent row⟩
  | retired {t : ℕ} {picked : List Event} (hm : e ∈ picked) (ht : e.eventType = .delete) :
      MarksEvent pre e ⟨t,.retiredEvents picked⟩

def EventMarked (J : List Entry) (e : Event) : Prop :=
  ∃ pre entry post, J = pre ++ entry :: post ∧ MarksEvent reg tasks pre e entry

/-- The table is what the journal says. -/
structure EventLog (s : State) : Prop where
  unique : ∀ e e', Inserted s.journal e → Inserted s.journal e' → e.id = e'.id → e = e'
  /-- An event is as it was inserted, or it was marked. -/
  fate : ∀ e, Inserted s.journal e →
    (s.events.find e.id = some e ∧ e.reconciledDate = none) ∨
    EventMarked reg tasks s.journal e ∧
      ∀ row, s.events.find e.id = some row → row.reconciledDate.isSome
  known : ∀ id row, s.events.find id = some row →
    ∃ e, Inserted s.journal e ∧ e.id = id ∧ (row.reconciledDate = none → e = row)
  /-- Only marked events were purged. -/
  purged : ∀ pre t rows post, s.journal = pre ++ ⟨t,.purgedEvents rows⟩ :: post → ∀ row ∈ rows,
    ∃ e, Inserted pre e ∧ e.id = row.id ∧ EventMarked reg tasks pre e
  /-- A list has all events that were not marked. -/
  listed : ∀ pre t rows post, s.journal = pre ++ ⟨t,.listedEvents rows⟩ :: post → ∀ e,
    Inserted pre e → e ∈ rows ∨ EventMarked reg tasks pre e

end Fate

/-- The database does not invent a missing row, and UUIDs of events are new. -/
def Choice.honest (ch : Choice) (s : State) : Call → Bool
  | .createEvent event => decide (ch.fault (.createEvent event) ≠ some .recordNotFound) &&
    s.journal.all fun e => match e.act with
      | .insertedEvent e => decide (e.id ≠ ch.uuid)
      | _ => true
  | c => decide (ch.fault c ≠ some .recordNotFound)

/-- The statements of a pool, which may fail. -/
def eventPool (n : ℕ) (i : Fin n) (ch : Choice) (c : Call) (s : State) :
    Option (c.Resp × State) :=
  if ch.honest s c then exec i ch c s else none

/-- What session `i` may do to the events: what it inserts is not reconciled, what it saves is
an event that it has settled. -/
def eventRule (reg : Registry) {n : ℕ} (tasks : Fin n → EventTask) (i : Fin n) (c : Call)
    (s : State) : Prop :=
  match c with
  | .createEvent event => event.reconciledDate = none
  | .saveEvent row => ∃ e, Inserted s.journal e ∧ row.id = e.id ∧ row.reconciledDate.isSome ∧
    Settles reg tasks i (s.acts i) e
  | _ => True

section Step

variable {reg : Registry} {n : ℕ} {tasks : Fin n → EventTask} {J : List Entry} {e : Event}
    {i : Fin n} {ch : Choice} {c : Call} {r : c.Resp} {s s' : State}

theorem eventPool_exec (h : eventPool n i ch c s = some (r,s')) :
    exec i ch c s = some (r,s') ∧ ch.fault c ≠ some .recordNotFound ∧
      ∀ event, c = .createEvent event → ∀ e, Inserted s.journal e → e.id ≠ ch.uuid := by
  unfold eventPool at h
  split at h
  · next hh =>
    refine ⟨h,?_,?_⟩
    · cases c <;> simp only [Choice.honest,Bool.and_eq_true,decide_eq_true_eq] at hh <;>
        first | exact hh | exact hh.1
    · rintro event rfl e ⟨t,hm⟩
      simp only [Choice.honest,Bool.and_eq_true,List.all_eq_true] at hh
      exact of_decide_eq_true (hh.2 _ hm)
  · cases h

theorem Inserted.append {K : List Entry} (h : Inserted J e) : Inserted (J ++ K) e :=
  h.imp fun _ hm => List.mem_append_left _ hm

theorem EventMarked.append {K : List Entry} (h : EventMarked reg tasks J e) :
    EventMarked reg tasks (J ++ K) e := by
  obtain ⟨pre,entry,post,rfl,hm⟩ := h
  exact ⟨pre,entry,post ++ K,by simp,hm⟩

theorem MarksEvent.marked {entry : Entry} (h : MarksEvent reg tasks J e entry) :
    EventMarked reg tasks (J ++ [entry]) e :=
  ⟨J,entry,[],rfl,h⟩

/-- Entries that insert no event. -/
theorem Inserted.of_append {K : List Entry} (h : Inserted (J ++ K) e)
    (hK : ∀ t e, (⟨t,.insertedEvent e⟩ : Entry) ∉ K) : Inserted J e := by
  obtain ⟨t,hm⟩ := h
  rcases List.mem_append.mp hm with hm | hm
  · exact ⟨t,hm⟩
  · exact absurd hm (hK t e)

/-- One entry that is none of these marks nothing and inserts nothing. -/
theorem EventLog.quiet (h : EventLog reg tasks s) {acts : List Act} {t : ℕ}
    (he : s'.events = s.events) (hj : s'.journal = s.journal ++ acts.map (Entry.mk t))
    (hq : ∀ a ∈ acts, a.eventless) (hb : ∀ a ∈ acts, a.recordedBy s c ∨ ¬ a.quiet) :
    EventLog reg tasks s' := by
  have hins : ∀ mid post, acts.map (Entry.mk t) = mid ++ post →
      ∀ e, Inserted (s.journal ++ mid) e → Inserted s.journal e := by
    intro mid post hsplit e hi
    refine hi.of_append fun u e' hm => ?_
    have hmem : (⟨u,.insertedEvent e'⟩ : Entry) ∈ acts.map (Entry.mk t) := by
      rw [hsplit]
      exact List.mem_append_left _ hm
    obtain ⟨a,ha,hea⟩ := List.mem_map.mp hmem
    cases hea
    exact hq _ ha
  have hback : ∀ e, Inserted s'.journal e → Inserted s.journal e := by
    intro e hi
    rw [hj] at hi
    exact hins _ [] (by simp) e hi
  constructor
  · exact fun e e' hi hi' => h.unique e e' (hback e hi) (hback e' hi')
  · intro e hi
    rw [he,hj]
    exact (h.fate e (hback e hi)).imp_right fun hm => ⟨hm.1.append,hm.2⟩
  · intro id row hrow
    rw [he] at hrow
    rw [hj]
    obtain ⟨e,hi,hrest⟩ := h.known id row hrow
    exact ⟨e,hi.append,hrest⟩
  · intro pre u rows post hsplit
    rw [hj] at hsplit
    rcases append_split hsplit with ⟨rest,hold,-⟩ | ⟨mid,hnew,-⟩
    · exact h.purged pre u rows rest hold
    · have hm : (⟨u,.purgedEvents rows⟩ : Entry) ∈ acts.map (Entry.mk t) := by
        rw [hnew]
        simp
      obtain ⟨a,ha,hea⟩ := List.mem_map.mp hm
      cases hea
      exact (hq _ ha).elim
  · intro pre u rows post hsplit e hi
    rw [hj] at hsplit
    rcases append_split hsplit with ⟨rest,hold,-⟩ | ⟨mid,hnew,rfl⟩
    · exact h.listed pre u rows rest hold e hi
    · have hm : (⟨u,.listedEvents rows⟩ : Entry) ∈ acts.map (Entry.mk t) := by
        rw [hnew]
        simp
      obtain ⟨a,ha,hea⟩ := List.mem_map.mp hm
      cases hea
      rcases h.fate e (hins mid _ hnew e hi) with ⟨hrow,hnone⟩ | ⟨hmark,-⟩
      · obtain ⟨-,hperm⟩ := (hb _ ha).resolve_right fun hn => hn trivial
        refine Or.inl (hperm.mem_iff.mpr (List.mem_filter.mpr ⟨Table.find_some_mem hrow,?_⟩))
        simp [hnone]
      · exact Or.inr hmark.append

/-- Adding one entry that is no list. -/
theorem EventLog.entry (h : EventLog reg tasks s) {entry : Entry}
    (hj : s'.journal = s.journal ++ [entry]) (hl : ∀ t rows, entry ≠ ⟨t,.listedEvents rows⟩)
    (hu : ∀ e e', Inserted s'.journal e → Inserted s'.journal e' → e.id = e'.id → e = e')
    (hf : ∀ e, Inserted s'.journal e →
      (s'.events.find e.id = some e ∧ e.reconciledDate = none) ∨
      EventMarked reg tasks s'.journal e ∧
        ∀ row, s'.events.find e.id = some row → row.reconciledDate.isSome)
    (hk : ∀ id row, s'.events.find id = some row →
      ∃ e, Inserted s'.journal e ∧ e.id = id ∧ (row.reconciledDate = none → e = row))
    (hp : ∀ t rows, entry = ⟨t,.purgedEvents rows⟩ → ∀ row ∈ rows,
      ∃ e, Inserted s.journal e ∧ e.id = row.id ∧ EventMarked reg tasks s.journal e) :
    EventLog reg tasks s' := by
  refine ⟨hu,hf,hk,?_,?_⟩
  · intro pre t rows post hsplit
    rw [hj] at hsplit
    rcases snoc_split hsplit with ⟨rest,hold⟩ | ⟨rfl,rfl⟩
    · exact h.purged pre t rows rest hold
    · exact hp t rows rfl
  · intro pre t rows post hsplit
    rw [hj] at hsplit
    rcases snoc_split hsplit with ⟨rest,hold⟩ | ⟨rfl,rfl⟩
    · exact h.listed pre t rows rest hold
    · exact absurd rfl (hl t rows)

theorem EventLog.insert (h : EventLog reg tasks s) (t : ℕ) {e₀ : Event}
    (hfree : s.events.find e₀.id = none) (hnone : e₀.reconciledDate = none)
    (hnew : ∀ e, Inserted s.journal e → e.id ≠ e₀.id) :
    EventLog reg tasks (s.insertEvent t e₀ hfree) := by
  have hj : (s.insertEvent t e₀ hfree).journal = s.journal ++ [⟨t,.insertedEvent e₀⟩] := rfl
  have hins : ∀ e, Inserted (s.insertEvent t e₀ hfree).journal e → Inserted s.journal e ∨ e = e₀ := by
    rintro e ⟨u,hm⟩
    rw [hj] at hm
    rcases List.mem_append.mp hm with hm | hm
    · exact Or.inl ⟨u,hm⟩
    · cases List.mem_singleton.mp hm
      exact Or.inr rfl
  refine h.entry hj (fun _ _ => by simp) ?_ ?_ ?_ (fun _ _ => by simp)
  · intro e e' hi hi' hid
    rcases hins e hi with hold | rfl
    · rcases hins e' hi' with hold' | rfl
      · exact h.unique e e' hold hold' hid
      · exact absurd hid (hnew e hold)
    · rcases hins e' hi' with hold' | rfl
      · exact absurd hid.symm (hnew e' hold')
      · rfl
  · intro e hi
    rw [State.find_insertEvent]
    rcases hins e hi with hi | rfl
    · rw [if_neg (hnew e hi),hj]
      exact (h.fate e hi).imp_right fun hm => ⟨hm.1.append,hm.2⟩
    · exact Or.inl ⟨if_pos rfl,hnone⟩
  · intro id row hrow
    rw [State.find_insertEvent] at hrow
    rw [hj]
    split at hrow
    · next hid =>
      cases hrow
      exact ⟨e₀,⟨t,by simp⟩,hid.symm,fun _ => rfl⟩
    · obtain ⟨e,hi,hrest⟩ := h.known id row hrow
      exact ⟨e,hi.append,hrest⟩

/-- Entries that insert nothing. -/
theorem Inserted.of_snoc {entry : Entry} (h : Inserted (J ++ [entry]) e)
    (hne : ∀ e, entry.act ≠ .insertedEvent e) : Inserted J e :=
  h.of_append fun t e hm => hne e (by rw [← List.mem_singleton.mp hm])

theorem EventLog.save (h : EventLog reg tasks s) {row e₀ : Event} (hi₀ : Inserted s.journal e₀)
    (hid : row.id = e₀.id) (hr : row.reconciledDate.isSome)
    (hset : Settles reg tasks i (s.acts i) e₀) : EventLog reg tasks (s.saveEvent i row) := by
  have hj : (s.saveEvent i row).journal = s.journal ++ [⟨i,.savedEvent row⟩] := rfl
  have hins : ∀ e, Inserted (s.saveEvent i row).journal e → Inserted s.journal e :=
    fun e hi => hi.of_snoc fun _ => Act.noConfusion
  refine h.entry hj (fun _ _ => by simp) ?_ ?_ ?_ (fun _ _ => by simp)
  · exact fun e e' hi hi' => h.unique e e' (hins e hi) (hins e' hi')
  · intro e hi
    rw [State.find_saveEvent]
    by_cases he : row.id = e.id
    · -- the event that was settled
      have hsame := h.unique e₀ e hi₀ (hins e hi) (hid.symm.trans he)
      subst hsame
      right
      refine ⟨?_,fun row' hrow' => ?_⟩
      · rw [hj]
        exact MarksEvent.marked (.saved hid hr hset)
      · rw [if_pos he] at hrow'
        cases hrow'
        exact hr
    · rw [if_neg he,hj]
      exact (h.fate e (hins e hi)).imp_right fun hm => ⟨hm.1.append,hm.2⟩
  · intro id row' hrow'
    rw [State.find_saveEvent] at hrow'
    rw [hj]
    split at hrow'
    · next hk =>
      cases hrow'
      refine ⟨e₀,hi₀.append,hid.symm.trans hk,fun hnone => ?_⟩
      rw [hnone] at hr
      cases hr
    · obtain ⟨e,hi,hrest⟩ := h.known id row' hrow'
      exact ⟨e,hi.append,hrest⟩

theorem EventLog.purge (h : EventLog reg tasks s) (t : ℕ) : EventLog reg tasks (s.purgeEvents t) := by
  refine h.entry rfl (fun _ _ => by simp) ?_ ?_ ?_ ?_
  · exact fun e e' hi hi' => h.unique e e' (hi.of_snoc fun _ => Act.noConfusion)
      (hi'.of_snoc fun _ => Act.noConfusion)
  · intro e hi
    rw [State.find_purgeEvents]
    rcases h.fate e (hi.of_snoc fun _ => Act.noConfusion) with ⟨hrow,hnone⟩ | ⟨hm,hrows⟩
    · exact Or.inl ⟨by simp [hrow,hnone],hnone⟩
    · exact Or.inr ⟨hm.append,fun row hrow => hrows row (Option.filter_eq_some_iff.mp hrow).1⟩
  · intro id row hrow
    rw [State.find_purgeEvents] at hrow
    obtain ⟨e,hi,hrest⟩ := h.known id row (Option.filter_eq_some_iff.mp hrow).1
    exact ⟨e,hi.append,hrest⟩
  · intro u rows he row hm
    cases he
    obtain ⟨hm,hrec⟩ := List.mem_filter.mp hm
    have hrow := Table.find_of_mem hm
    obtain ⟨e,hi,hid,-⟩ := h.known _ row hrow
    refine ⟨e,hi,hid,?_⟩
    rcases h.fate e hi with ⟨hpend,hnone⟩ | ⟨hmark,-⟩
    · rw [hid,hrow] at hpend
      cases hpend
      rw [hnone] at hrec
      cases hrec
    · exact hmark

theorem EventLog.retire (h : EventLog reg tasks s) (t : ℕ) {cutoff date now : Time}
    {picked : List Event} (hp : ∀ e ∈ picked, e ∈ s.staleDeleteEvents cutoff) :
    EventLog reg tasks (s.retireEvents t picked date now) := by
  refine h.entry rfl (fun _ _ => by simp) ?_ ?_ ?_ (fun _ _ => by simp)
  · exact fun e e' hi hi' => h.unique e e' (hi.of_snoc fun _ => Act.noConfusion)
      (hi'.of_snoc fun _ => Act.noConfusion)
  · intro e hi
    rw [State.find_retireEvents]
    rcases h.fate e (hi.of_snoc fun _ => Act.noConfusion) with ⟨hrow,hnone⟩ | ⟨hm,hrows⟩
    · by_cases hpick : e ∈ picked
      · right
        have hstale := (List.mem_filter.mp (hp e hpick)).2
        simp only [decide_eq_true_eq,Bool.decide_and,Bool.and_eq_true] at hstale
        refine ⟨MarksEvent.marked (.retired hpick hstale.2.1),?_⟩
        rw [hrow]
        intro row he
        cases he
        simp [Event.setReconciled,hpick]
      · exact Or.inl ⟨by simp [hrow,Event.setReconciled,hpick],hnone⟩
    · refine Or.inr ⟨hm.append,fun row hrow => ?_⟩
      obtain ⟨row',hrow',rfl⟩ := Option.map_eq_some_iff.mp hrow
      unfold Event.setReconciled
      split
      · rfl
      · exact hrows row' hrow'
  · intro id row hrow
    rw [State.find_retireEvents] at hrow
    obtain ⟨row',hrow',rfl⟩ := Option.map_eq_some_iff.mp hrow
    obtain ⟨e,hi,hid,hrest⟩ := h.known id row' hrow'
    refine ⟨e,hi.append,hid,fun hnone => ?_⟩
    unfold Event.setReconciled at hnone ⊢
    split at hnone
    · cases hnone
    · next hpick =>
      rw [if_neg hpick]
      exact hrest hnone

/-- What a session is allowed to do keeps the log. -/
theorem EventLog.step (ha : eventRule reg tasks i c s) (hx : eventPool n i ch c s = some (r,s'))
    (h : EventLog reg tasks s) : EventLog reg tasks s' := by
  obtain ⟨hx,-,hnew⟩ := eventPool_exec hx
  by_cases hc : ∃ event, c = .createEvent event
  · obtain ⟨event,rfl⟩ := hc
    rcases exec_cases hx with ⟨-,-,-,rfl⟩ | ⟨-,hc⟩
    · exact h
    · obtain ⟨hfree,-,rfl⟩ := commit_createEvent hc
      exact h.insert i hfree ha fun e hi => hnew event rfl e hi
  cases exec_eventEffect hx with
  | quiet acts he hj hq =>
    obtain ⟨acts',hj',hb⟩ := exec_acts hx
    have hsame : acts = acts' := by
      have hmap := List.append_cancel_left (hj.symm.trans hj')
      exact List.map_injective_iff.mpr (fun a b hab => (Entry.mk.inj hab).2) hmap
    subst acts'
    exact h.quiet he hj hq hb
  | insert event => exact absurd ⟨event,rfl⟩ hc
  | save event now =>
    obtain ⟨e,hi,hid,hr,hset⟩ := ha
    exact h.save hi hid hr hset
  | purge => exact h.purge i
  | retire cutoff date now picked hp => exact h.retire i hp

end Step

/-- Calls that insert and save no event. -/
def Call.savesNothing : Call → Prop
  | .createEvent _ | .saveEvent _ => False
  | _ => True

section Outline

variable {ext : External} {reg : Registry} {n : ℕ} {tasks : Fin n → EventTask} {i : Fin n}
    {F : State → Prop} {A : List Act} {key : String}

theorem eventPool_executes : Executes (eventPool n) := fun _ _ _ _ _ _ hx => (eventPool_exec hx).1

theorem kept_log : Kept (eventPool n) (eventRule reg tasks) (EventLog reg tasks) :=
  fun _ _ _ _ _ _ ha hx h => h.step ha hx

theorem kept_inserted (e : Event) :
    Kept (eventPool n) (eventRule reg tasks) fun s => Inserted s.journal e := by
  intro j ch c s r s' _ hx h
  obtain ⟨acts,hj,-⟩ := exec_acts (eventPool_exec hx).1
  rw [hj]
  exact h.append

/-- A program that saves nothing may go on in any way. -/
theorem safe_rest {α : Type} {p : M α} (hF : Kept (eventPool n) (eventRule reg tasks) F)
    (hp : p.Calls Answers Call.savesNothing fun _ => True) :
    Safe (eventPool n) (eventRule reg tasks) i (fun _ => F) p F :=
  eventPool_executes.safe_rest hF (fun c s hc _ => by cases c <;> trivial) hp

/-- An event that is pending was inserted as it is. -/
theorem EventLog.inserted {s : State} {e : Event} (h : EventLog reg tasks s)
    (hrow : s.events.find key = some e) (hnone : e.reconciledDate = none) :
    Inserted s.journal e := by
  obtain ⟨e',hi,-,hsame⟩ := h.known key e hrow
  exact hsame hnone ▸ hi

/-- A save that is allowed when it is made. -/
theorem safe_replace {row : Event} (hF : Kept (eventPool n) (eventRule reg tasks) F)
    (ha : ∀ s, F s → s.acts i = A → eventRule reg tasks i (.saveEvent row) s) :
    Safe (eventPool n) (eventRule reg tasks) i (fun _ => F) (EventService.replace row)
      fun s => F s ∧ s.acts i = A := by
  refine Safe.call fun s ⟨hs,hA⟩ => ⟨ha s hs hA,fun ch r s' hx => ?_⟩
  refine ⟨F,hF.stable i,hF i ch _ s r s' (ha s hs hA) hx hs,safe_rest hF ?_⟩
  cases r with
  | error err => exact ⟨trivial,fun _ _ => trivial⟩
  | ok u => trivial

/-- The handlers, as long as they succeed. -/
theorem safe_runHandlers (hF : Kept (eventPool n) (eventRule reg tasks) F) (sourceID : String)
    (handlers : List ℕ) (A : List Act) :
    Safe (eventPool n) (eventRule reg tasks) i
      (fun r s => F s ∧ (r = .ok () → s.acts i = A ++ handledAll handlers sourceID))
      (runHandlers sourceID (handlers.map handlerFunc)) fun s => F s ∧ s.acts i = A := by
  induction handlers generalizing A with
  | nil => exact Safe.ret fun s ⟨hs,hA⟩ => ⟨hs,fun _ => by simpa [handledAll] using hA⟩
  | cons handler handlers ih =>
    refine Safe.call fun s ⟨hs,hA⟩ => ⟨trivial,fun ch r s' hx => ?_⟩
    have hs' := hF i ch _ s r s' trivial hx hs
    have hx := (eventPool_exec hx).1
    rw [exec_handler] at hx
    cases hx
    cases hr : ch.remoteErr with
    | some err =>
      rw [hr] at hs'
      refine ⟨F,hF.stable i,hs',Safe.ret fun s hs => ⟨hs,fun he => ?_⟩⟩
      cases he
    | none =>
      rw [hr] at hs'
      have hA' : (s.record i [.handled handler sourceID true]).acts i =
          A ++ [.handled handler sourceID true] := by
        rw [State.acts_record,hA]
      refine ⟨_,eventPool_executes.stable_trace hF _,⟨hs',hA'⟩,(ih _).weaken (fun _ h => h) ?_⟩
      rintro r s ⟨hs,ht⟩
      exact ⟨hs,fun he => by rw [ht he]; simp [handledAll]⟩

/-- What `handleEvent` does after its filter: a save comes after all the handlers. -/
theorem safe_processEvent (htask : (tasks i).handles key) :
    Safe (eventPool n) (eventRule reg tasks) i (fun _ => EventLog reg tasks)
      (processEvent reg.controllers key) (EventLog reg tasks) := by
  refine eventPool_executes.safe_processEvent (kept_log.stable i) (fun _ _ => trivial)
    (fun _ h => h) fun e s source fns hs hrow hnone hsource hfns => ?_
  have hid : e.id = key := Table.find_some_key hrow
  have hkept : Kept (eventPool n) (eventRule reg tasks) fun s =>
      EventLog reg tasks s ∧ Inserted s.journal e := kept_log.and (kept_inserted e)
  rw [reg.controllers_lookup] at hsource
  obtain ⟨types,hsrc,rfl⟩ := Option.map_eq_some_iff.mp hsource
  rw [lookup_map] at hfns
  obtain ⟨handlers,htypes,rfl⟩ := Option.map_eq_some_iff.mp hfns
  refine ⟨_,_,eventPool_executes.stable_trace hkept (s.acts i),⟨⟨hs,hs.inserted hrow hnone⟩,rfl⟩,
    eventPool_executes.stable_trace hkept (s.acts i ++ handledAll handlers e.sourceID),fun _ _ => trivial,
    (safe_runHandlers hkept e.sourceID handlers _).weaken (fun _ h => h)
      fun r s h => ⟨h.1.1,fun he => ⟨h.1,h.2 he⟩⟩,fun now => ?_⟩
  refine (safe_replace hkept fun s' hs' hA => ?_).weaken (fun _ h => h) fun _ _ h => h.1
  refine ⟨e,hs'.2,rfl,rfl,Or.inl ⟨hid ▸ htask,handlers,?_,s.acts i,hA.symm⟩⟩
  simp [Registry.handlers,hsrc,htypes]

theorem safe_predicateEvent (htask : tasks i = .predicated key) :
    Safe (eventPool n) (eventRule reg tasks) i (fun _ => EventLog reg tasks)
      (GRPCBroker.predicateEvent ext key) (EventLog reg tasks) := by
  refine eventPool_executes.safe_predicateEvent (kept_log.stable i) (fun _ _ => trivial)
    (fun _ h => h) fun e s hs hrow hnone => ?_
  have hid : e.id = key := Table.find_some_key hrow
  have hkept : Kept (eventPool n) (eventRule reg tasks) fun s =>
      EventLog reg tasks s ∧ Inserted s.journal e := kept_log.and (kept_inserted e)
  refine ⟨_,hkept,⟨hs,hs.inserted hrow hnone⟩,fun s hs => ⟨hs.1,trivial,trivial,fun _ => trivial⟩,
    fun now => ?_⟩
  -- the resource is gone, so the event is settled
  refine Safe.weaken (Safe.exists fun A => safe_replace (A := A ++ [.readResource e.sourceID none])
    hkept fun s hs hA => ?_) (fun s hs => ?_) fun _ _ h => h.1
  · exact ⟨e,hs.2,rfl,rfl,Or.inr ⟨hid ▸ htask,A,hA.symm⟩⟩
  · rcases hs.2 with ⟨A,hA⟩ | ⟨ch,s',r,hx,hfault⟩
    · exact ⟨A,hs.1,hA.symm⟩
    · exact absurd hfault (eventPool_exec hx).2.1

theorem safe_handleEvent (htask : (tasks i).handles key) {h : EventFilter}
    (hf : Safe (eventPool n) (eventRule reg tasks) i (fun _ => EventLog reg tasks)
      (h.filter key) (EventLog reg tasks)) :
    Safe (eventPool n) (eventRule reg tasks) i (fun _ => EventLog reg tasks)
      (handleEvent reg.controllers h key) (EventLog reg tasks) :=
  eventPool_executes.safe_handleEvent kept_log (fun _ _ _ => trivial) hf (safe_processEvent htask)

/-- The acts of a `syncEvents` that has returned: a statement failed, or all that it listed was put
into the queue. -/
inductive SyncRun (queue : ℕ) : List Act → Prop
  | failed : SyncRun queue []
  | purged (rows : List Event) : SyncRun queue [.purgedEvents rows]
  | synced (rows listed : List Event) :
      SyncRun queue (.purgedEvents rows :: .listedEvents listed ::
        listed.map fun e => .queued queue .add e.id)

theorem safe_addAll (queue : ℕ) (events : List Event) (A : List Act) :
    Safe (eventPool n) (eventRule reg tasks) i
      (fun _ s => EventLog reg tasks s ∧
        s.acts i = A ++ events.map fun e => .queued queue .add e.id)
      (addAll queue events) fun s => EventLog reg tasks s ∧ s.acts i = A := by
  induction events generalizing A with
  | nil => exact Safe.ret fun s ⟨hs,hA⟩ => ⟨hs,by simpa using hA⟩
  | cons e events ih =>
    refine Safe.call fun s ⟨hs,hA⟩ => ⟨trivial,fun ch r s' hx => ?_⟩
    have hs' := hs.step (c := .queue queue .add e.id) trivial hx
    have hx := (eventPool_exec hx).1
    rw [exec_queue] at hx
    cases hx
    refine ⟨_,eventPool_executes.stable_trace kept_log (A ++ [.queued queue .add e.id]),⟨hs',?_⟩,?_⟩
    · rw [State.acts_record,hA]
    · refine (ih _).weaken (fun _ h => h) fun _ s ⟨hs,hA⟩ => ⟨hs,?_⟩
      rw [hA]
      simp

theorem safe_syncEvents (queue : ℕ) :
    Safe (eventPool n) (eventRule reg tasks) i
      (fun _ s => EventLog reg tasks s ∧ SyncRun queue (s.acts i)) (syncEvents queue)
      fun s => EventLog reg tasks s ∧ s.acts i = [] := by
  refine Safe.call fun s hsA => ⟨trivial,fun ch r s' hx => ?_⟩
  obtain ⟨hs,hA⟩ := hsA
  have hs' := hs.step (c := .deleteReconciledEvents) trivial hx
  rcases exec_cases (eventPool_exec hx).1 with ⟨err,-,he,rfl⟩ | ⟨-,hc⟩
  · cases he
    refine ⟨_,eventPool_executes.stable_trace kept_log [],⟨hs,hA⟩,Safe.call fun s hs => ⟨trivial,?_⟩⟩
    intro ch r s' hx
    have hx := (eventPool_exec hx).1
    rw [exec_markForRollback] at hx
    cases hx
    exact ⟨_,eventPool_executes.stable_trace kept_log [],hs,
      Safe.ret fun s hs => ⟨hs.1,hs.2 ▸ .failed⟩⟩
  · cases hc
    refine ⟨_,eventPool_executes.stable_trace kept_log
      [.purgedEvents (s.events.rows.filter fun e => e.reconciledDate.isSome)],⟨hs',?_⟩,
      Safe.call fun s₁ hsA₁ => ⟨trivial,fun ch r s₂ hx => ?_⟩⟩
    · rw [State.acts_record]
      exact congrArg (· ++ _) hA
    · obtain ⟨hs₁,hA₁⟩ := hsA₁
      have hs₂ := hs₁.step (c := .findUnreconciledEvents) trivial hx
      rcases exec_cases (eventPool_exec hx).1 with ⟨err,-,he,rfl⟩ | ⟨-,hc⟩
      · cases he
        exact ⟨_,eventPool_executes.stable_trace kept_log _,⟨hs₁,hA₁⟩,
          Safe.ret fun s hs => ⟨hs.1,hs.2 ▸ .purged _⟩⟩
      · simp only [commit] at hc
        split at hc
        · cases hc
          refine ⟨_,eventPool_executes.stable_trace kept_log _,⟨hs₂,by rw [State.acts_record,hA₁]⟩,?_⟩
          refine (safe_addAll queue _ _).weaken (fun _ h => h) fun _ s hs => ⟨hs.1,?_⟩
          rw [hs.2]
          exact .synced _ _
        · cases hc

end Outline

section Runs

variable {ext : External} {reg : Registry} {n : ℕ} {tasks : Fin n → EventTask}
    {s₀ : State} {cfg : Config (Fin n) State Call Call.Resp Unit}

/-- What a task has done when it returns. -/
def EventTask.Post (reg : Registry) {n : ℕ} (tasks : Fin n → EventTask) (i : Fin n) (_ : Unit)
    (s : State) : Prop :=
  EventLog reg tasks s ∧ ∀ queue, tasks i = .sync queue → SyncRun queue (s.acts i)

def eventStart (ext : External) (reg : Registry) {n : ℕ} (tasks : Fin n → EventTask) (s₀ : State) :
    Config (Fin n) State Call Call.Resp Unit :=
  ⟨s₀,fun i => (tasks i).run ext reg⟩

/-- No event yet. -/
structure State.Eventless (s₀ : State) : Prop where
  journal : s₀.journal = []
  events : s₀.events = .empty

theorem State.Eventless.log (h : s₀.Eventless) : EventLog reg tasks s₀ := by
  obtain ⟨hj,he⟩ := h
  constructor
  · rintro e e' ⟨t,hm⟩
    simp [hj] at hm
  · rintro e ⟨t,hm⟩
    simp [hj] at hm
  · intro id row hrow
    simp [he] at hrow
  · intro pre t rows post hsplit
    simp [hj] at hsplit
  · intro pre t rows post hsplit
    simp [hj] at hsplit

theorem eventStart_verified (h₀ : s₀.Eventless) :
    Verified (eventPool n) (eventRule reg tasks) (EventTask.Post reg tasks)
      (eventStart ext reg tasks s₀) := by
  intro i
  refine ⟨_,eventPool_executes.stable_trace kept_log [],
    ⟨h₀.log,by simp [eventStart,State.acts,h₀.journal]⟩,?_⟩
  have hplain : (∀ queue, tasks i ≠ .sync queue) → Safe (eventPool n) (eventRule reg tasks) i
      (fun _ => EventLog reg tasks) ((tasks i).run ext reg) (EventLog reg tasks) →
      Safe (eventPool n) (eventRule reg tasks) i (EventTask.Post reg tasks i)
        ((tasks i).run ext reg) fun s => EventLog reg tasks s ∧ s.acts i = [] := fun hne h =>
    h.weaken (fun s hs => hs.1) fun _ s hs => ⟨hs,fun queue he => absurd he (hne queue)⟩
  change Safe _ _ i _ ((tasks i).run ext reg) _
  cases htask : tasks i with
  | operation op =>
    rw [← htask]
    refine hplain (by simp [htask]) ?_
    rw [htask]
    refine eventPool_executes.safe_rest kept_log (fun c s hc _ => ?_)
      (Prog.Calls.map (S := fun _ => True) (op.run_calls ext) fun _ _ => trivial)
    cases c <;> trivial
  | lockBased key =>
    rw [← htask]
    refine hplain (by simp [htask]) ?_
    rw [htask]
    refine Safe.map (safe_handleEvent (by rw [htask]; rfl) (safe_rest kept_log ?_)) fun _ _ h => h
    exact (filter_calls (lockBased_make (fun _ => trivial) fun _ => trivial) key).mono
      (fun _ h => h) fun _ _ => trivial
  | predicated key =>
    rw [← htask]
    refine hplain (by simp [htask]) ?_
    rw [htask]
    refine Safe.map (safe_handleEvent (by rw [htask]; rfl) ?_) fun _ _ h => h
    exact Safe.bind (safe_predicateEvent htask) fun _ => Safe.ret fun _ h => h
  | sync queue =>
    refine (safe_syncEvents queue).weaken (fun _ h => h) fun _ s hs => ⟨hs.1,fun queue' he => ?_⟩
    cases htask.symm.trans he
    exact hs.2
  | retire threshold =>
    rw [← htask]
    refine hplain (by simp [htask]) ?_
    rw [htask]
    exact safe_rest kept_log (staleDeleteDetectorRun_calls trivial (fun _ => trivial) trivial
      (fun _ => trivial) fun _ _ => trivial)

end Runs

/-- Two handlers for updates. -/
def updateRegistry : Registry := [("Resources",[(.update,[0,1])])]

/-- An update, and an instance that handles its event. -/
def updateTasks : Fin 2 → EventTask
  | 0 => .operation
    (.update { Reference.webRow.scan with payload := Reference.bundle "first" "web" })
  | 1 => .lockBased "uuid-3"

def updateStart : Config (Fin 2) State Call Call.Resp Unit :=
  eventStart Reference.packages updateRegistry updateTasks (.single Reference.webRow)

end Maestro
