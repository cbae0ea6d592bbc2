import Maestro.Concurrent.Extension
import Maestro.Controllers.Calls
import Maestro.Db.EventEffects
import Maestro.Services.Locking

/-!
# The detector of undelivered resources

`FindUndelivered` joins the resources with the consumers, so the database has a table more
here. The store also records what every query read and found, the readings of the clock and
the sessions whose inserts were refused; no function reads these.
-/

namespace Maestro
open Data Concurrent

/-- A row of `consumers`, with the columns that the detector's query reads. -/
structure ConsumerRow where
  name : String
  deletedAt : Option Time := none
deriving DecidableEq

/-- The tables as a query of `FindUndelivered` read them, and the rows that it found. -/
structure UndeliveredQuery where
  session : ℕ
  cutoff : Time
  resources : List ResourceRow
  events : List Event
  consumers : List ConsumerRow
  found : List ResourceRow
  /-- How many entries the journal had. -/
  position : ℕ
deriving DecidableEq

structure DetectorStore where
  state : State := {}
  consumers : Table ConsumerRow.name := .empty
  queries : List UndeliveredQuery := []
  clock : List (ℕ × Time) := []
  refused : List ℕ := []

/-- `EXISTS` of an event of the resource that is not reconciled. -/
def hasUnreconciled (events : List Event) (id : String) : Bool :=
  events.any fun e => e.sourceID = id ∧ e.source = "Resources" ∧ e.reconciledDate = none

/-- The rows that the query of `FindUndelivered` selects. -/
def undeliveredRows (resources : List ResourceRow) (consumers : List ConsumerRow)
    (events : List Event) (cutoff : Time) : List ResourceRow :=
  let joined := resources.flatMap fun row =>
    (consumers.filter fun c => c.name = row.consumerName ∧ c.deletedAt = none).map fun _ => row
  joined.filter fun row => row.deletedAt = none ∧ row.status = none ∧ row.createdAt < cutoff ∧
    hasUnreconciled events row.id = false

/-- The statements on consumers are those of other sessions. -/
inductive DetectorCall
  | findUndelivered (cutoff : Time)
  | saveConsumer (row : ConsumerRow)
  | deleteConsumer (name : String)
deriving DecidableEq

abbrev DetectorCall.Resp : DetectorCall → Type
  | .findUndelivered _ => Except DbErr (List Resource)
  | .saveConsumer _ | .deleteConsumer _ => Except DbErr Unit

abbrev DetectorM := Prog (Call ⊕ DetectorCall) (Sum.elim Call.Resp DetectorCall.Resp)

/-- What the environment decides for one call: also the order of the rows that are found. -/
structure DetectorChoice where
  base : Choice
  fault : Option DbErr := none
  order : List ResourceRow → List ResourceRow := id

namespace DetectorStore

/-- The store after a call of session `t` on the other tables. -/
def after (s : DetectorStore) (t : ℕ) (ch : Choice) (c : Call) (state : State) : DetectorStore :=
  { s with
    state := state
    clock := match c with
      | .now => s.clock ++ [(t,ch.now)]
      | _ => s.clock
    refused := match c with
      | .createEvent event => if (ch.fault (.createEvent event)).isSome then s.refused ++ [t]
          else s.refused
      | _ => s.refused }

/-- The query of session `t`, in the order in which the rows are returned. -/
def query (s : DetectorStore) (t : ℕ) (ch : DetectorChoice) (cutoff : Time) : UndeliveredQuery where
  session := t
  cutoff := cutoff
  resources := s.state.resources.rows
  events := s.state.events.rows
  consumers := s.consumers.rows
  found := ch.order
    (undeliveredRows s.state.resources.rows s.consumers.rows s.state.events.rows cutoff)
  position := s.state.journal.length

end DetectorStore

/-- A statement of the detector, or on the consumers, that the database does not refuse. -/
def detectorCommit (t : ℕ) (ch : DetectorChoice) :
    (c : DetectorCall) → DetectorStore → Option (c.Resp × DetectorStore)
  | .findUndelivered cutoff, s =>
    let q := s.query t ch cutoff
    if q.found.Perm (undeliveredRows q.resources q.consumers q.events cutoff) then
      some (.ok (q.found.map ResourceRow.scan),{ s with queries := s.queries ++ [q] })
    else
      none
  | .saveConsumer row, s => some (.ok (),{ s with consumers := s.consumers.save row })
  | .deleteConsumer name, s => some (.ok (),{ s with consumers := s.consumers.erase name })

def DetectorCall.failure (err : DbErr) : (c : DetectorCall) → c.Resp
  | .findUndelivered _ => .error err
  | .saveConsumer _ => .error err
  | .deleteConsumer _ => .error err

/-- An `Unlock` ends the transaction of no other session. -/
def ownUnlock (t : ℕ) (s : State) : Call → Bool
  | .unlock owner => s.locks.held.all fun l => decide (l.owner = owner → l.session = t)
  | _ => true

/-- Execute a call in session `t`. -/
def detectorExec (t : ℕ) (ch : DetectorChoice) :
    (c : Call ⊕ DetectorCall) → DetectorStore →
      Option (Sum.elim Call.Resp DetectorCall.Resp c × DetectorStore)
  | .inl c, s =>
    if ownUnlock t s.state c then
      (exec t ch.base c s.state).map fun p => (p.1,s.after t ch.base c p.2)
    else
      none
  | .inr c, s =>
    match ch.fault with
    | some err => some (c.failure err,s)
    | none => detectorCommit t ch c s

/-- `FindUndelivered` of the resource service. -/
def ResourceService.findUndelivered (threshold : Time) :
    DetectorM (Except ServiceError (List Resource)) := do
  let now ← timeNow.inl
  let found : Except DbErr (List Resource) ←
    Prog.lift (.inr (.findUndelivered (now - threshold)) : Call ⊕ DetectorCall)
  match found with
  | .error err =>
    return .error (Errors.generalError ("unable to find undelivered resources: " ++ err.error))
  | .ok resources => return .ok resources

/-- The event that re-publishes a resource. -/
def republishEvent (resource : Resource) : Event where
  source := "Resources"
  sourceID := resource.id
  eventType := if resource.version > 1 then .update else .create

/-- The loop of `Run`. A failure is logged, and the loop goes on. -/
def republish : List Resource → DetectorM Unit
  | [] => return ()
  | resource :: resources => do
    let _ ← (EventService.create (republishEvent resource)).inl
    republish resources

def undeliveredCheck : String := "maestro-undelivered-check"

/-- `UndeliveredDetector.Run`. -/
def undeliveredDetectorRun (threshold : Time) : DetectorM Unit := do
  let (lockOwnerID,acquired,err) ← (newNonBlockingLock undeliveredCheck .instances).inl
  Prog.deferring (unlock lockOwnerID).inl do
    match err with
    | some _ => return ()
    | none =>
      if acquired then
        match ← ResourceService.findUndelivered threshold with
        | .error _ => return ()
        | .ok resources => republish resources
      else
        return ()

/-- What a session does. -/
inductive DetectorTask
  | detect (threshold : Time)
  | handle (controllers : Controllers) (filter : EventFilter) (id : String)
  | purge
  | other (program : DetectorM Unit)

namespace DetectorTask

def program : DetectorTask → DetectorM Unit
  | .detect threshold => undeliveredDetectorRun threshold
  | .handle controllers filter id => (fun _ => ()) <$> (handleEvent controllers filter id).inl
  | .purge => (fun _ => ()) <$> EventService.deleteAllReconciledEvents.inl
  | .other program => program

def isDetect : DetectorTask → Bool
  | .detect _ => true
  | _ => false

end DetectorTask

/-- Events are saved as reconciled only. -/
def Call.savesReconciled : Call → Prop
  | .saveEvent event => event.reconciledDate.isSome
  | _ => True

/-- The same on all calls of the store. -/
def savesReconciled : Call ⊕ DetectorCall → Prop
  | .inl c => c.savesReconciled
  | .inr _ => True

/-- What the database answers. -/
def DetectorAnswers : (c : Call ⊕ DetectorCall) → Sum.elim Call.Resp DetectorCall.Resp c → Prop
  | .inl c, r => Answers c r
  | .inr _, _ => True

/-- No handler and no other program saves an event that is not reconciled. -/
def DetectorTask.Orderly : DetectorTask → Prop
  | .detect _ | .purge => True
  | .handle controllers filter _ =>
    controllers.Make Call.savesReconciled ∧ filter.Make Call.savesReconciled
  | .other program => program.Calls DetectorAnswers savesReconciled fun _ => True

def detectorPool (n : ℕ) (i : Fin n) (ch : DetectorChoice) (c : Call ⊕ DetectorCall)
    (s : DetectorStore) : Option (Sum.elim Call.Resp DetectorCall.Resp c × DetectorStore) :=
  detectorExec i ch c s

/-- The sessions that run the detector. -/
def detectors {n : ℕ} (tasks : Fin n → DetectorTask) (t : ℕ) : Bool :=
  if h : t < n then (tasks ⟨t,h⟩).isDetect else false

theorem detectors_val {n : ℕ} (tasks : Fin n → DetectorTask) (i : Fin n) :
    detectors tasks i = (tasks i).isDetect := by
  rw [detectors,dif_pos i.isLt]

/-- Which session inserted the event of this ID last. -/
def insertedBy (journal : List Entry) (id : String) : Option ℕ :=
  journal.foldl (fun last entry => match entry.act with
    | .insertedEvent e => if e.id = id then some entry.session else last
    | _ => last) none

/-- The events that a session inserted. -/
def insertsOf (t : ℕ) (journal : List Entry) : List Event :=
  journal.filterMap fun entry => match entry.act with
    | .insertedEvent e => if entry.session = t then some e else none
    | _ => none

/-- The event is in the table, not reconciled, and a detector inserted it. -/
def State.Pending (s : State) (detects : ℕ → Bool) (e : Event) : Prop :=
  e ∈ s.events.rows ∧ e.reconciledDate = none ∧
    ∃ t, insertedBy s.journal e.id = some t ∧ detects t = true

section Journal

variable {journal : List Entry} {t : ℕ} {id : String}

theorem insertedBy_one {a : Act} (h : ∀ e, a ≠ .insertedEvent e) :
    insertedBy (journal ++ [⟨t,a⟩]) id = insertedBy journal id := by
  rw [insertedBy,List.foldl_append]
  cases a <;> first | exact absurd rfl (h _) | rfl

theorem insertedBy_eventless {acts : List Act} (h : ∀ a ∈ acts, a.eventless) :
    insertedBy (journal ++ acts.map (Entry.mk t)) id = insertedBy journal id := by
  induction acts generalizing journal with
  | nil => rw [List.map_nil,List.append_nil]
  | cons a acts ih =>
    rw [List.map_cons,List.append_cons,ih fun b hb => h b (List.mem_cons_of_mem _ hb)]
    refine insertedBy_one fun e he => ?_
    exact (he ▸ h a List.mem_cons_self : (Act.insertedEvent e).eventless)

theorem insertedBy_insert (e : Event) : insertedBy (journal ++ [⟨t,.insertedEvent e⟩]) id =
    if e.id = id then some t else insertedBy journal id := by
  rw [insertedBy,List.foldl_append]
  rfl

theorem insertsOf_append (t : ℕ) (journal entries : List Entry) :
    insertsOf t (journal ++ entries) = insertsOf t journal ++ insertsOf t entries :=
  List.filterMap_append

/-- An entry that inserts no event of the session. -/
theorem insertsOf_one {u : ℕ} {a : Act} (h : ∀ e, a = .insertedEvent e → u ≠ t) :
    insertsOf t (journal ++ [⟨u,a⟩]) = insertsOf t journal := by
  rw [insertsOf_append]
  cases a <;> simp [insertsOf,h]

theorem insertsOf_eventless {u : ℕ} {acts : List Act} (h : ∀ a ∈ acts, a.eventless) :
    insertsOf t (journal ++ acts.map (Entry.mk u)) = insertsOf t journal := by
  induction acts generalizing journal with
  | nil => rw [List.map_nil,List.append_nil]
  | cons a acts ih =>
    rw [List.map_cons,List.append_cons,ih fun b hb => h b (List.mem_cons_of_mem _ hb)]
    refine insertsOf_one fun e he => ?_
    exact (he ▸ h a List.mem_cons_self : (Act.insertedEvent e).eventless).elim

end Journal

section Effects

variable {detects : ℕ → Bool} {t : ℕ} {s s' : State} {c : Call}

/-- The only new event of a detector is the one that a detector inserts now. -/
theorem EventEffect.pending (h : EventEffect t s c s') (hc : c.savesReconciled) :
    (∀ e, s'.Pending detects e → s.Pending detects e) ∨
      ∃ event now uuid, c = .createEvent event ∧ detects t = true ∧
        ∀ e, s'.Pending detects e → s.Pending detects e ∨ e = event.beforeCreate now uuid := by
  cases h with
  | quiet acts hr hj hq =>
    refine Or.inl ?_
    rintro e ⟨hmem,hnone,u,hby,hu⟩
    rw [hr] at hmem
    rw [hj,insertedBy_eventless hq] at hby
    exact ⟨hmem,hnone,u,hby,hu⟩
  | insert event now uuid hfree =>
    have hnew : ∀ e, (s.insertEvent t (event.beforeCreate now uuid) hfree).Pending detects e →
        s.Pending detects e ∨ e = event.beforeCreate now uuid ∧ detects t = true := by
      rintro e ⟨hmem,hnone,u,hby,hu⟩
      have hby := (insertedBy_insert _).symm.trans hby
      rcases List.mem_append.mp hmem with hold | hnew
      · rw [if_neg fun hid => Table.find_eq_none_iff.mp hfree e hold hid.symm] at hby
        exact Or.inl ⟨hold,hnone,u,hby,hu⟩
      · rw [List.mem_singleton.mp hnew,if_pos rfl] at hby
        cases hby
        exact Or.inr ⟨List.mem_singleton.mp hnew,hu⟩
    by_cases ht : detects t = true
    · exact Or.inr ⟨event,now,uuid,rfl,ht,fun e he => (hnew e he).imp_right And.left⟩
    · exact Or.inl fun e he => (hnew e he).resolve_right fun hd => ht hd.2
  | save event now =>
    refine Or.inl ?_
    rintro e ⟨hmem,hnone,u,hby,hu⟩
    have hby := (insertedBy_one fun _ => Act.noConfusion).symm.trans hby
    have hfind := Table.mem_iff_find.mp hmem
    rw [State.find_saveEvent] at hfind
    split at hfind
    · -- what is saved is reconciled
      have hc' : event.reconciledDate.isSome := hc
      rw [← Option.some.inj hfind] at hnone
      rw [show event.reconciledDate = none from hnone] at hc'
      cases hc'
    · exact ⟨Table.mem_iff_find.mpr hfind,hnone,u,hby,hu⟩
  | purge =>
    refine Or.inl ?_
    rintro e ⟨hmem,hnone,u,hby,hu⟩
    have hby := (insertedBy_one fun _ => Act.noConfusion).symm.trans hby
    exact ⟨(List.mem_filter.mp hmem).1,hnone,u,hby,hu⟩
  | retire cutoff date now picked hp =>
    refine Or.inl ?_
    rintro e ⟨hmem,hnone,u,hby,hu⟩
    have hby := (insertedBy_one fun _ => Act.noConfusion).symm.trans hby
    obtain ⟨e₀,he₀,heq⟩ := List.mem_map.mp hmem
    unfold Event.setReconciled at heq
    split at heq
    · subst heq
      cases hnone
    · subst heq
      exact ⟨he₀,hnone,u,hby,hu⟩

/-- A session inserts by `createEvent` only. -/
theorem EventEffect.inserts (h : EventEffect t s c s') (u : ℕ) :
    insertsOf u s'.journal = insertsOf u s.journal ∨
      ∃ event now uuid, c = .createEvent event ∧ u = t ∧
        insertsOf u s'.journal = insertsOf u s.journal ++ [event.beforeCreate now uuid] := by
  cases h with
  | quiet acts _ hj hq =>
    rw [hj,insertsOf_eventless hq]
    exact Or.inl rfl
  | insert event now uuid hfree =>
    by_cases hu : t = u
    · subst hu
      exact Or.inr ⟨event,now,uuid,rfl,rfl,(insertsOf_append _ _ _).trans (by simp [insertsOf])⟩
    · exact Or.inl (insertsOf_one fun _ _ => hu)
  | save event now => exact Or.inl (insertsOf_one fun _ => Act.noConfusion)
  | purge => exact Or.inl (insertsOf_one fun _ => Act.noConfusion)
  | retire cutoff date now picked hp => exact Or.inl (insertsOf_one fun _ => Act.noConfusion)

/-- What the entries of a call insert. -/
theorem EventEffect.journal (h : EventEffect t s c s') :
    ∃ entries, s'.journal = s.journal ++ entries ∧ ∀ u e,
      (⟨u,.insertedEvent e⟩ : Entry) ∈ entries → u = t ∧
        ∃ event now uuid, c = .createEvent event ∧ e = event.beforeCreate now uuid := by
  cases h with
  | quiet acts _ hj hq =>
    refine ⟨_,hj,fun u e he => ?_⟩
    obtain ⟨a,ha,heq⟩ := List.mem_map.mp he
    cases heq
    exact (hq _ ha).elim
  | insert event now uuid hfree =>
    refine ⟨_,rfl,fun u e he => ?_⟩
    cases List.mem_singleton.mp he
    exact ⟨rfl,event,now,uuid,rfl,rfl⟩
  | save event now => exact ⟨_,rfl,fun u e he => nomatch List.mem_singleton.mp he⟩
  | purge => exact ⟨_,rfl,fun u e he => nomatch List.mem_singleton.mp he⟩
  | retire cutoff date now picked hp =>
    exact ⟨_,rfl,fun u e he => nomatch List.mem_singleton.mp he⟩

end Effects

end Maestro
