import Maestro.Api.Reference
import Maestro.Controllers.UndeliveredDetector
import Maestro.Data.Search
import Maestro.Server.Operations

/-!
# The detector does not flood

The runs of any number of detectors, interleaved with the handling and the purging of events
and with other sessions. A detector inserts under its lock and only for what its query found,
and from the query on no other detector inserts.
-/

namespace Maestro
open Data Concurrent

section Query

/-- The conditions of the query, on the tables as they were read. -/
structure UndeliveredQuery.Undelivered (q : UndeliveredQuery) (row : ResourceRow) : Prop where
  stored : row ∈ q.resources
  live : row.deletedAt = none
  silent : row.status = none
  old : row.createdAt < q.cutoff
  consumer : ∃ c ∈ q.consumers, c.name = row.consumerName ∧ c.deletedAt = none
  handled : ∀ e ∈ q.events, e.source = "Resources" → e.sourceID = row.id →
    e.reconciledDate.isSome

/-- The event re-publishes the resource. -/
def Republishes (row : ResourceRow) (e : Event) : Prop :=
  e.source = "Resources" ∧ e.sourceID = row.id ∧
    e.eventType = if row.version > 1 then .update else .create

theorem republishes_beforeCreate (row : ResourceRow) (now : Time) (uuid : String) :
    Republishes row ((republishEvent row.scan).beforeCreate now uuid) :=
  ⟨rfl,rfl,rfl⟩

theorem hasUnreconciled_eq_false {events : List Event} {id : String} :
    hasUnreconciled events id = false ↔ ∀ e ∈ events, e.source = "Resources" →
      e.sourceID = id → e.reconciledDate.isSome := by
  simp only [hasUnreconciled,List.any_eq_false,decide_eq_true_eq,not_and,
    Option.isSome_iff_ne_none]
  exact ⟨fun h e he hs hid => h e he hid hs,fun h e he hid hs => h e he hs hid⟩

theorem mem_undeliveredRows {q : UndeliveredQuery} {row : ResourceRow} :
    row ∈ undeliveredRows q.resources q.consumers q.events q.cutoff ↔ q.Undelivered row := by
  simp only [undeliveredRows,List.mem_filter,List.mem_flatMap,List.mem_map,decide_eq_true_eq,
    hasUnreconciled_eq_false]
  constructor
  · rintro ⟨⟨row',hrow,c,⟨hc,hname⟩,rfl⟩,hl,hs,ho,hh⟩
    exact ⟨hrow,hl,hs,ho,⟨c,hc,hname⟩,hh⟩
  · rintro ⟨hrow,hl,hs,ho,⟨c,hc,hname⟩,hh⟩
    exact ⟨⟨row,hrow,c,⟨hc,hname⟩,rfl⟩,hl,hs,ho,hh⟩

/-- Names of consumers are unique, so the join gives each resource at most once. -/
theorem undeliveredRows_sublist {resources : List ResourceRow} (consumers : Table ConsumerRow.name)
    {events : List Event} {cutoff : Time} :
    (undeliveredRows resources consumers.rows events cutoff).Sublist resources := by
  refine List.filter_sublist.trans (flatMap_sublist fun row => ?_)
  let p : ConsumerRow → Bool := fun c => c.name = row.consumerName ∧ c.deletedAt = none
  have hnames : (consumers.rows.filter p).map ConsumerRow.name =
      List.replicate (consumers.rows.filter p).length row.consumerName := by
    refine List.eq_replicate_iff.mpr ⟨List.length_map _,fun name hname => ?_⟩
    obtain ⟨c,hc,rfl⟩ := List.mem_map.mp hname
    exact (of_decide_eq_true (List.mem_filter.mp hc).2).1
  have hone : (consumers.rows.filter p).length ≤ 1 := by
    have hnodup := (consumers.filter p).nodup
    change ((consumers.rows.filter p).map ConsumerRow.name).Nodup at hnodup
    rw [hnames] at hnodup
    exact List.nodup_replicate.mp hnodup
  rw [List.map_const']
  exact List.replicate_sublist_replicate row |>.mpr hone

end Query

section Steps

variable {n : ℕ} {tasks : Fin n → DetectorTask} {i j : Fin n} {ch : DetectorChoice}
  {c : Call ⊕ DetectorCall} {s s' : DetectorStore} {r : Sum.elim Call.Resp DetectorCall.Resp c}

theorem detectorPool_inl {c : Call} {r : c.Resp}
    (hx : detectorPool n j ch (.inl c) s = some (r,s')) :
    exec j ch.base c s.state = some (r,s'.state) ∧ s' = s.after j ch.base c s'.state ∧
      ownUnlock j s.state c = true := by
  change (if ownUnlock j s.state c = true then _ else _) = _ at hx
  split at hx
  · next hown =>
    obtain ⟨p,hp,he⟩ := Option.map_eq_some_iff.mp hx
    cases he
    exact ⟨hp,rfl,hown⟩
  · cases hx

/-- A statement of the detector is refused, or it is carried out. -/
theorem detectorPool_inr_cases {c : DetectorCall} {r : c.Resp}
    (hx : detectorPool n j ch (.inr c) s = some (r,s')) :
    (∃ err, r = c.failure err ∧ s' = s) ∨ detectorCommit j ch c s = some (r,s') := by
  change detectorExec j ch (.inr c) s = _ at hx
  cases hfault : ch.fault with
  | some err =>
    simp only [detectorExec,hfault] at hx
    cases hx
    exact Or.inl ⟨err,rfl,rfl⟩
  | none =>
    simp only [detectorExec,hfault] at hx
    exact Or.inr hx

theorem detectorPool_inr {c : DetectorCall} {r : c.Resp}
    (hx : detectorPool n j ch (.inr c) s = some (r,s')) :
    s'.state = s.state ∧ s'.clock = s.clock ∧ s'.refused = s.refused ∧
      (s'.queries = s.queries ∨ ∃ cutoff, c = .findUndelivered cutoff ∧
        (s.query j ch cutoff).found.Perm (undeliveredRows s.state.resources.rows s.consumers.rows
          s.state.events.rows cutoff) ∧ s'.queries = s.queries ++ [s.query j ch cutoff]) := by
  rcases detectorPool_inr_cases hx with ⟨err,rfl,rfl⟩ | hx
  · exact ⟨rfl,rfl,rfl,Or.inl rfl⟩
  · cases c with
    | findUndelivered cutoff =>
      simp only [detectorCommit] at hx
      split at hx
      · next hperm =>
        cases hx
        exact ⟨rfl,rfl,rfl,Or.inr ⟨cutoff,rfl,hperm,rfl⟩⟩
      · cases hx
    | saveConsumer row => cases hx; exact ⟨rfl,rfl,rfl,Or.inl rfl⟩
    | deleteConsumer name => cases hx; exact ⟨rfl,rfl,rfl,Or.inl rfl⟩

theorem detectorPool_answers (hx : detectorPool n j ch c s = some (r,s')) :
    DetectorAnswers c r := by
  cases c with
  | inl c => exact exec_answers (detectorPool_inl hx).1
  | inr c => trivial

theorem detectorPool_pending {detects : ℕ → Bool} (hc : savesReconciled c)
    (hx : detectorPool n j ch c s = some (r,s')) :
    (∀ e, s'.state.Pending detects e → s.state.Pending detects e) ∨
      ∃ event now uuid, c = .inl (.createEvent event) ∧ detects j = true ∧ ∀ e,
        s'.state.Pending detects e → s.state.Pending detects e ∨
          e = event.beforeCreate now uuid := by
  cases c with
  | inl c =>
    refine ((exec_eventEffect (detectorPool_inl hx).1).pending hc).imp_right ?_
    rintro ⟨event,now,uuid,rfl,hnew⟩
    exact ⟨event,now,uuid,rfl,hnew⟩
  | inr c =>
    rw [(detectorPool_inr hx).1]
    exact Or.inl fun _ he => he

theorem detectorPool_inserts (hx : detectorPool n j ch c s = some (r,s')) (u : ℕ) :
    insertsOf u s'.state.journal = insertsOf u s.state.journal ∨
      ∃ event now uuid, c = .inl (.createEvent event) ∧ u = j ∧
        insertsOf u s'.state.journal =
          insertsOf u s.state.journal ++ [event.beforeCreate now uuid] := by
  cases c with
  | inl c =>
    refine ((exec_eventEffect (detectorPool_inl hx).1).inserts u).imp_right ?_
    rintro ⟨event,now,uuid,rfl,hnew⟩
    exact ⟨event,now,uuid,rfl,hnew⟩
  | inr c =>
    rw [(detectorPool_inr hx).1]
    exact Or.inl rfl

theorem detectorPool_journal (hx : detectorPool n j ch c s = some (r,s')) :
    ∃ entries, s'.state.journal = s.state.journal ++ entries ∧ ∀ u e,
      (⟨u,.insertedEvent e⟩ : Entry) ∈ entries → u = j ∧
        ∃ event now uuid, c = .inl (.createEvent event) ∧ e = event.beforeCreate now uuid := by
  cases c with
  | inl c =>
    obtain ⟨entries,hj,hnew⟩ := (exec_eventEffect (detectorPool_inl hx).1).journal
    refine ⟨entries,hj,fun u e he => (hnew u e he).imp_right ?_⟩
    rintro ⟨event,now,uuid,rfl,he⟩
    exact ⟨event,now,uuid,rfl,he⟩
  | inr c =>
    refine ⟨[],?_,fun u e he => nomatch he⟩
    rw [(detectorPool_inr hx).1,List.append_nil]

theorem detectorPool_queries (hx : detectorPool n j ch c s = some (r,s')) :
    s'.queries = s.queries ∨ ∃ cutoff, c = .inr (.findUndelivered cutoff) ∧
      (s.query j ch cutoff).found.Perm (undeliveredRows s.state.resources.rows s.consumers.rows
        s.state.events.rows cutoff) ∧ s'.queries = s.queries ++ [s.query j ch cutoff] := by
  cases c with
  | inl c =>
    rw [(detectorPool_inl hx).2.1]
    exact Or.inl rfl
  | inr c =>
    refine (detectorPool_inr hx).2.2.2.imp_right ?_
    rintro ⟨cutoff,rfl,hq⟩
    exact ⟨cutoff,rfl,hq⟩

theorem detectorPool_refused (hx : detectorPool n j ch c s = some (r,s')) {t : ℕ}
    (ht : t ∈ s.refused) : t ∈ s'.refused := by
  cases c with
  | inl c =>
    rw [(detectorPool_inl hx).2.1]
    dsimp only [DetectorStore.after]
    split
    · split
      · exact List.mem_append_left _ ht
      · exact ht
    · exact ht
  | inr c =>
    rw [(detectorPool_inr hx).2.2.1]
    exact ht

theorem detectorPool_clock (hx : detectorPool n j ch c s = some (r,s')) {reading : ℕ × Time}
    (ht : reading ∈ s.clock) : reading ∈ s'.clock := by
  cases c with
  | inl c =>
    rw [(detectorPool_inl hx).2.1]
    dsimp only [DetectorStore.after]
    split
    · exact List.mem_append_left _ ht
    · exact ht
  | inr c =>
    rw [(detectorPool_inr hx).2.1]
    exact ht

/-- The lock is kept by all calls but the session's own unlock. -/
theorem detectorPool_hasLock {key : String} {lockType : LockType}
    (hx : detectorPool n j ch c s = some (r,s')) (hc : j ≠ i ∨ ∀ uuid, c ≠ .inl (.unlock uuid))
    (h : s.state.HasLock i key lockType) : s'.state.HasLock i key lockType := by
  cases c with
  | inl c =>
    obtain ⟨hx,-,hown⟩ := detectorPool_inl hx
    refine h.exec hx ?_
    rintro uuid rfl l hl hu
    have hj := hc.resolve_right fun hne => hne uuid rfl
    rw [of_decide_eq_true (List.all_eq_true.mp hown l hl) hu]
    exact val_ne hj
  | inr c =>
    rw [(detectorPool_inr hx).1]
    exact h

end Steps

/-- What the sessions may do: events are saved as reconciled. A detector queries once, with a
cutoff of its clock. It inserts under the lock, for a resource that its query found and that
no detector has an unreconciled event for. -/
def detectorRule {n : ℕ} (tasks : Fin n → DetectorTask) (j : Fin n) (c : Call ⊕ DetectorCall)
    (s : DetectorStore) : Prop :=
  savesReconciled c ∧ ∀ threshold, tasks j = .detect threshold → match c with
    | .inl (.createEvent event) =>
      s.state.HasLock j undeliveredCheck .instances ∧
      (∀ e, s.state.Pending (detectors tasks) e → e.sourceID ≠ event.sourceID) ∧
      ∃ q ∈ s.queries, q.session = j ∧ q.position ≤ s.state.journal.length ∧
        ∃ row ∈ q.found, event = republishEvent row.scan
    | .inr (.findUndelivered cutoff) =>
      (∀ q ∈ s.queries, q.session ≠ j) ∧ ((j : ℕ),cutoff + threshold) ∈ s.clock
    | _ => True

/-- What holds in every state. -/
structure DetectorStore.Sound {n : ℕ} (tasks : Fin n → DetectorTask) (s : DetectorStore) :
    Prop where
  source : ∀ e, s.state.Pending (detectors tasks) e → e.source = "Resources"
  unique : ∀ e₁ e₂, s.state.Pending (detectors tasks) e₁ →
    s.state.Pending (detectors tasks) e₂ → e₁.sourceID = e₂.sourceID → e₁ = e₂
  origin : ∀ i threshold, tasks i = .detect threshold → ∀ pre e post,
    s.state.journal = pre ++ ⟨i,.insertedEvent e⟩ :: post →
    ∃ q ∈ s.queries, q.session = i ∧ q.position ≤ pre.length ∧ ∃ row ∈ q.found, Republishes row e
  found : ∀ q ∈ s.queries,
    q.found.Perm (undeliveredRows q.resources q.consumers q.events q.cutoff) ∧
    (q.found.map ResourceRow.id).Nodup
  read : ∀ i threshold, tasks i = .detect threshold → ∀ q ∈ s.queries, q.session = i →
    ((i : ℕ),q.cutoff + threshold) ∈ s.clock

section Invariant

variable {n : ℕ} {tasks : Fin n → DetectorTask} {i j : Fin n} {ch : DetectorChoice}
  {c : Call ⊕ DetectorCall} {s s' : DetectorStore} {r : Sum.elim Call.Resp DetectorCall.Resp c}

theorem exists_detect (h : detectors tasks j = true) : ∃ threshold, tasks j = .detect threshold := by
  rw [detectors_val] at h
  cases htask : tasks j with
  | detect threshold => exact ⟨threshold,rfl⟩
  | handle | purge | other => rw [htask] at h; cases h

/-- A new event of a detector is the only one of its resource. -/
theorem pending_new (ha : detectorRule tasks j c s)
    (hx : detectorPool n j ch c s = some (r,s')) :
    (∀ e, s'.state.Pending (detectors tasks) e → s.state.Pending (detectors tasks) e) ∨
      ∃ event now uuid, c = .inl (.createEvent event) ∧ event.source = "Resources" ∧
        s.state.HasLock j undeliveredCheck .instances ∧
        (∀ e, s.state.Pending (detectors tasks) e → e.sourceID ≠ event.sourceID) ∧
        ∀ e, s'.state.Pending (detectors tasks) e →
          s.state.Pending (detectors tasks) e ∨ e = event.beforeCreate now uuid := by
  refine (detectorPool_pending ha.1 hx).imp_right ?_
  rintro ⟨event,now,uuid,rfl,hj,hnew⟩
  obtain ⟨threshold,htask⟩ := exists_detect hj
  obtain ⟨hl,hfree,-,-,-,-,row,-,rfl⟩ := ha.2 threshold htask
  exact ⟨_,now,uuid,rfl,rfl,hl,hfree,hnew⟩

theorem mem_queries (hx : detectorPool n j ch c s = some (r,s')) {q : UndeliveredQuery}
    (hq : q ∈ s.queries) : q ∈ s'.queries := by
  rcases detectorPool_queries hx with he | ⟨cutoff,-,-,he⟩ <;> rw [he]
  · exact hq
  · exact List.mem_append_left _ hq

theorem query_nodup (s : DetectorStore) (t : ℕ) (ch : DetectorChoice) (cutoff : Time)
    (h : (s.query t ch cutoff).found.Perm (undeliveredRows s.state.resources.rows s.consumers.rows
      s.state.events.rows cutoff)) : ((s.query t ch cutoff).found.map ResourceRow.id).Nodup :=
  (h.map _).nodup_iff.mpr
    (s.state.resources.nodup.sublist ((undeliveredRows_sublist s.consumers).map _))

theorem kept_detectorSound : Kept (detectorPool n) (detectorRule tasks) (DetectorStore.Sound tasks) := by
  intro j ch c s r s' ha hx hs
  refine ⟨fun e he => ?_,fun e₁ e₂ h₁ h₂ hid => ?_,fun i threshold htask pre e post hj => ?_,
    fun q hq => ?_,fun i threshold htask q hq hi => ?_⟩
  · rcases pending_new ha hx with hold | ⟨event,now,uuid,-,hnew,-,-,hstep⟩
    · exact hs.source e (hold e he)
    · rcases hstep e he with he | rfl
      · exact hs.source e he
      · exact hnew
  · rcases pending_new ha hx with hold | ⟨event,now,uuid,-,-,-,hfree,hstep⟩
    · exact hs.unique e₁ e₂ (hold e₁ h₁) (hold e₂ h₂) hid
    · rcases hstep e₁ h₁ with h₁ | rfl <;> rcases hstep e₂ h₂ with h₂ | rfl
      · exact hs.unique e₁ e₂ h₁ h₂ hid
      · exact absurd hid (hfree e₁ h₁)
      · exact absurd hid.symm (hfree e₂ h₂)
      · rfl
  · obtain ⟨entries,hent,hnew⟩ := detectorPool_journal hx
    rw [hent] at hj
    rcases append_split hj with ⟨rest,hold,-⟩ | ⟨mid,hmid,rfl⟩
    · obtain ⟨q,hq,hi,hpos,hrow⟩ := hs.origin i threshold htask pre e rest hold
      exact ⟨q,mem_queries hx hq,hi,hpos,hrow⟩
    · obtain ⟨hi,event,now,uuid,rfl,rfl⟩ := hnew i e (hmid ▸ by simp)
      cases Fin.ext hi
      obtain ⟨-,-,q,hq,hj',hpos,row,hrow,rfl⟩ := ha.2 threshold htask
      refine ⟨q,mem_queries hx hq,hj',?_,row,hrow,republishes_beforeCreate row now uuid⟩
      rw [List.length_append]
      omega
  · rcases detectorPool_queries hx with he | ⟨cutoff,-,hperm,he⟩ <;> rw [he] at hq
    · exact hs.found q hq
    · rcases List.mem_append.mp hq with hq | hq
      · exact hs.found q hq
      · rw [List.mem_singleton.mp hq]
        exact ⟨hperm,query_nodup s j ch cutoff hperm⟩
  · rcases detectorPool_queries hx with he | ⟨cutoff,rfl,-,he⟩ <;> rw [he] at hq
    · exact detectorPool_clock hx (hs.read i threshold htask q hq hi)
    · rcases List.mem_append.mp hq with hq | hq
      · exact detectorPool_clock hx (hs.read i threshold htask q hq hi)
      · rw [List.mem_singleton.mp hq] at hi ⊢
        cases Fin.ext hi
        exact detectorPool_clock hx (ha.2 threshold htask).2

end Invariant

/-- Calls that neither query nor write events. -/
def detectorIdle : Call ⊕ DetectorCall → Prop
  | .inl (.createEvent _) | .inl (.saveEvent _) | .inr (.findUndelivered _) => False
  | _ => True

/-- The session has not queried and not inserted. -/
def DetectorStore.Waiting (s : DetectorStore) (i : ℕ) : Prop :=
  (∀ q ∈ s.queries, q.session ≠ i) ∧ insertsOf i s.state.journal = []

/-- What the query of the session found is served, unless an insert was refused. -/
def DetectorStore.Served (s : DetectorStore) (i : ℕ) : Prop :=
  ∀ q ∈ s.queries, q.session = i →
    i ∈ s.refused ∨ List.Forall₂ Republishes q.found (insertsOf i s.state.journal)

/-- The loop of the session: it has served the resources `done` of its query, and no detector
has an unreconciled event for the others. -/
structure DetectorStore.Republishing {n : ℕ} (tasks : Fin n → DetectorTask) (i : Fin n)
    (q : UndeliveredQuery) (done rest : List ResourceRow) (s : DetectorStore) : Prop where
  lock : s.state.HasLock i undeliveredCheck .instances
  query : q ∈ s.queries
  session : q.session = i
  only : ∀ q' ∈ s.queries, q'.session = i → q' = q
  position : q.position ≤ s.state.journal.length
  nodup : (q.found.map ResourceRow.id).Nodup
  found : q.found = done ++ rest
  free : ∀ row ∈ rest, ∀ e, s.state.Pending (detectors tasks) e → e.sourceID ≠ row.id
  inserted : (i : ℕ) ∈ s.refused ∨ List.Forall₂ Republishes done (insertsOf i s.state.journal)

section Outline

variable {n : ℕ} {tasks : Fin n → DetectorTask} {i j : Fin n} {ch : DetectorChoice}
  {c : Call ⊕ DetectorCall} {s s' : DetectorStore} {r : Sum.elim Call.Resp DetectorCall.Resp c}
  {q : UndeliveredQuery} {done rest : List ResourceRow} {threshold : Time}

theorem detectorRule_of_idle (hc : detectorIdle c) : detectorRule tasks j c s := by
  match c, hc with
  | .inl c, hc => cases c <;> first | exact hc.elim | exact ⟨trivial,fun _ _ => trivial⟩
  | .inr c, hc => cases c <;> first | exact hc.elim | exact ⟨trivial,fun _ _ => trivial⟩

theorem inserts_step (hx : detectorPool n j ch c s = some (r,s')) (hc : j ≠ i ∨ detectorIdle c) :
    insertsOf i s'.state.journal = insertsOf i s.state.journal := by
  rcases detectorPool_inserts hx i with he | ⟨event,now,uuid,rfl,hi,-⟩
  · exact he
  · exact (hc.resolve_left fun hj => val_ne hj hi.symm).elim

theorem queries_step (hx : detectorPool n j ch c s = some (r,s')) (hc : j ≠ i ∨ detectorIdle c)
    (hq : q ∈ s'.queries) (hi : q.session = i) : q ∈ s.queries := by
  rcases detectorPool_queries hx with he | ⟨cutoff,rfl,-,he⟩ <;> rw [he] at hq
  · exact hq
  · refine (List.mem_append.mp hq).resolve_right fun hnew => ?_
    rw [List.mem_singleton.mp hnew] at hi
    exact (hc.resolve_left fun hj => val_ne hj hi).elim

theorem DetectorStore.Waiting.step (hx : detectorPool n j ch c s = some (r,s'))
    (hc : j ≠ i ∨ detectorIdle c) (h : s.Waiting i) : s'.Waiting i :=
  ⟨fun q hq hi => h.1 q (queries_step hx hc hq hi) hi,(inserts_step hx hc).trans h.2⟩

theorem DetectorStore.Served.step (hx : detectorPool n j ch c s = some (r,s'))
    (hc : j ≠ i ∨ detectorIdle c) (h : s.Served i) : s'.Served i := by
  intro q hq hi
  rw [inserts_step hx hc]
  exact (h q (queries_step hx hc hq hi) hi).imp_left (detectorPool_refused hx)

theorem DetectorStore.Waiting.served (h : s.Waiting i) : s.Served i :=
  fun q hq hi => absurd hi (h.1 q hq)

theorem journal_length (hx : detectorPool n j ch c s = some (r,s')) :
    s.state.journal.length ≤ s'.state.journal.length := by
  obtain ⟨entries,hj,-⟩ := detectorPool_journal hx
  rw [hj,List.length_append]
  omega

theorem DetectorStore.Republishing.step (ha : detectorRule tasks j c s)
    (hx : detectorPool n j ch c s = some (r,s'))
    (hc : j ≠ i ∨ detectorIdle c ∧ ∀ uuid, c ≠ .inl (.unlock uuid))
    (h : Republishing tasks i q done rest s) : Republishing tasks i q done rest s' where
  lock := detectorPool_hasLock hx (hc.imp_right And.right) h.lock
  query := mem_queries hx h.query
  session := h.session
  only q' hq' hi := h.only q' (queries_step hx (hc.imp_right And.left) hq' hi) hi
  position := h.position.trans (journal_length hx)
  nodup := h.nodup
  found := h.found
  free row hrow e he := by
    rcases pending_new ha hx with hold | ⟨event,now,uuid,rfl,-,hl,-⟩
    · exact h.free row hrow e (hold e he)
    · -- another detector would need the lock as well
      have hj := hc.resolve_right fun hidle => hidle.1
      exact absurd (hl.exclusive h.lock) (val_ne hj)
  inserted := by
    rw [inserts_step hx (hc.imp_right And.left)]
    exact h.inserted.imp_left (detectorPool_refused hx)

theorem DetectorStore.Republishing.create {row : ResourceRow}
    {r : Except DbErr Event} (h : Republishing tasks i q done (row :: rest) s)
    (hx : detectorPool n i ch (.inl (.createEvent (republishEvent row.scan))) s = some (r,s')) :
    Republishing tasks i q (done ++ [row]) rest s' where
  lock := detectorPool_hasLock hx (Or.inr fun _ => by simp) h.lock
  query := mem_queries hx h.query
  session := h.session
  only q' hq' hi := by
    rw [(detectorPool_inl hx).2.1] at hq'
    exact h.only q' hq' hi
  position := h.position.trans (journal_length hx)
  nodup := h.nodup
  found := by rw [h.found,List.append_assoc,List.singleton_append]
  free row' hrow' e he := by
    have hsaves : savesReconciled (.inl (.createEvent (republishEvent row.scan))) := trivial
    rcases detectorPool_pending hsaves hx with hold | ⟨event,now,uuid,hev,-,hnew⟩
    · exact h.free row' (List.mem_cons_of_mem _ hrow') e (hold e he)
    · rcases hnew e he with hold | rfl
      · exact h.free row' (List.mem_cons_of_mem _ hrow') e hold
      · -- the other resources that were found have other IDs
        cases hev
        have hn := h.nodup
        rw [h.found,List.map_append,List.map_cons] at hn
        have hrow := (List.nodup_cons.mp (List.nodup_append.mp hn).2.1).1
        intro hid
        have hid : row.id = row'.id := hid
        rw [hid] at hrow
        exact hrow (List.mem_map_of_mem hrow')
  inserted := by
    obtain ⟨hexec,hafter,-⟩ := detectorPool_inl hx
    rcases exec_cases hexec with ⟨err,hfault,-,-⟩ | ⟨-,hc⟩
    · refine Or.inl ?_
      rw [hafter]
      simp [DetectorStore.after,hfault]
    · obtain ⟨hfree,-,hs'⟩ := commit_createEvent hc
      refine h.inserted.imp (detectorPool_refused hx) fun hdone => ?_
      have hj : insertsOf i s'.state.journal = insertsOf i s.state.journal ++
          [(republishEvent row.scan).beforeCreate ch.base.now ch.base.uuid] := by
        rw [hs']
        exact (insertsOf_append _ _ _).trans (by simp [insertsOf])
      rw [hj]
      exact List.rel_append hdone (.cons (republishes_beforeCreate row _ _) .nil)

theorem stable_detectorSound : Stable (detectorPool n) (detectorRule tasks) i
    (DetectorStore.Sound tasks) := kept_detectorSound.stable i

theorem stable_waiting : Stable (detectorPool n) (detectorRule tasks) i fun s => s.Waiting i :=
  fun _ hj _ _ _ _ _ _ hx h => h.step hx (Or.inl hj)

theorem stable_served : Stable (detectorPool n) (detectorRule tasks) i fun s => s.Served i :=
  fun _ hj _ _ _ _ _ _ hx h => h.step hx (Or.inl hj)

theorem stable_detectorLock : Stable (detectorPool n) (detectorRule tasks) i
    fun s => s.state.HasLock i undeliveredCheck .instances :=
  fun _ hj _ _ _ _ _ _ hx h => detectorPool_hasLock hx (Or.inl hj) h

theorem stable_republishing : Stable (detectorPool n) (detectorRule tasks) i
    (DetectorStore.Republishing tasks i q done rest) :=
  fun _ hj _ _ _ _ _ ha hx h => h.step ha hx (Or.inl hj)

theorem safe_detectorUnlock (owner : String) : Safe (detectorPool n) (detectorRule tasks) i
    (fun _ s => s.Served i) ((unlock owner).inl >>= fun _ => (.ret () : DetectorM Unit))
    fun s => s.Served i := by
  have hcalls : ((unlock owner).inl : DetectorM Unit).Calls DetectorAnswers detectorIdle
      fun _ => True := by
    unfold unlock
    split
    · trivial
    · exact ⟨trivial,fun _ _ => trivial⟩
  refine Safe.bind (Safe.of_own (fun _ _ _ _ _ hx => detectorPool_answers hx) stable_served
    (fun _ _ hc _ => detectorRule_of_idle hc) (fun _ _ _ _ _ hc hx h => h.step hx (Or.inr hc))
    hcalls) fun _ => Safe.ret fun _ h => h.1

/-- The call of `Create` that inserts, and what follows it. -/
theorem create_eq (event : Event) : ∃ k, EventService.create event = .call (.createEvent event) k ∧
    ∀ r, (k r).Calls Answers
      (fun c => (∃ channel id, c = .notify channel id) ∨ ∃ err, c = .markForRollback err)
      fun _ => True := by
  refine ⟨_,rfl,fun r => ?_⟩
  cases r with
  | error err => exact ⟨Or.inr ⟨err,rfl⟩,fun _ _ => trivial⟩
  | ok e =>
    refine ⟨Or.inl ⟨"events",e.id,rfl⟩,fun r _ => ?_⟩
    cases r <;> trivial

theorem safe_republishOne (row : ResourceRow) :
    Safe (detectorPool n) (detectorRule tasks) i
      (fun _ => DetectorStore.Republishing tasks i q (done ++ [row]) rest)
      ((EventService.create (republishEvent row.scan)).inl : DetectorM _)
      (DetectorStore.Republishing tasks i q done (row :: rest)) := by
  obtain ⟨k,hk,hcalls⟩ := create_eq (republishEvent row.scan)
  rw [hk]
  refine Safe.call fun s h => ⟨⟨trivial,fun _ _ => ?_⟩,fun ch r s' hx => ?_⟩
  · refine ⟨h.lock,h.free row List.mem_cons_self,q,h.query,h.session,h.position,row,?_,rfl⟩
    rw [h.found]
    simp
  · have hquiet : (k r).inl.Calls DetectorAnswers
        (fun c => detectorIdle c ∧ ∀ uuid, c ≠ .inl (.unlock uuid)) fun _ => True := by
      refine (hcalls r).inl (fun _ _ hr => hr) ?_
      rintro c (⟨channel,id,rfl⟩ | ⟨err,rfl⟩) <;> exact ⟨trivial,fun _ => by simp⟩
    refine ⟨_,stable_republishing,h.create hx,?_⟩
    refine (Safe.of_own (fun _ _ _ _ _ hx => detectorPool_answers hx) stable_republishing
      (fun _ _ hc _ => detectorRule_of_idle hc.1)
      (fun _ _ _ _ _ hc hx h => h.step (detectorRule_of_idle hc.1) hx (Or.inr hc))
      hquiet).weaken (fun _ h => h) fun _ _ h => h.1

/-- The loop, by induction on the resources that are left. -/
theorem safe_republishLoop :
    Safe (detectorPool n) (detectorRule tasks) i (fun _ s => s.Served i)
      (republish (rest.map ResourceRow.scan))
      (DetectorStore.Republishing tasks i q done rest) := by
  induction rest generalizing done with
  | nil =>
    refine Safe.ret fun s h q' hq' hi => ?_
    rw [h.only q' hq' hi,h.found,List.append_nil]
    exact h.inserted
  | cons row rest ih => exact (safe_republishOne row).bind fun _ => ih

/-- The query is refused, or it answers what it found and is recorded. -/
theorem findUndelivered_cases {cutoff : Time} {r : Except DbErr (List Resource)}
    (hx : detectorPool n i ch (.inr (.findUndelivered cutoff)) s = some (r,s')) :
    (∃ err, r = .error err ∧ s' = s) ∨
      r = .ok ((s.query i ch cutoff).found.map ResourceRow.scan) ∧
      (s.query i ch cutoff).found.Perm (undeliveredRows s.state.resources.rows s.consumers.rows
        s.state.events.rows cutoff) ∧
      s' = { s with queries := s.queries ++ [s.query i ch cutoff] } := by
  rcases detectorPool_inr_cases hx with ⟨err,rfl,rfl⟩ | hx
  · exact Or.inl ⟨err,rfl,rfl⟩
  · simp only [detectorCommit] at hx
    split at hx
    · next hperm =>
      cases hx
      exact Or.inr ⟨rfl,hperm,rfl⟩
    · cases hx

/-- After the query no detector has an unreconciled event of what was found. -/
theorem republishing_of_query (hs : s.Sound tasks) (hw : s.Waiting i)
    (hl : s.state.HasLock i undeliveredCheck .instances) {cutoff : Time}
    (hperm : (s.query i ch cutoff).found.Perm (undeliveredRows s.state.resources.rows
      s.consumers.rows s.state.events.rows cutoff)) :
    DetectorStore.Republishing tasks i (s.query i ch cutoff) [] (s.query i ch cutoff).found
      { s with queries := s.queries ++ [s.query i ch cutoff] } where
  lock := hl
  query := List.mem_append_right _ (List.mem_singleton_self _)
  session := rfl
  only q' hq' hi := by
    rcases List.mem_append.mp hq' with hold | hnew
    · exact absurd hi (hw.1 q' hold)
    · exact List.mem_singleton.mp hnew
  position := le_refl _
  nodup := query_nodup s i ch cutoff hperm
  found := rfl
  free row hrow e he hid := by
    have hrow := (mem_undeliveredRows (q := s.query i ch cutoff)).mp (hperm.mem_iff.mp hrow)
    have hdone := hrow.handled e he.1 (hs.source e he) hid
    rw [he.2.1] at hdone
    cases hdone
  inserted := by
    refine Or.inr ?_
    rw [hw.2]
    exact .nil

theorem safe_findUndelivered (htask : tasks i = .detect threshold) :
    Safe (detectorPool n) (detectorRule tasks) i
      (fun r s => match r with
        | .error _ => s.Waiting i
        | .ok resources => ∃ q, resources = q.found.map ResourceRow.scan ∧
            DetectorStore.Republishing tasks i q [] q.found s)
      (ResourceService.findUndelivered threshold)
      fun s => s.Sound tasks ∧ s.Waiting i ∧
        s.state.HasLock i undeliveredCheck .instances := by
  refine Safe.call fun s ⟨hs,hw,hl⟩ => ⟨⟨trivial,fun _ _ => trivial⟩,
    fun ch (now : Time) s' hx => ?_⟩
  have hidle : detectorIdle (.inl .now) := trivial
  have hnow : ((i : ℕ),now) ∈ s'.clock := by
    obtain ⟨hexec,hafter,-⟩ := detectorPool_inl hx
    rcases exec_cases hexec with ⟨err,-,he,-⟩ | ⟨-,hc⟩
    · cases he
    · have hch : ch.base.now = now := congrArg Prod.fst (Option.some.inj hc)
      rw [hafter,← hch]
      exact List.mem_append_right _ (List.mem_singleton_self _)
  have hstable : Stable (detectorPool n) (detectorRule tasks) i
      fun s => ((i : ℕ),now) ∈ s.clock :=
    fun _ _ _ _ _ _ _ _ hx h => detectorPool_clock hx h
  refine ⟨_,(stable_detectorSound.and (stable_waiting.and stable_detectorLock)).and hstable,
    ⟨⟨kept_detectorSound i ch (.inl .now) s now s' (detectorRule_of_idle hidle) hx hs,
      hw.step hx (Or.inr hidle),detectorPool_hasLock hx (Or.inr fun _ => by simp) hl⟩,hnow⟩,?_⟩
  refine Safe.call fun s ⟨⟨hs,hw,hl⟩,hclock⟩ => ⟨⟨trivial,fun threshold' ht => ?_⟩,
    fun ch found s' hx => ?_⟩
  · cases htask.symm.trans ht
    exact ⟨hw.1,by rw [sub_add_cancel]; exact hclock⟩
  · rcases findUndelivered_cases hx with ⟨err,rfl,rfl⟩ | ⟨rfl,hperm,rfl⟩
    · exact ⟨_,stable_waiting,hw,Safe.ret fun s h => h⟩
    · exact ⟨_,stable_republishing,republishing_of_query hs hw hl hperm,
        Safe.ret fun s h => ⟨_,rfl,h⟩⟩

/-- The lock is held where it was acquired. -/
theorem newNonBlockingLock_acquired {key : String} {lockType : LockType}
    {r : String × Bool × Option DbErr}
    (hx : detectorPool n i ch (.inl (.newNonBlockingLock key lockType)) s = some (r,s'))
    (hr : r.2.1 = true) : s'.state.HasLock i key lockType := by
  rcases exec_cases (detectorPool_inl hx).1 with ⟨err,-,he,-⟩ | ⟨-,hc⟩
  · cases he
    cases hr
  · simp only [commit] at hc
    split at hc
    · simp only [Option.some.injEq,Prod.mk.injEq] at hc
      rw [← hc.1] at hr
      cases hr
    · obtain ⟨locks,hl,he⟩ := Option.map_eq_some_iff.mp hc
      simp only [Prod.mk.injEq] at he
      refine ⟨ch.base.uuid,?_⟩
      rw [← he.2]
      exact (LockTable.mem_acquire hl).mpr (Or.inl rfl)

theorem safe_detect (htask : tasks i = .detect threshold) :
    Safe (detectorPool n) (detectorRule tasks) i (fun _ s => s.Served i)
      (undeliveredDetectorRun threshold) fun s => s.Sound tasks ∧ s.Waiting i := by
  refine Safe.call fun s ⟨hs,hw⟩ => ⟨⟨trivial,fun _ _ => trivial⟩,
    fun ch (r : String × Bool × Option DbErr) s' hx => ?_⟩
  have hidle : detectorIdle (.inl (.newNonBlockingLock undeliveredCheck .instances)) := trivial
  have hs' : s'.Sound tasks :=
    kept_detectorSound i ch (.inl (.newNonBlockingLock undeliveredCheck .instances)) s r s'
      (detectorRule_of_idle hidle) hx hs
  have hw' := hw.step hx (Or.inr hidle)
  have hlock := newNonBlockingLock_acquired hx
  obtain ⟨owner,acquired,err⟩ := r
  -- without the lock nothing is done
  have hnothing : ∃ P, Stable (detectorPool n) (detectorRule tasks) i P ∧ P s' ∧
      Safe (detectorPool n) (detectorRule tasks) i (fun _ s => s.Served i)
        (Prog.deferring (unlock owner).inl (.ret ()) : DetectorM Unit) P :=
    ⟨_,stable_served,hw'.served,safe_detectorUnlock owner⟩
  match err, acquired with
  | some err, _ => exact hnothing
  | none, false => exact hnothing
  | none, true =>
    refine ⟨_,stable_detectorSound.and (stable_waiting.and stable_detectorLock),
      ⟨hs',hw',hlock rfl⟩,?_⟩
    change Safe _ _ i _ (Prog.deferring (unlock owner).inl
      (ResourceService.findUndelivered threshold >>= _)) _
    refine Safe.bind (Safe.bind (safe_findUndelivered htask) fun r => ?_)
      fun _ => safe_detectorUnlock owner
    match r with
    | .error err => exact Safe.ret fun s h => h.served
    | .ok resources =>
      refine Safe.exists fun q => Safe.of_fact ?_
      rintro rfl
      exact safe_republishLoop

/-- The sessions that run no detector. -/
theorem safe_orderly {α : Type} {p : DetectorM α} (hd : (tasks i).isDetect = false)
    (hp : p.Calls DetectorAnswers savesReconciled fun _ => True) :
    Safe (detectorPool n) (detectorRule tasks) i (fun _ _ => True) p fun _ => True := by
  refine (Safe.of_own (fun _ _ _ _ _ hx => detectorPool_answers hx) (Stable.const True)
    (fun c s hc _ => ⟨hc,fun threshold htask => ?_⟩) (fun _ _ _ _ _ _ _ _ => trivial) hp).weaken
    (fun _ h => h) fun _ _ _ => trivial
  rw [htask] at hd
  cases hd

theorem handle_savesReconciled {controllers : Controllers} {filter : EventFilter}
    (hc : controllers.Make Call.savesReconciled) (hf : filter.Make Call.savesReconciled)
    (id : String) :
    (handleEvent controllers filter id).Calls Answers Call.savesReconciled fun _ => True :=
  handleEvent_calls hf (processEvent_calls hc trivial trivial (fun _ => trivial) fun _ he => he)

theorem DetectorTask.Orderly.calls {task : DetectorTask} (h : task.Orderly)
    (hd : task.isDetect = false) :
    task.program.Calls DetectorAnswers savesReconciled fun _ => True := by
  have hinl : ∀ {α : Type} {p : M α}, p.Calls Answers Call.savesReconciled (fun _ => True) →
      ((fun _ => ()) <$> p.inl : DetectorM Unit).Calls DetectorAnswers savesReconciled
        fun _ => True := by
    intro α p hp
    rw [← bind_pure_comp]
    exact (hp.inl (fun _ _ hr => hr) fun _ hc => hc).bind fun _ _ => trivial
  cases task with
  | detect threshold => cases hd
  | handle controllers filter id => exact hinl (handle_savesReconciled h.1 h.2 id)
  | purge =>
    refine hinl (.lift_bind trivial fun r _ => ?_)
    cases r with
    | error err => exact ⟨trivial,fun _ _ => trivial⟩
    | ok u => trivial
  | other program => exact h

/-- Nothing was inserted and no detector has queried. -/
structure DetectorStore.Fresh (s : DetectorStore) : Prop where
  journal : s.state.journal = []
  queries : s.queries = []

theorem DetectorStore.Fresh.sound (h : s.Fresh) : s.Sound tasks := by
  have hpending : ∀ e, ¬ s.state.Pending (detectors tasks) e := by
    rintro e ⟨-,-,t,ht,-⟩
    rw [h.journal] at ht
    cases ht
  refine ⟨fun e he => absurd he (hpending e),fun e₁ _ he _ _ => absurd he (hpending e₁),
    fun i _ _ pre e post hj => ?_,fun q hq => ?_,fun _ _ _ q hq => ?_⟩
  · rw [h.journal] at hj
    simp at hj
  · rw [h.queries] at hq
    cases hq
  · rw [h.queries] at hq
    cases hq

theorem DetectorStore.Fresh.waiting (h : s.Fresh) : s.Waiting i := by
  refine ⟨fun q hq => ?_,by rw [h.journal]; rfl⟩
  rw [h.queries] at hq
  cases hq

theorem detectors_verified (horderly : ∀ i, (tasks i).Orderly) (hs : s.Fresh) :
    Verified (detectorPool n) (detectorRule tasks)
      (fun i _ s => (tasks i).isDetect = true → s.Served i)
      ⟨s,fun i => (tasks i).program⟩ := by
  intro i
  by_cases hd : (tasks i).isDetect = true
  · obtain ⟨threshold,htask⟩ := exists_detect ((detectors_val tasks i).trans hd)
    refine ⟨_,stable_detectorSound.and stable_waiting,⟨hs.sound,hs.waiting⟩,?_⟩
    change Safe _ _ i _ (tasks i).program _
    rw [htask]
    exact (safe_detect htask).weaken (fun _ h => h) fun _ _ h _ => h
  · have hd' := Bool.eq_false_iff.mpr hd
    exact ⟨_,.const True,trivial,
      (safe_orderly hd' ((horderly i).calls hd')).weaken (fun _ h => h) fun _ _ _ h => absurd h hd⟩

end Outline

/-- What the query read are the tables of the store. -/
structure UndeliveredQuery.ReadIn (q : UndeliveredQuery) (s : DetectorStore) : Prop where
  resources : q.resources = s.state.resources.rows
  events : q.events = s.state.events.rows
  consumers : q.consumers = s.consumers.rows
  position : q.position = s.state.journal.length

/-- The configuration in which a recorded query was made. -/
theorem exists_readIn {n : ℕ} {start cfg : Config (Fin n) DetectorStore _ _ Unit}
    (h : Reach (detectorPool n) start cfg) (hs : start.shared.queries = []) {q : UndeliveredQuery}
    (hq : q ∈ cfg.shared.queries) :
    ∃ before, Reach (detectorPool n) start before ∧ Reach (detectorPool n) before cfg ∧
      q.ReadIn before.shared := by
  induction h with
  | refl =>
    rw [hs] at hq
    cases hq
  | @tail cfg₁ cfg₂ h₁ hstep ih =>
    have hold : q ∈ cfg₁.shared.queries → ∃ before, Reach (detectorPool n) start before ∧
        Reach (detectorPool n) before cfg₂ ∧ q.ReadIn before.shared := by
      intro hmem
      obtain ⟨before,hb,hr,hread⟩ := ih hmem
      exact ⟨before,hb,hr.tail hstep,hread⟩
    obtain ⟨i,ch,ht,hx⟩ := hstep
    rcases detectorPool_queries hx with he | ⟨cutoff,-,-,he⟩ <;> rw [he] at hq
    · exact hold hq
    · rcases List.mem_append.mp hq with hq | hq
      · exact hold hq
      · rw [List.mem_singleton.mp hq]
        exact ⟨cfg₁,h₁,.single (.mk i ch ht hx),⟨rfl,rfl,rfl,rfl⟩⟩

/-- Where every resource found has its event, each has exactly one. -/
theorem exists_filter_eq {found : List ResourceRow} {inserts : List Event}
    (h : List.Forall₂ Republishes found inserts) (hn : (found.map ResourceRow.id).Nodup)
    {row : ResourceRow} (hrow : row ∈ found) :
    ∃ e, inserts.filter (fun e => e.sourceID = row.id) = [e] ∧ Republishes row e := by
  induction h with
  | nil => cases hrow
  | @cons row' e found inserts he hrest ih =>
    rw [List.map_cons,List.nodup_cons] at hn
    rcases List.mem_cons.mp hrow with rfl | hrow
    · refine ⟨e,?_,he⟩
      have hnone : inserts.filter (fun e => e.sourceID = row.id) = [] := by
        rw [List.filter_eq_nil_iff]
        intro e' he' hid
        obtain ⟨row',hrow',hr⟩ := exists_of_forall₂ (List.Forall₂.flip hrest) e' he'
        exact hn.1 (List.mem_map.mpr ⟨row',hrow',hr.2.1.symm.trans (of_decide_eq_true hid)⟩)
      rw [List.filter_cons,if_pos (decide_eq_true he.2.1),hnone]
    · obtain ⟨e',hfilter,he'⟩ := ih hn.2 hrow
      refine ⟨e',?_,he'⟩
      have hne : e.sourceID ≠ row.id := by
        intro hid
        exact hn.1 (List.mem_map.mpr ⟨row,hrow,hid.symm.trans he.2.1⟩)
      rw [List.filter_cons,if_neg (by simpa using hne),hfilter]

/-- A resource has at most one unreconciled event of a detector. A detector inserts an event only
for a resource that met the conditions when it queried before, and a run whose inserts all
succeed inserts exactly one event for each resource that met them. -/
theorem detector_events_bounded {n : ℕ} (tasks : Fin n → DetectorTask)
    (horderly : ∀ i, (tasks i).Orderly) {s₀ : DetectorStore} (h₀ : s₀.Fresh)
    {cfg : Config (Fin n) DetectorStore _ _ Unit}
    (hr : Reach (detectorPool n) ⟨s₀,fun i => (tasks i).program⟩ cfg) :
    (∀ e₁ e₂, cfg.shared.state.Pending (detectors tasks) e₁ →
      cfg.shared.state.Pending (detectors tasks) e₂ → e₁.sourceID = e₂.sourceID → e₁ = e₂) ∧
    ∀ i threshold, tasks i = .detect threshold →
      (∀ pre e post, cfg.shared.state.journal = pre ++ ⟨i,.insertedEvent e⟩ :: post →
        ∃ q ∈ cfg.shared.queries, q.session = i ∧ q.position ≤ pre.length ∧
          (∃ before, Reach (detectorPool n) ⟨s₀,fun i => (tasks i).program⟩ before ∧
            Reach (detectorPool n) before cfg ∧ q.ReadIn before.shared) ∧
          (∃ now, ((i : ℕ),now) ∈ cfg.shared.clock ∧ q.cutoff = now - threshold) ∧
          ∃ row, q.Undelivered row ∧ Republishes row e) ∧
      (cfg.threads i = .ret () → (i : ℕ) ∉ cfg.shared.refused →
        ∀ q ∈ cfg.shared.queries, q.session = i → ∀ row, q.Undelivered row → ∃ e,
          (insertsOf i cfg.shared.state.journal).filter (fun e => e.sourceID = row.id) = [e] ∧
          Republishes row e) := by
  have hv := detectors_verified horderly h₀
  have hs : cfg.shared.Sound tasks := hv.invariant kept_detectorSound hr h₀.sound
  refine ⟨hs.unique,fun i threshold htask => ⟨fun pre e post hj => ?_,
    fun hret hok q hq hi row hrow => ?_⟩⟩
  · obtain ⟨q,hq,hi,hpos,row,hrow,he⟩ := hs.origin i threshold htask pre e post hj
    exact ⟨q,hq,hi,hpos,exists_readIn hr h₀.queries hq,
      ⟨q.cutoff + threshold,hs.read i threshold htask q hq hi,(add_sub_cancel_right _ _).symm⟩,
      row,mem_undeliveredRows.mp ((hs.found q hq).1.mem_iff.mp hrow),he⟩
  · have hserved : cfg.shared.Served i := (hv.reach hr).result hret (by rw [htask]; rfl)
    exact exists_filter_eq ((hserved q hq hi).resolve_left hok) (hs.found q hq).2
      ((hs.found q hq).1.mem_iff.mpr (mem_undeliveredRows.mpr hrow))

/-- A resource of version 2 that nothing was heard of. -/
def silentRow : ResourceRow := { Reference.webRow with version := 2, createdAt := -100 }

/-- Two detectors, an instance that handles the event of the first, and a purge. -/
def silentTasks : Fin 4 → DetectorTask
  | 0 => .detect 10
  | 1 => .handle (sourceControllers Reference.packages) (.lockBased []) "uuid-3"
  | 2 => .purge
  | 3 => .detect 10

def silentStore : DetectorStore where
  state := .single silentRow
  consumers := ⟨[⟨"cluster",none⟩],by decide⟩

theorem silentTasks_orderly : ∀ i, (silentTasks i).Orderly
  | 0 => trivial
  | 1 => ⟨sourceControllers_make (fun _ => trivial) fun _ _ => trivial,
      lockBased_make (fun _ => trivial) fun _ => trivial⟩
  | 2 => trivial
  | 3 => trivial

/-- The sessions take turns, as in `turns`. -/
def detectorTurns {n : ℕ} (sessions : List (Fin n)) : List (Fin n × DetectorChoice) :=
  (turns sessions).map fun (i,ch) => (i,{ base := ch })

def silentStart : Config (Fin 4) DetectorStore (Call ⊕ DetectorCall)
    (Sum.elim Call.Resp DetectorCall.Resp) Unit :=
  ⟨silentStore,fun i => (silentTasks i).program⟩

/-- The first detector's event is handled and purged, and the second detector inserts another. -/
theorem detector_events_bounded_silent :
    ∃ cfg, Reach (detectorPool 4) silentStart cfg ∧
      (∃ e, cfg.shared.state.Pending (detectors silentTasks) e ∧ e.eventType = .update ∧
        ∀ e', cfg.shared.state.Pending (detectors silentTasks) e' → e'.sourceID = "web" → e' = e) ∧
      ∃ e, (insertsOf 0 cfg.shared.state.journal).filter (fun e => e.sourceID = "web") = [e] ∧
        Republishes silentRow e := by
  let schedule : List (Fin 4) :=
    [0,0,0,0,0,0] ++ [1,1,1,1,1,1,1] ++ [2] ++ [3,3,3,3,3,3]
  have h : (follow (detectorPool 4) (detectorTurns schedule) silentStart).any fun cfg =>
      (cfg.threads 0).result.isSome && decide (cfg.shared.refused = []) &&
      (cfg.shared.queries.any fun q => q.session = 0 ∧
        silentRow ∈ undeliveredRows q.resources q.consumers q.events q.cutoff) &&
      cfg.shared.state.events.rows.any fun e => e.reconciledDate = none ∧ e.sourceID = "web" ∧
        e.eventType = .update ∧ insertedBy cfg.shared.state.journal e.id = some 3 := by
    decide +kernel
  obtain ⟨cfg,hf,h⟩ := (Option.any_eq_true _ _).mp h
  simp only [Bool.and_eq_true,List.any_eq_true,decide_eq_true_eq] at h
  obtain ⟨⟨⟨hret,hok⟩,q,hq,hi,hrow⟩,e,he,hnone,hid,htype,hby⟩ := h
  have hr := Reach.of_follow _ hf
  obtain ⟨hone,hdetect⟩ := detector_events_bounded silentTasks silentTasks_orderly
    (⟨rfl,rfl⟩ : silentStore.Fresh) hr
  have hpending : cfg.shared.state.Pending (detectors silentTasks) e :=
    ⟨he,hnone,3,hby,by decide⟩
  obtain ⟨u,hu⟩ := Option.isSome_iff_exists.mp hret
  refine ⟨cfg,hr,⟨e,hpending,htype,fun e' he' hid' => hone e' e he' hpending (hid'.trans hid.symm)⟩,
    (hdetect 0 10 rfl).2 (Prog.result_eq_some.mp hu) (by rw [hok]; exact List.not_mem_nil) q hq hi
      silentRow (mem_undeliveredRows.mp hrow)⟩

end Maestro
