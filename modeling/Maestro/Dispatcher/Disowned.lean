import Maestro.Dispatcher.Ownership

/-!
# Consumers that were deleted

`updateConsumerSet` adds and removes names while it goes through the consumers that it listed.
A name that is no longer listed is not looked at: the set keeps a consumer that was deleted
while this instance owned it. Without such deletions, the set holds after every check just the
listed consumers that the ring places on the instance.
-/

namespace Maestro
open Data Concurrent

/-- What the queries of one check return. -/
structure Tables where
  instances : Except DbErr (List ServerInstance)
  consumers : Except DbErr (List Consumer)

namespace Tables

def choice (t : Tables) : DispatcherChoice := { instances := t.instances, consumers := t.consumers }

/-- The instances and consumers that a check reads, when no query fails and an instance is
ready. -/
def read (t : Tables) : Option (List ServerInstance × List Consumer) :=
  match t.instances, t.consumers with
  | .ok instances, .ok consumers =>
    if HashDispatcher.readyInstances instances = [] then none else some (instances,consumers)
  | _, _ => none

end Tables

/-- What the last check that read both tables has read. -/
def lastRead (checks : List Tables) : Option (List ServerInstance × List Consumer) :=
  checks.foldl (fun last t => t.read <|> last) none

theorem lastRead_snoc (checks : List Tables) (t : Tables) :
    lastRead (checks ++ [t]) = (t.read <|> lastRead checks) := by
  simp [lastRead]

/-- Checks of one instance, one after the other. -/
abbrev Checks (ring : HashRing) (instanceID : String) :
    HashDispatcher → List Tables → HashDispatcher → Prop :=
  Serial (dispatcherExec ring) (fun _ : Tables => HashDispatcher.check instanceID)
    (fun t _ => t.choice) fun _ _ => true

/-- The consumers of a reading that the ring places on the instance. -/
def placedHere (ring : HashRing) (instanceID : String)
    (last : List ServerInstance × List Consumer) (name : String) : Prop :=
  name ∈ last.2.map Consumer.name ∧
    ring.locateKey (HashDispatcher.readyInstances last.1).toFinset name = instanceID

/-- No consumer is deleted while the instance owns it: what a check placed here is still in the
table that the next one reads. -/
def NoneDeleted (ring : HashRing) (instanceID : String) (checks : List Tables) : Prop :=
  ∀ done t rest last next, checks = done ++ t :: rest → lastRead done = some last →
    t.read = some next → ∀ name, placedHere ring instanceID last name →
      name ∈ next.2.map Consumer.name

namespace HashDispatcher

variable {ring : HashRing} {instanceID : String} {session : ℕ} {t : Tables} {d d' : HashDispatcher}

/-- An outline of a goroutine of the pool holds when it runs alone. -/
theorem eval_of_safe {β : Type} {Q : β → HashDispatcher → Prop} {P : HashDispatcher → Prop}
    {p : DispatcherM β} {env : ℕ → DispatcherChoice} {a : β}
    (h : Safe (dispatcherPool ring) (placeRule (Fin.last session)) (Fin.last session) Q p P)
    (hd : P d) (he : Prog.eval (dispatcherExec ring session) env p d = some (a,d')) : Q a d' :=
  h.eval hd he

/-- What an update leaves: the listed consumers that are placed here, and the names that were in
the set and are not listed. -/
theorem mem_updated_iff {p : Placement} {consumers : List Consumer} {name : String} :
    name ∈ ((gained ring instanceID p consumers).toFinset ∪ p.consumerSet) \
        (lost ring instanceID p consumers).toFinset ↔
      name ∈ consumers.map Consumer.name ∧ ring.locateKey p.members name = instanceID ∨
        name ∉ consumers.map Consumer.name ∧ name ∈ p.consumerSet := by
  simp only [Finset.mem_sdiff,Finset.mem_union,List.mem_toFinset,gained,lost,List.mem_filter,
    decide_eq_true_eq]
  tauto

theorem eval_updateConsumerSet {r : Except String Unit}
    (he : Prog.eval (dispatcherExec ring session) (fun _ => t.choice) (updateConsumerSet instanceID)
      d = some (r,d')) :
    (∃ consumers, d.members ≠ [] ∧ t.consumers = .ok consumers ∧
      d'.placement.consumerSet =
        ((gained ring instanceID d.placement consumers).toFinset ∪ d.placement.consumerSet) \
          (lost ring instanceID d.placement consumers).toFinset) ∨
    (d.members = [] ∨ ∃ err, t.consumers = .error err) ∧
      d'.placement.consumerSet = d.placement.consumerSet := by
  obtain ⟨members,d₁,hmembers,he⟩ := Prog.eval_lift_bind.mp he
  cases hmembers
  by_cases hlen : d.members.length = 0
  · rw [if_pos hlen] at he
    cases he
    exact Or.inr ⟨Or.inl (List.length_eq_zero_iff.mp hlen),rfl⟩
  rw [if_neg hlen] at he
  have hne : d.members ≠ [] := fun h => hlen (by rw [h]; rfl)
  obtain ⟨answer,d₂,hquery,he⟩ := Prog.eval_lift_bind.mp he
  cases hcs : t.consumers with
  | error err =>
    simp only [dispatcherExec,Tables.choice,hcs] at hquery
    cases hquery
    cases he
    exact Or.inr ⟨Or.inr ⟨err,rfl⟩,rfl⟩
  | ok consumers =>
    simp only [dispatcherExec,Tables.choice,hcs] at hquery
    cases hquery
    obtain ⟨sorted,d₃,m,hsort,he⟩ := Prog.eval_bind he
    obtain ⟨hsorted,hp⟩ := eval_of_safe (safe_sortConsumers consumers [] []) rfl hsort
    subst hsorted
    obtain ⟨u,d₄,happend,he⟩ := Prog.eval_lift_bind.mp he
    obtain ⟨u',d₅,hremove,he⟩ := Prog.eval_lift_bind.mp he
    cases he
    refine Or.inl ⟨consumers,hne,rfl,?_⟩
    rw [removeAll_placement hremove,append_placement happend,hp]
    rfl

/-- What a check does to the consumer set. -/
theorem eval_check (he : Prog.eval (dispatcherExec ring session) (fun _ => t.choice)
    (check instanceID) d = some ((),d')) :
    (∃ instances consumers, t.read = some (instances,consumers) ∧
      ∀ name, name ∈ d'.consumerSet ↔ placedHere ring instanceID (instances,consumers) name ∨
        name ∉ consumers.map Consumer.name ∧ name ∈ d.consumerSet) ∨
    t.read = none ∧ ∀ name, name ∈ d'.consumerSet ↔ name ∈ d.consumerSet := by
  obtain ⟨answer,d₁,hquery,he⟩ := Prog.eval_lift_bind.mp he
  cases hi : t.instances with
  | error err =>
    simp only [dispatcherExec,Tables.choice,hi] at hquery
    cases hquery
    cases he
    exact Or.inr ⟨by simp [Tables.read,hi],fun _ => Iff.rfl⟩
  | ok instances =>
    simp only [dispatcherExec,Tables.choice,hi] at hquery
    cases hquery
    obtain ⟨members,d₂,hmembers,he⟩ := Prog.eval_lift_bind.mp he
    cases hmembers
    obtain ⟨u,d₃,m,hadd,he⟩ := Prog.eval_bind he
    obtain ⟨u',d₄,m',hremove,he⟩ := Prog.eval_bind he
    obtain ⟨r,d₅,m'',hupdate,he⟩ := Prog.eval_bind he
    cases he
    have hp₃ := eval_of_safe (safe_addMembers _ _) rfl hadd
    have hp₄ := eval_of_safe (safe_removeMembers _ _) hp₃ hremove
    have hm : d₄.members.toFinset = (readyInstances instances).toFinset := by
      refine (congrArg Placement.members hp₄).trans ?_
      ext id
      simp only [placement,record,Finset.mem_sdiff,Finset.mem_union,List.mem_toFinset,
        List.mem_filter]
      by_cases hold : id ∈ d.members <;> by_cases hid : id ∈ readyInstances instances <;>
        simp [hold,hid]
    have hset : d₄.consumerSet.toFinset = d.consumerSet.toFinset :=
      congrArg Placement.consumerSet hp₄
    have hready : d₄.members = [] ↔ readyInstances instances = [] := by
      rw [← List.toFinset_eq_empty_iff,hm,List.toFinset_eq_empty_iff]
    rcases eval_updateConsumerSet hupdate with ⟨consumers,hne,hcs,hafter⟩ | ⟨hno,hafter⟩
    · refine Or.inl ⟨instances,consumers,?_,fun name => ?_⟩
      · simp only [Tables.read,hi,hcs]
        rw [if_neg (mt hready.mpr hne)]
      · rw [← List.mem_toFinset,show d'.consumerSet.toFinset = _ from hafter,mem_updated_iff]
        show _ ∧ ring.locateKey d₄.members.toFinset name = _ ∨ _ ∧ name ∈ d₄.consumerSet.toFinset ↔ _
        rw [hm,hset,List.mem_toFinset]
        rfl
    · refine Or.inr ⟨?_,fun name => ?_⟩
      · rcases hno with hnil | ⟨err,hcs⟩
        · cases hcs : t.consumers <;> simp [Tables.read,hi,hcs,hready.mp hnil]
        · simp only [Tables.read,hi,hcs]
      · rw [← List.mem_toFinset,show d'.consumerSet.toFinset = _ from hafter]
        show name ∈ d₄.consumerSet.toFinset ↔ _
        rw [hset,List.mem_toFinset]

/-- The set holds what the last reading placed here; it is empty before the first one. -/
def Owns (ring : HashRing) (instanceID : String) (last : Option (List ServerInstance × List Consumer))
    (d : HashDispatcher) : Prop :=
  ∀ name, name ∈ d.consumerSet ↔ ∃ reading, last = some reading ∧
    placedHere ring instanceID reading name

/-- Along checks that find every owned consumer in the table. -/
theorem owns_of_checks {d₀ : HashDispatcher} {checks : List Tables} (hempty : d₀.consumerSet = [])
    (hrun : Checks ring instanceID d₀ checks d) (hkept : NoneDeleted ring instanceID checks) :
    Owns ring instanceID (lastRead checks) d := by
  induction hrun with
  | nil =>
    intro name
    simp [hempty,lastRead]
  | @snoc checks d d' t r hs _ hx ih =>
    have hbefore : NoneDeleted ring instanceID checks := by
      intro done t' rest last next he
      exact hkept done t' (rest ++ [t]) last next (by simp [he])
    have howns := ih hbefore
    intro name
    rw [lastRead_snoc]
    rcases eval_check hx with ⟨instances,consumers,hread,hafter⟩ | ⟨hread,hafter⟩
    · rw [hafter,hread]
      constructor
      · rintro (hplaced | ⟨hmissing,hold⟩)
        · exact ⟨_,rfl,hplaced⟩
        · -- the table of this check has every name that the set had before
          obtain ⟨last,hlast,hplaced⟩ := (howns name).mp hold
          exact absurd (hkept checks t [] last _ rfl hlast hread name hplaced) hmissing
      · rintro ⟨reading,he,hplaced⟩
        cases he
        exact Or.inl hplaced
    · rw [hafter,hread]
      exact howns name

/-- A round of the reconnection loop resyncs what is in the set. -/
theorem eval_resyncOnReconnect {rounds : ℕ} {env : ℕ → DispatcherChoice}
    (he : Prog.eval (dispatcherExec ring session) env (resyncOnReconnect rounds) d = some ((),d')) :
    d'.consumerSet = d.consumerSet ∧ ∃ entries, d'.log = d.log ++ entries ∧
      ∀ entry ∈ entries, entry.act = .resynced d.consumerSet := by
  induction rounds generalizing d env with
  | zero => cases he; exact ⟨rfl,[],by simp,by simp⟩
  | succ n ih =>
    obtain ⟨consumers,d₁,hslice,he⟩ := Prog.eval_lift_bind.mp he
    cases hslice
    obtain ⟨r,d₂,hresync,he⟩ := Prog.eval_lift_bind.mp he
    cases hresync
    obtain ⟨hset,entries,hlog,hall⟩ := ih he
    refine ⟨hset,⟨session,.resynced d.consumerSet⟩ :: entries,?_,?_⟩
    · rw [hlog]
      simp [record]
    · exact List.forall_mem_cons.mpr ⟨rfl,hall⟩

end HashDispatcher

/-- After every check that read both tables, a consumer that is not in the table is not in the
set, is not dispatched and is sent no resync. -/
theorem deleted_consumers_disowned {ring : HashRing} {instanceID : String} {d₀ d : HashDispatcher}
    {checks : List Tables} {t : Tables} (hempty : d₀.consumerSet = [])
    (hrun : Checks ring instanceID d₀ (checks ++ [t]) d)
    (hkept : NoneDeleted ring instanceID (checks ++ [t])) {instances : List ServerInstance}
    {consumers : List Consumer} (hread : t.read = some (instances,consumers)) {name : String}
    (hname : name ∉ consumers.map Consumer.name) :
    name ∉ d.consumerSet ∧ d.dispatch name = false ∧
      ∀ session env rounds d', Prog.eval (dispatcherExec ring session) env
        (HashDispatcher.resyncOnReconnect rounds) d = some ((),d') →
        ∃ entries, d'.log = d.log ++ entries ∧
          ∀ entry ∈ entries, ∃ names, entry.act = .resynced names ∧ name ∉ names := by
  have howns := HashDispatcher.owns_of_checks hempty hrun hkept name
  have hnot : name ∉ d.consumerSet := by
    rw [howns,lastRead_snoc,hread]
    rintro ⟨reading,he,hplaced⟩
    cases he
    exact hname hplaced.1
  refine ⟨hnot,by simpa [HashDispatcher.dispatch] using hnot,?_⟩
  intro session env rounds d' he
  obtain ⟨-,entries,hlog,hall⟩ := HashDispatcher.eval_resyncOnReconnect he
  exact ⟨entries,hlog,fun entry hm => ⟨_,hall entry hm,hnot⟩⟩

/-- Two instances that are ready, with some consumers. -/
def readyTables (consumers : List Consumer) : Tables := ⟨.ok threeInstances,.ok consumers⟩

def checkRun (checks : List Tables) : Option HashDispatcher :=
  serialRun (dispatcherExec twoRing) (fun _ : Tables => HashDispatcher.check "maestro-0")
    (fun t _ => t.choice) (fun _ _ => true) 0 checks {}

theorem deleted_consumers_disowned_twice : ∃ d, Checks twoRing "maestro-0" {}
    [readyTables twoConsumers,readyTables twoConsumers] d ∧ d.dispatch "cluster1" = true ∧
      d.dispatch "cluster3" = false := by
  have h : (checkRun [readyTables twoConsumers,readyTables twoConsumers]).any fun d =>
      d.dispatch "cluster1" := by
    decide +kernel
  obtain ⟨d,hrun,hd⟩ := (Option.any_eq_true _ _).mp h
  have hchecks : Checks twoRing "maestro-0" {}
      [readyTables twoConsumers,readyTables twoConsumers] d := Serial.of_run .nil hrun
  have hkept : NoneDeleted twoRing "maestro-0"
      ([readyTables twoConsumers] ++ [readyTables twoConsumers]) := by
    intro done t rest last next he hlast hread name hplaced
    rcases done with _ | ⟨first,_ | ⟨second,done⟩⟩
    · cases hlast
    · cases he
      cases hlast
      cases hread
      exact hplaced.1
    · simp at he
  exact ⟨d,hchecks,hd,(deleted_consumers_disowned rfl hchecks hkept rfl (by decide)).2.1⟩

/-- A consumer is deleted between two checks: the instance still dispatches its statuses and
sends it resyncs. -/
theorem deleted_consumer_stays_owned : ∃ d, Checks twoRing "maestro-0" {}
    [readyTables twoConsumers,readyTables []] d ∧ (readyTables []).read = some (threeInstances,[]) ∧
      "cluster1" ∈ d.consumerSet ∧ d.dispatch "cluster1" = true ∧
      ∃ d', Prog.eval (dispatcherExec twoRing 0) (fun _ => {})
        (HashDispatcher.resyncOnReconnect 1) d = some ((),d') ∧
        ⟨0,.resynced ["cluster1"]⟩ ∈ d'.log := by
  have h : (checkRun [readyTables twoConsumers,readyTables []]).any fun d =>
      decide ("cluster1" ∈ d.consumerSet ∧ d.dispatch "cluster1" = true ∧
        (Prog.eval (dispatcherExec twoRing 0) (fun _ => {})
          (HashDispatcher.resyncOnReconnect 1) d).any fun p =>
            ⟨0,.resynced ["cluster1"]⟩ ∈ p.2.log) := by
    decide +kernel
  obtain ⟨d,hrun,hd⟩ := (Option.any_eq_true _ _).mp h
  obtain ⟨hmem,hdispatch,hany⟩ := of_decide_eq_true hd
  obtain ⟨⟨u,d'⟩,he,hlog⟩ := (Option.any_eq_true _ _).mp hany
  exact ⟨d,Serial.of_run .nil hrun,rfl,hmem,hdispatch,d',he,of_decide_eq_true hlog⟩

end Maestro
