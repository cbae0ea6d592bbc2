import Maestro.Db.Cluster
import Maestro.Db.Effects

namespace Maestro
open Data Concurrent

/-- Status events are only ever inserted by the services. -/
theorem exec_statusEvents {t : ℕ} {ch : Choice} {c : Call} {r : c.Resp} {s s' : State}
    (h : exec t ch c s = some (r,s')) : s'.statusEvents = s.statusEvents ∨
      ∃ (event : StatusEvent) (hfree : s.statusEvents.find ch.uuid = none),
        c = .createStatusEvent event ∧
        s'.statusEvents = s.statusEvents.insert (event.beforeCreate ch.now ch.uuid) hfree := by
  rcases exec_cases h with ⟨-,-,-,rfl⟩ | ⟨-,hc⟩
  · exact Or.inl rfl
  · cases c with
    | createStatusEvent event =>
      obtain ⟨hfree,-,rfl⟩ := commit_createStatusEvent hc
      exact Or.inr ⟨event,hfree,rfl,rfl⟩
    | newAdvisoryLock id lockType =>
      obtain ⟨locks,-,hl⟩ := Option.map_eq_some_iff.mp hc
      cases hl
      exact Or.inl rfl
    | newNonBlockingLock id lockType =>
      simp only [commit] at hc
      split at hc
      · cases hc
        exact Or.inl rfl
      · obtain ⟨locks,-,hl⟩ := Option.map_eq_some_iff.mp hc
        cases hl
        exact Or.inl rfl
    | _ =>
      left
      simp only [commit] at hc
      repeat' split at hc
      all_goals first | (cases hc; done) | (cases hc; rfl)

/-- What a session did, in order. -/
def statusActsOf (t : ℕ) (J : List StatusEntry) : List StatusAct :=
  (J.filter fun e => e.session = t).map StatusEntry.act

theorem statusActsOf_append (t : ℕ) (J J' : List StatusEntry) :
    statusActsOf t (J ++ J') = statusActsOf t J ++ statusActsOf t J' := by
  simp [statusActsOf]

theorem statusActsOf_self (t : ℕ) (inst : String) (acts : List StatusAct) :
    statusActsOf t (acts.map (StatusEntry.mk t inst)) = acts := by
  simp [statusActsOf,List.filter_map,Function.comp_def]

theorem statusActsOf_ne {t u : ℕ} (h : u ≠ t) (inst : String) (acts : List StatusAct) :
    statusActsOf t (acts.map (StatusEntry.mk u inst)) = [] := by
  simp [statusActsOf,List.filter_map,Function.comp_def,h]

theorem mem_statusActsOf {t : ℕ} {J : List StatusEntry} {a : StatusAct} :
    a ∈ statusActsOf t J ↔ ∃ x, (⟨t,x,a⟩ : StatusEntry) ∈ J := by
  simp only [statusActsOf,List.mem_map,List.mem_filter,decide_eq_true_eq]
  constructor
  · rintro ⟨⟨_,x,_⟩,⟨hm,rfl⟩,rfl⟩
    exact ⟨x,hm⟩
  · rintro ⟨x,hm⟩
    exact ⟨_,⟨hm,rfl⟩,rfl⟩

namespace Cluster

def acts (s : Cluster) (t : ℕ) : List StatusAct := statusActsOf t s.log

@[simp] theorem record_log (s : Cluster) (t : ℕ) (inst : String) (acts : List StatusAct) :
    (s.record t inst acts).log = s.log ++ acts.map (StatusEntry.mk t inst) := rfl

@[simp] theorem record_state (s : Cluster) (t : ℕ) (inst : String) (acts : List StatusAct) :
    (s.record t inst acts).state = s.state := rfl

@[simp] theorem record_purged (s : Cluster) (t : ℕ) (inst : String) (acts : List StatusAct) :
    (s.record t inst acts).purged = s.purged := rfl

@[simp] theorem record_eventInstances (s : Cluster) (t : ℕ) (inst : String)
    (acts : List StatusAct) : (s.record t inst acts).eventInstances = s.eventInstances := rfl

@[simp] theorem record_hubs (s : Cluster) (t : ℕ) (inst : String) (acts : List StatusAct) :
    (s.record t inst acts).hubs = s.hubs := rfl

@[simp] theorem setHub_self (s : Cluster) (inst : String) (hub : Hub) :
    (s.setHub inst hub).hubs inst = hub := Function.update_self _ _ _

end Cluster

/-- Acts that leave `event_instances` and the status events alone. -/
def StatusAct.tableless : StatusAct → Prop
  | .recorded _ | .purged _ _ _ => False
  | _ => True

section Exec

variable {inst : String} {t : ℕ} {ch : ClusterChoice} {s s' : Cluster}

theorem clusterExec_inl {c : Call} {r : c.Resp}
    (h : clusterExec inst t ch (.inl c) s = some (r,s')) : s.blocks inst c = false ∧
      ∃ state, exec t ch.base c s.state = some (r,state) ∧
        s' = ({ s with state := state, hubs := s.hubsAfter inst c }).record t inst
          (c.statusActs s.state r) := by
  simp only [clusterExec] at h
  split at h
  · cases h
  · next hb =>
    obtain ⟨⟨r',state⟩,hx,he⟩ := Option.map_eq_some_iff.mp h
    cases he
    exact ⟨by simpa using hb,state,hx,rfl⟩

theorem clusterExec_inr {c : StatusCall} {r : c.Resp}
    (h : clusterExec inst t ch (.inr c) s = some (r,s')) :
    (∃ err, ch.fault c = some err ∧ c.failure err = some r ∧
        s' = s.record t inst [.refused err]) ∨
      commitStatus inst t ch c s = some (r,s') := by
  simp only [clusterExec] at h
  split at h
  · next err r' hr =>
    obtain ⟨err',he,hf⟩ := Option.bind_eq_some_iff.mp hr
    obtain ⟨r'',hr'',hpair⟩ := Option.map_eq_some_iff.mp hf
    cases hpair
    cases h
    exact Or.inl ⟨err,he,hr'',rfl⟩
  · exact Or.inr h

theorem Call.statusActs_tableless (s : State) (c : Call) (r : c.Resp) :
    ∀ a ∈ c.statusActs s r, a.tableless := by
  unfold Call.statusActs
  repeat' split
  all_goals simp [StatusAct.tableless]

/-- What a call does to the status events and to `event_instances`. -/
inductive TableEffect (inst : String) (t : ℕ) (s : Cluster) : ClusterCall → Cluster → Prop
  | quiet {c : ClusterCall} {s' : Cluster} (acts : List StatusAct) (hp : s'.purged = s.purged)
      (he : s'.eventInstances = s.eventInstances)
      (hl : s'.log = s.log ++ acts.map (StatusEntry.mk t inst)) (hq : ∀ a ∈ acts, a.tableless) :
      TableEffect inst t s c s'
  | insert (row : EventInstance) (h : s.statusEvents.find row.eventID ≠ none) :
      TableEffect inst t s (.inr (.createEventInstance row)) (s.insertEventInstance t inst row)
  | purge (ids : List String) :
      TableEffect inst t s (.inr (.deleteStatusEvents ids)) (s.deleteStatusEvents t inst ids)

theorem TableEffect.same (c : ClusterCall) : TableEffect inst t s c s :=
  .quiet [] rfl rfl (by simp) (by simp)

theorem TableEffect.one {c : ClusterCall} {a : StatusAct} (hp : s'.purged = s.purged)
    (he : s'.eventInstances = s.eventInstances)
    (hl : s'.log = s.log ++ [⟨t,inst,a⟩]) (hq : a.tableless) : TableEffect inst t s c s' :=
  .quiet [a] hp he hl (by simpa using hq)

theorem commitStatus_tableEffect {c : StatusCall} {r : c.Resp}
    (h : commitStatus inst t ch c s = some (r,s')) : TableEffect inst t s (.inr c) s' := by
  cases c with
  | takeStatusEvent id =>
    simp only [commitStatus] at h
    split at h
    all_goals
      cases h
      exact .one rfl rfl rfl trivial
  | createEventInstance row =>
    simp only [commitStatus] at h
    split at h
    · cases h
      exact .same _
    · next hevent =>
      split at h
      · cases h
        exact .same _
      · cases h
        exact .insert row hevent
  | findReadyIDs | findEventsOf | rLock =>
    simp only [commitStatus] at h
    split at h
    · cases h
      exact .one rfl rfl rfl trivial
    · cases h
  | deleteStatusEvents ids =>
    cases h
    exact .purge ids
  | saveInstance | markInstances | newUUID =>
    cases h
    exact .quiet [] rfl rfl (by simp) (by simp)
  | register | unregister =>
    simp only [commitStatus] at h
    split at h
    · cases h
    · cases h
      exact .one rfl rfl rfl trivial
  | receive =>
    simp only [commitStatus] at h
    split at h
    · cases h
    · cases h
      exact .one rfl rfl rfl trivial
  | hand | rUnlock =>
    cases h
    exact .one rfl rfl rfl trivial

theorem clusterExec_tableEffect {c : ClusterCall} {r : ClusterCall.Resp c}
    (h : clusterExec inst t ch c s = some (r,s')) : TableEffect inst t s c s' := by
  cases c with
  | inl c =>
    obtain ⟨-,state,-,rfl⟩ := clusterExec_inl h
    exact .quiet _ rfl rfl rfl (c.statusActs_tableless s.state r)
  | inr c =>
    rcases clusterExec_inr h with ⟨err,-,-,rfl⟩ | hc
    · exact .one rfl rfl rfl trivial
    · exact commitStatus_tableEffect hc

theorem clusterExec_log {c : ClusterCall} {r : ClusterCall.Resp c}
    (h : clusterExec inst t ch c s = some (r,s')) :
    ∃ acts : List StatusAct, s'.log = s.log ++ acts.map (StatusEntry.mk t inst) := by
  cases clusterExec_tableEffect h with
  | quiet acts _ _ hl _ => exact ⟨acts,hl⟩
  | insert row => exact ⟨[.recorded row],rfl⟩
  | purge ids => exact ⟨[.purged _ _ _],rfl⟩

/-- A call adds nothing to what another session did. -/
theorem clusterExec_acts_ne {c : ClusterCall} {r : ClusterCall.Resp c} {u : ℕ} (hu : t ≠ u)
    (h : clusterExec inst t ch c s = some (r,s')) : s'.acts u = s.acts u := by
  obtain ⟨acts,hl⟩ := clusterExec_log h
  rw [Cluster.acts,hl,statusActsOf_append,statusActsOf_ne hu,List.append_nil,Cluster.acts]

theorem Cluster.acts_of_log {acts : List StatusAct}
    (h : s'.log = s.log ++ acts.map (StatusEntry.mk t inst)) : s'.acts t = s.acts t ++ acts := by
  rw [Cluster.acts,h,statusActsOf_append,statusActsOf_self,Cluster.acts]

/-- The pipeline adds no call that changes the tables of the services. -/
theorem clusterExec_inr_state {c : StatusCall} {r : c.Resp}
    (h : clusterExec inst t ch (.inr c) s = some (r,s')) : s'.state = s.state := by
  rcases clusterExec_inr h with ⟨-,-,-,rfl⟩ | hc
  · rfl
  · cases c with
    | createEventInstance | takeStatusEvent | findReadyIDs | findEventsOf | register | unregister
    | receive | rLock =>
      simp only [commitStatus] at hc
      repeat' split at hc
      all_goals first | (cases hc; done) | (cases hc; rfl)
    | _ => cases hc; rfl

/-- Rows of status events never change. -/
theorem clusterExec_statusEvent {c : ClusterCall} {r : ClusterCall.Resp c} {key : String}
    {e : StatusEvent} (h : clusterExec inst t ch c s = some (r,s'))
    (he : s.state.statusEvents.find key = some e) : s'.state.statusEvents.find key = some e := by
  cases c with
  | inr c => rw [clusterExec_inr_state h]; exact he
  | inl c =>
    obtain ⟨-,state,hx,rfl⟩ := clusterExec_inl h
    rcases exec_statusEvents hx with hs | ⟨event,hfree,-,hs⟩
    · rw [← he]
      exact congrArg (fun table => Table.find table key) hs
    · have hne : key ≠ ch.base.uuid := by
        rintro rfl
        exact absurd (hfree.symm.trans he) (by simp)
      exact (congrArg (fun table => Table.find table key) hs).trans
        ((Table.find_insert_ne _ (event.beforeCreate ch.base.now ch.base.uuid) hfree hne).trans he)

theorem clusterExec_inl_acts {c : Call} {r : c.Resp}
    (h : clusterExec inst t ch (.inl c) s = some (r,s')) :
    s'.acts t = s.acts t ++ c.statusActs s.state r := by
  obtain ⟨-,state,-,rfl⟩ := clusterExec_inl h
  exact Cluster.acts_of_log rfl

@[simp] theorem Cluster.acts_record_self (s : Cluster) (t : ℕ) (inst : String)
    (acts : List StatusAct) : (s.record t inst acts).acts t = s.acts t ++ acts :=
  Cluster.acts_of_log rfl

theorem Cluster.deleteStatusEvents_acts (s : Cluster) (t : ℕ) (inst : String) (ids : List String) :
    ∃ events instances, (s.deleteStatusEvents t inst ids).acts t =
      s.acts t ++ [.purged ids events instances] :=
  ⟨_,_,Cluster.acts_of_log rfl⟩

theorem clusterExec_takeResource {id : String} {r : Except DbErr Resource}
    (h : clusterExec inst t ch (.inl (.takeResource id)) s = some (r,s')) :
    (∃ row, s.state.resources.find id = some row ∧ r = .ok row.scan ∧
        s'.acts t = s.acts t ++ [.read [row]]) ∨
      (s.state.resources.find id = none ∧ r = .error .recordNotFound ∧
        s'.acts t = s.acts t ++ [.missedResource id]) ∨
      ∃ err, r = .error err ∧ s'.acts t = s.acts t ++ [.refused err] := by
  have hacts := clusterExec_inl_acts h
  obtain ⟨-,state,hx,-⟩ := clusterExec_inl h
  cases r with
  | error err =>
    simp only [Call.statusActs] at hacts
    split at hacts
    · next hmissing => exact Or.inr (Or.inl ⟨hmissing.2,by rw [hmissing.1],hacts⟩)
    · exact Or.inr (Or.inr ⟨err,rfl,hacts⟩)
  | ok resource =>
    rcases exec_cases hx with ⟨err,-,he,-⟩ | ⟨-,hc⟩
    · cases he
    · obtain ⟨-,⟨-,he⟩ | ⟨row,hrow,he⟩⟩ := commit_takeResource hc
      · cases he
      · simp only [Call.statusActs,hrow,Option.toList_some] at hacts
        exact Or.inl ⟨row,hrow,he,hacts⟩

theorem clusterExec_findBySource {source : String} {r : Except DbErr (List Resource)}
    (h : clusterExec inst t ch (.inl (.findResourcesBySource source)) s = some (r,s')) :
    (∃ rows, r = .ok (rows.map ResourceRow.scan) ∧ s'.acts t = s.acts t ++ [.read rows]) ∨
      ∃ err, r = .error err ∧ s'.acts t = s.acts t := by
  have hacts := clusterExec_inl_acts h
  obtain ⟨-,state,hx,-⟩ := clusterExec_inl h
  cases r with
  | error err =>
    simp only [Call.statusActs,List.append_nil] at hacts
    exact Or.inr ⟨err,rfl,hacts⟩
  | ok resources =>
    rcases exec_cases hx with ⟨err,-,he,-⟩ | ⟨-,hc⟩
    · cases he
    · cases hc
      exact Or.inl ⟨_,rfl,hacts⟩

theorem clusterExec_broadcast {resource : Resource} {r : Unit}
    (h : clusterExec inst t ch (.inl (.broadcast resource)) s = some (r,s')) :
    s'.acts t = s.acts t ++ [.sent resource] := clusterExec_inl_acts h

theorem clusterExec_takeStatusEvent {id : String} {r : Except DbErr StatusEvent}
    (h : clusterExec inst t ch (.inr (.takeStatusEvent id)) s = some (r,s')) :
    (∃ e, s.statusEvents.find id = some e ∧ r = .ok e.scan ∧
        s' = s.record t inst [.tookEvent e]) ∨
      (s.statusEvents.find id = none ∧ r = .error .recordNotFound ∧
        s' = s.record t inst [.missedEvent id]) ∨
      ∃ err, r = .error err ∧ s' = s.record t inst [.refused err] := by
  rcases clusterExec_inr h with ⟨err,-,he,rfl⟩ | hc
  · cases he
    exact Or.inr (Or.inr ⟨err,rfl,rfl⟩)
  · simp only [commitStatus] at hc
    split at hc
    · next hnone =>
      cases hc
      exact Or.inr (Or.inl ⟨hnone,rfl,rfl⟩)
    · next e he =>
      cases hc
      exact Or.inl ⟨e,he,rfl,rfl⟩

theorem clusterExec_createEventInstance {row : EventInstance} {r : Except DbErr Unit}
    (h : clusterExec inst t ch (.inr (.createEventInstance row)) s = some (r,s')) :
    (r = .ok () ∧ s'.acts t = s.acts t ++ [.recorded row]) ∨ ∃ err, r = .error err := by
  rcases clusterExec_inr h with ⟨err,-,he,rfl⟩ | hc
  · cases he
    exact Or.inr ⟨err,rfl⟩
  · simp only [commitStatus] at hc
    split at hc
    · cases hc
      exact Or.inr ⟨_,rfl⟩
    · split at hc
      · cases hc
        exact Or.inr ⟨_,rfl⟩
      · cases hc
        exact Or.inl ⟨rfl,Cluster.acts_of_log rfl⟩

theorem clusterExec_findReadyIDs {r : Except DbErr (List String)}
    (h : clusterExec inst t ch (.inr .findReadyIDs) s = some (r,s')) :
    (∃ ids : List String, r = .ok ids ∧ s' = s.record t inst [.ready ids] ∧
        ids.Perm ((s.serverInstances.rows.filter ServerInstance.ready).map ServerInstance.id)) ∨
      ∃ err, r = .error err ∧ s' = s.record t inst [.refused err] := by
  rcases clusterExec_inr h with ⟨err,-,he,rfl⟩ | hc
  · cases he
    exact Or.inr ⟨err,rfl,rfl⟩
  · simp only [commitStatus] at hc
    split at hc
    · next hp =>
      cases hc
      exact Or.inl ⟨_,rfl,rfl,hp⟩
    · cases hc

theorem clusterExec_findEventsOf {instanceIDs : List String} {r : Except DbErr (List String)}
    (h : clusterExec inst t ch (.inr (.findEventsOf instanceIDs)) s = some (r,s')) :
    (∃ ids : List String, r = .ok ids ∧ s' = s.record t inst [.selected ids] ∧
        ids.Perm (s.eventsOf instanceIDs)) ∨
      ∃ err, r = .error err ∧ s' = s.record t inst [.refused err] := by
  rcases clusterExec_inr h with ⟨err,-,he,rfl⟩ | hc
  · cases he
    exact Or.inr ⟨err,rfl,rfl⟩
  · simp only [commitStatus] at hc
    split at hc
    · next hp =>
      cases hc
      exact Or.inl ⟨_,rfl,rfl,hp⟩
    · cases hc

theorem clusterExec_deleteStatusEvents {ids : List String} {r : Except DbErr Unit}
    (h : clusterExec inst t ch (.inr (.deleteStatusEvents ids)) s = some (r,s')) :
    (r = .ok () ∧ s' = s.deleteStatusEvents t inst ids) ∨
      ∃ err, r = .error err ∧ s' = s.record t inst [.refused err] := by
  rcases clusterExec_inr h with ⟨err,-,he,rfl⟩ | hc
  · cases he
    exact Or.inr ⟨err,rfl,rfl⟩
  · cases hc
    exact Or.inl ⟨rfl,rfl⟩

theorem clusterExec_receive {r : Resource}
    (h : clusterExec inst t ch (.inr .receive) s = some (r,s')) :
    (s.hubs inst).received = some r ∧ s' = s.record t inst [.received r] := by
  rcases clusterExec_inr h with ⟨err,-,he,-⟩ | hc
  · cases he
  · simp only [commitStatus] at hc
    split at hc
    · cases hc
    · next res hres =>
      cases hc
      exact ⟨hres,rfl⟩

theorem clusterExec_rLock {r : List Client}
    (h : clusterExec inst t ch (.inr .rLock) s = some (r,s')) :
    r.Perm (s.hubs inst).clients.rows ∧ s' = (s.setHub inst
      { s.hubs inst with reading := true }).record t inst [.locked r] := by
  rcases clusterExec_inr h with ⟨err,-,he,-⟩ | hc
  · cases he
  · simp only [commitStatus] at hc
    split at hc
    · next hp =>
      cases hc
      exact ⟨hp,rfl⟩
    · cases hc

theorem clusterExec_hand {client : Client} {resource : Resource} {r : Unit}
    (h : clusterExec inst t ch (.inr (.hand client resource)) s = some (r,s')) :
    s' = s.record t inst [.handed client resource] := by
  rcases clusterExec_inr h with ⟨err,-,he,-⟩ | hc
  · cases he
  · cases hc
    rfl

theorem clusterExec_rUnlock {r : Unit} (h : clusterExec inst t ch (.inr .rUnlock) s = some (r,s')) :
    s' = (s.setHub inst { s.hubs inst with reading := false, received := none }).record t inst
      [.unlocked] := by
  rcases clusterExec_inr h with ⟨err,-,he,-⟩ | hc
  · cases he
  · cases hc
    rfl

def ClusterChoice.refusal (ch : ClusterChoice) : ClusterCall → Option DbErr
  | .inl c => ch.base.fault c
  | .inr c => ch.fault c

/-- The call that an act comes from, and what it found. -/
def StatusAct.RecordedBy (ch : ClusterChoice) (inst : String) (c : ClusterCall) (s : Cluster) :
    StatusAct → Prop
  | .read rows => ∀ row ∈ rows, row ∈ s.state.resources.rows
  | .missedResource id => c = .inl (.takeResource id) ∧ s.state.resources.find id = none
  | .tookEvent e => ∃ id, c = .inr (.takeStatusEvent id) ∧ s.statusEvents.find id = some e
  | .missedEvent id => c = .inr (.takeStatusEvent id) ∧ s.statusEvents.find id = none
  | .refused err => ch.refusal c = some err
  | .sent resource => c = .inl (.broadcast resource)
  | .registered client => c = .inr (.register client)
  | .unregistered id => c = .inr (.unregister id)
  | .received resource => c = .inr .receive ∧ (s.hubs inst).received = some resource
  | .locked clients => c = .inr .rLock ∧ clients.Perm (s.hubs inst).clients.rows
  | .handed client resource => c = .inr (.hand client resource)
  | .unlocked => c = .inr .rUnlock
  | .recorded row => c = .inr (.createEventInstance row)
  | .ready ids => c = .inr .findReadyIDs ∧
    ids.Perm ((s.serverInstances.rows.filter ServerInstance.ready).map ServerInstance.id)
  | .selected ids => ∃ ready, c = .inr (.findEventsOf ready) ∧ ids.Perm (s.eventsOf ready)
  | .purged ids _ _ => c = .inr (.deleteStatusEvents ids)

theorem clusterExec_inl_act {c : Call} {r : c.Resp}
    (h : clusterExec inst t ch (.inl c) s = some (r,s')) :
    ∃ act : Option StatusAct, c.statusActs s.state r = act.toList ∧
      ∀ a ∈ act, a.RecordedBy ch inst (.inl c) s := by
  have hnone : c.statusActs s.state r = [] → ∃ act : Option StatusAct,
      c.statusActs s.state r = act.toList ∧ ∀ a ∈ act, a.RecordedBy ch inst (.inl c) s :=
    fun h => ⟨none,h,by simp⟩
  cases c with
  | takeResource id =>
    cases r with
    | ok resource =>
      refine ⟨some _,rfl,?_⟩
      rintro a ⟨⟩ row hrow
      exact Table.find_some_mem (Option.mem_toList.mp hrow)
    | error err =>
      by_cases hm : err = .recordNotFound ∧ s.state.resources.find id = none
      · refine ⟨some (.missedResource id),if_pos hm,?_⟩
        rintro a ⟨⟩
        exact ⟨rfl,hm.2⟩
      · refine ⟨some (.refused err),if_neg hm,?_⟩
        rintro a ⟨⟩
        obtain ⟨-,state,hx,-⟩ := clusterExec_inl h
        rcases exec_cases hx with ⟨err',hf,he,-⟩ | ⟨-,hc⟩
        · cases he
          exact hf
        · obtain ⟨-,⟨hrow,he⟩ | ⟨row,hrow,he⟩⟩ := commit_takeResource hc
          · cases he
            exact absurd ⟨rfl,hrow⟩ hm
          · cases he
  | findResourcesBySource source =>
    cases r with
    | ok resources =>
      refine ⟨some _,rfl,?_⟩
      rintro a ⟨⟩ row hrow
      exact (List.mem_filter.mp hrow).1
    | error err => exact hnone rfl
  | broadcast resource =>
    refine ⟨some _,rfl,?_⟩
    rintro a ⟨⟩
    rfl
  | _ => exact hnone rfl

/-- A call records at most one act. -/
theorem clusterExec_act {c : ClusterCall} {r : ClusterCall.Resp c}
    (h : clusterExec inst t ch c s = some (r,s')) :
    ∃ act : Option StatusAct, s'.log = s.log ++ act.toList.map (StatusEntry.mk t inst) ∧
      ∀ a ∈ act, a.RecordedBy ch inst c s := by
  have hone : ∀ a : StatusAct, s'.log = s.log ++ [⟨t,inst,a⟩] → a.RecordedBy ch inst c s →
      ∃ act : Option StatusAct, s'.log = s.log ++ act.toList.map (StatusEntry.mk t inst) ∧
        ∀ a ∈ act, a.RecordedBy ch inst c s := by
    refine fun a hl ha => ⟨some a,hl,?_⟩
    rintro b ⟨⟩
    exact ha
  have hnone : s'.log = s.log →
      ∃ act : Option StatusAct, s'.log = s.log ++ act.toList.map (StatusEntry.mk t inst) ∧
        ∀ a ∈ act, a.RecordedBy ch inst c s := fun hl => ⟨none,by simp [hl],by simp⟩
  cases c with
  | inl c =>
    obtain ⟨act,hacts,hby⟩ := clusterExec_inl_act h
    obtain ⟨-,state,-,rfl⟩ := clusterExec_inl h
    refine ⟨act,?_,hby⟩
    exact congrArg (fun acts => s.log ++ acts.map (StatusEntry.mk t inst)) hacts
  | inr c =>
    rcases clusterExec_inr h with ⟨err,hf,-,rfl⟩ | hc
    · exact hone (.refused err) rfl hf
    · cases c with
      | takeStatusEvent id =>
        simp only [commitStatus] at hc
        split at hc
        · next he =>
          cases hc
          exact hone _ rfl ⟨rfl,he⟩
        · next e he =>
          cases hc
          exact hone _ rfl ⟨id,rfl,he⟩
      | createEventInstance row =>
        simp only [commitStatus] at hc
        split at hc
        · cases hc
          exact hnone rfl
        · split at hc
          · cases hc
            exact hnone rfl
          · cases hc
            exact hone _ rfl rfl
      | findReadyIDs =>
        simp only [commitStatus] at hc
        split at hc
        · next hp =>
          cases hc
          exact hone _ rfl ⟨rfl,hp⟩
        · cases hc
      | findEventsOf ready =>
        simp only [commitStatus] at hc
        split at hc
        · next hp =>
          cases hc
          exact hone _ rfl ⟨ready,rfl,hp⟩
        · cases hc
      | rLock =>
        simp only [commitStatus] at hc
        split at hc
        · next hp =>
          cases hc
          exact hone _ rfl ⟨rfl,hp⟩
        · cases hc
      | register | unregister =>
        simp only [commitStatus] at hc
        split at hc
        · cases hc
        · cases hc
          exact hone _ rfl rfl
      | receive =>
        simp only [commitStatus] at hc
        split at hc
        · cases hc
        · next res hres =>
          cases hc
          exact hone _ rfl ⟨rfl,hres⟩
      | deleteStatusEvents | hand | rUnlock =>
        cases hc
        exact hone _ rfl rfl
      | saveInstance | markInstances | newUUID =>
        cases hc
        exact hnone rfl

end Exec

end Maestro
