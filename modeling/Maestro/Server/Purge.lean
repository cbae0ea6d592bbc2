import Maestro.Api.Reference
import Maestro.Server.PipelineOutlines

/-!
# The purge of handled status events

What `syncStatusEvents` deletes, in every run of the pipeline of all instances.
-/

namespace Maestro
open Concurrent Data StatusController

/-- The log holds the record, and before it the broadcast of what was recorded. -/
def RecordAnnounced (ext : External) (J : List StatusEntry) (row : EventInstance) : Prop :=
  ∃ (pre post : List StatusEntry) (t : ℕ) (x : String), J = pre ++ ⟨t,x,.recorded row⟩ :: post ∧
    Announces ext x (statusActsOf t pre) row

theorem RecordAnnounced.append {ext : External} {J K : List StatusEntry} {row : EventInstance}
    (h : RecordAnnounced ext J row) : RecordAnnounced ext (J ++ K) row := by
  obtain ⟨pre,post,t,x,rfl,ha⟩ := h
  exact ⟨pre,post ++ K,t,x,by simp,ha⟩

namespace Cluster

variable {s s' : Cluster}

theorem mem_statusEvents {e : StatusEvent} :
    e ∈ s.statusEvents.rows ↔ e ∈ s.state.statusEvents.rows ∧ e.id ∉ s.purged := by
  simp [statusEvents,Table.filter]

theorem find_statusEvents_none {id : String} : s.statusEvents.find id = none ↔
    s.state.statusEvents.find id = none ∨ id ∈ s.purged := by
  rw [statusEvents,Table.find_filter]
  cases hrow : s.state.statusEvents.find id with
  | none => simp
  | some e =>
    have hid : e.id = id := Table.find_some_key hrow
    simp [hid]

/-- The count of the query finds the events that all of the instances have recorded. -/
theorem mem_eventsOf {ready : List String} (hn : ready.Nodup) (hne : ready ≠ []) {id : String} :
    id ∈ s.eventsOf ready ↔ ∀ x ∈ ready, ⟨id,x⟩ ∈ s.eventInstances := by
  -- the instances that have recorded the event, each once
  generalize hfound : ((s.eventInstances.filter fun row => decide (row.instanceID ∈ ready)).filter
    fun row => decide (row.eventID = id)).map EventInstance.instanceID = found
  have hmem : ∀ x, x ∈ found ↔ x ∈ ready ∧ ⟨id,x⟩ ∈ s.eventInstances := by
    intro x
    rw [← hfound]
    simp only [List.mem_map,List.mem_filter,decide_eq_true_eq]
    constructor
    · rintro ⟨⟨_,_⟩,⟨⟨hm,hx⟩,rfl⟩,rfl⟩
      exact ⟨hx,hm⟩
    · rintro ⟨hx,hm⟩
      exact ⟨⟨id,x⟩,⟨⟨hm,hx⟩,rfl⟩,rfl⟩
  have hsub : found.dedup ⊆ ready := fun x hx => ((hmem x).mp (List.mem_dedup.mp hx)).1
  have hperm := (List.nodup_dedup found).subperm hsub
  unfold eventsOf
  simp only [List.mem_filter,List.mem_dedup,hfound,decide_eq_true_eq]
  constructor
  · rintro ⟨-,hlen⟩ x hx
    have hx' := (hperm.perm_of_length_le hlen.ge).mem_iff.mpr hx
    exact ((hmem x).mp (List.mem_dedup.mp hx')).2
  · intro h
    have hall : ready ⊆ found.dedup := fun x hx =>
      List.mem_dedup.mpr ((hmem x).mpr ⟨hx,h x hx⟩)
    refine ⟨?_,le_antisymm hperm.length_le (hn.subperm hall).length_le⟩
    obtain ⟨x,rest,rfl⟩ := List.exists_cons_of_ne_nil hne
    refine List.mem_map.mpr ⟨⟨id,x⟩,List.mem_filter.mpr ⟨h x List.mem_cons_self,?_⟩,rfl⟩
    simp

theorem eventsOf_nodup (ready : List String) : (s.eventsOf ready).Nodup :=
  (List.nodup_dedup _).filter _

end Cluster

section Step

variable {inst : String} {t : ℕ} {ch : ClusterChoice} {c : ClusterCall} {r : ClusterCall.Resp c}
    {s s' : Cluster}

/-- A record stays until its event is purged. -/
theorem TableEffect.row_stays (h : TableEffect inst t s c s') {row : EventInstance}
    (hrow : row ∈ s.eventInstances) : row ∈ s'.eventInstances ∨ row.eventID ∈ s'.purged := by
  cases h with
  | quiet acts hp he hl hq => exact Or.inl (he ▸ hrow)
  | insert row' hevent => exact Or.inl (List.mem_append_left _ hrow)
  | purge ids =>
    by_cases hgone : row.eventID ∈ (s.statusEvents.rows.filter
        fun e => decide (e.id ∈ ids)).map StatusEvent.id
    · exact Or.inr (List.mem_append_right _ hgone)
    · exact Or.inl (List.mem_filter.mpr ⟨hrow,decide_eq_true hgone⟩)

theorem TableEffect.purged_stays (h : TableEffect inst t s c s') {id : String}
    (hid : id ∈ s.purged) : id ∈ s'.purged := by
  cases h with
  | quiet acts hp he hl hq => exact hp ▸ hid
  | insert row' hevent => exact hid
  | purge ids => exact List.mem_append_left _ hid

/-- A new record comes from its insertion. -/
theorem TableEffect.row_new (h : TableEffect inst t s c s') {row : EventInstance}
    (hrow : row ∈ s'.eventInstances) : row ∈ s.eventInstances ∨
      c = .inr (.createEventInstance row) ∧ s.statusEvents.find row.eventID ≠ none ∧
        s'.log = s.log ++ [⟨t,inst,.recorded row⟩] := by
  cases h with
  | quiet acts hp he hl hq => exact Or.inl (he ▸ hrow)
  | insert row' hevent =>
    rcases List.mem_append.mp hrow with hold | hnew
    · exact Or.inl hold
    · rw [List.mem_singleton.mp hnew]
      exact Or.inr ⟨rfl,hevent,rfl⟩
  | purge ids => exact Or.inl (List.mem_filter.mp hrow).1

theorem TableEffect.recorded_new (h : TableEffect inst t s c s') {u : ℕ} {row : EventInstance}
    (hm : .recorded row ∈ s'.acts u) : .recorded row ∈ s.acts u ∨ row ∈ s'.eventInstances := by
  obtain ⟨x,hm⟩ := mem_statusActsOf.mp hm
  have hold : ⟨u,x,.recorded row⟩ ∈ s.log → .recorded row ∈ s.acts u :=
    fun hm => mem_statusActsOf.mpr ⟨x,hm⟩
  cases h with
  | quiet acts hp he hl hq =>
    rw [hl] at hm
    rcases List.mem_append.mp hm with hm | hm
    · exact Or.inl (hold hm)
    · obtain ⟨a,ha,hentry⟩ := List.mem_map.mp hm
      cases hentry
      exact (hq _ ha).elim
  | insert row' hevent =>
    rcases List.mem_append.mp hm with hm | hm
    · exact Or.inl (hold hm)
    · cases List.mem_singleton.mp hm
      exact Or.inr (List.mem_append_right _ List.mem_cons_self)
  | purge ids =>
    rcases List.mem_append.mp hm with hm | hm
    · exact Or.inl (hold hm)
    · cases List.mem_singleton.mp hm

/-- An event is purged by a delete that names it. -/
theorem TableEffect.purged_new (h : TableEffect inst t s c s') {id : String}
    (hid : id ∈ s'.purged) : id ∈ s.purged ∨ ∃ ids, c = .inr (.deleteStatusEvents ids) ∧ id ∈ ids := by
  cases h with
  | quiet acts hp he hl hq => exact Or.inl (hp ▸ hid)
  | insert row' hevent => exact Or.inl hid
  | purge ids =>
    rcases List.mem_append.mp hid with hold | hnew
    · exact Or.inl hold
    · obtain ⟨e,he,rfl⟩ := List.mem_map.mp hnew
      exact Or.inr ⟨ids,rfl,of_decide_eq_true (List.mem_filter.mp he).2⟩

theorem clusterExec_known (h : clusterExec inst t ch c s = some (r,s')) {id : String}
    (hid : s.state.statusEvents.find id ≠ none) : s'.state.statusEvents.find id ≠ none := by
  obtain ⟨e,he⟩ := Option.ne_none_iff_exists'.mp hid
  rw [clusterExec_statusEvent h he]
  exact Option.some_ne_none e

/-- A status event stays in the table until it is purged. -/
theorem clusterExec_mem {e : StatusEvent} (h : clusterExec inst t ch c s = some (r,s'))
    (he : e ∈ s.state.statusEvents.rows) : e ∈ s'.state.statusEvents.rows :=
  Table.find_some_mem (clusterExec_statusEvent h (Table.find_of_mem he))

end Step

/-- What was selected and not purged yet has the records of the snapshot, each of which is one of
the `old` ones or was announced. -/
structure Cluster.Purging (ext : External) (old : List EventInstance) (s : Cluster) : Prop where
  linked : ∀ row ∈ s.eventInstances, s.state.statusEvents.find row.eventID ≠ none
  announced : ∀ row ∈ s.eventInstances, row ∈ old ∨ RecordAnnounced ext s.log row
  distinct : ∀ t ready rest, s.acts t = .ready ready :: rest → ready.Nodup
  selected : ∀ t ready sel rest, s.acts t = .ready ready :: .selected sel :: rest → sel.Nodup ∧
    ∀ id ∈ sel, s.state.statusEvents.find id ≠ none ∧
      (id ∈ s.purged ∨ ∀ x ∈ ready, ⟨id,x⟩ ∈ s.eventInstances)
  purged : ∀ t ids events instances, .purged ids events instances ∈ s.acts t →
    ∀ id ∈ ids, id ∈ s.purged

/-- How a purge ends. -/
theorem PurgeRun.cases {acts : List StatusAct} {status : SyncStatus} (h : PurgeRun acts status) :
    (∃ err, .refused err ∈ acts) ∨ (status = .success ∧ acts = [.ready []]) ∨
      ∃ (ready sel : List String) (purges : List StatusAct), status = .success ∧
        acts = .ready ready :: .selected sel :: purges ∧ ready ≠ [] ∧
        Purges (batchStatusEventIDs sel 500) purges := by
  cases h with
  | @refused A err => exact Or.inl ⟨err,List.mem_append_right _ List.mem_cons_self⟩
  | idle => exact Or.inr (Or.inl ⟨rfl,rfl⟩)
  | done hr hp => exact Or.inr (Or.inr ⟨_,_,_,rfl,rfl,hr,hp⟩)

theorem Purges.mem {batches : List (List String)} {acts : List StatusAct} (h : Purges batches acts)
    {ids : List String} (hids : ids ∈ batches) :
    ∃ events instances, .purged ids events instances ∈ acts := by
  induction h with
  | nil => cases hids
  | cons hact _ ih =>
    rcases List.mem_cons.mp hids with rfl | hids
    · obtain ⟨events,instances,rfl⟩ := hact
      exact ⟨events,instances,List.mem_cons_self⟩
    · obtain ⟨events,instances,hm⟩ := ih hids
      exact ⟨events,instances,List.mem_cons_of_mem _ hm⟩

theorem mem_of_batch {sel ids : List String} (h : ids ∈ batchStatusEventIDs sel 500) {id : String}
    (hid : id ∈ ids) : id ∈ sel := by
  rw [← (batchStatusEventIDs_spec sel 500 (by decide)).1]
  exact List.mem_flatten.mpr ⟨ids,h,hid⟩

/-- A purge of all batches leaves nothing of what was selected. -/
theorem Cluster.Purging.all_purged {ext : External} {old : List EventInstance} {s : Cluster}
    (h : s.Purging ext old) {t : ℕ} {ready sel : List String} {purges : List StatusAct}
    (hacts : s.acts t = .ready ready :: .selected sel :: purges)
    (hp : Purges (batchStatusEventIDs sel 500) purges) {id : String} (hid : id ∈ sel) :
    id ∈ s.purged := by
  rw [← (batchStatusEventIDs_spec sel 500 (by decide)).1] at hid
  obtain ⟨ids,hbatch,hid⟩ := List.mem_flatten.mp hid
  obtain ⟨events,instances,hm⟩ := hp.mem hbatch
  refine h.purged t ids events instances ?_ id hid
  rw [hacts]
  exact List.mem_cons_of_mem _ (List.mem_cons_of_mem _ hm)

/-- Records of events that are in the table, and no acts yet. -/
structure Cluster.Begins (s₀ : Cluster) : Prop where
  log : s₀.log = []
  linked : ∀ row ∈ s₀.eventInstances, s₀.statusEvents.find row.eventID ≠ none

theorem Cluster.Begins.purging {s₀ : Cluster} (h : s₀.Begins) (ext : External) :
    s₀.Purging ext s₀.eventInstances := by
  have hacts : ∀ t, s₀.acts t = [] := fun t => by simp [Cluster.acts,h.log,statusActsOf]
  refine ⟨fun row hrow hnone => h.linked row hrow ?_,fun row hrow => Or.inl hrow,?_,?_,?_⟩
  · exact Cluster.find_statusEvents_none.mpr (Or.inl hnone)
  all_goals
    intro t
    rw [hacts t]
    simp

section Invariant

variable {ext : External} {svr : GRPCServer} {n : ℕ} {inst : Fin n → String}
    {tasks : Fin n → StatusTask} {i : Fin n} {ch : ClusterChoice} {c : ClusterCall}
    {r : ClusterCall.Resp c} {s s' : Cluster} {old : List EventInstance}

/-- What the acts of a session are after a call. -/
theorem clusterExec_acts (h : clusterExec (inst i) i ch c s = some (r,s')) (t : ℕ) :
    s'.acts t = s.acts t ∨ t = i ∧ ∃ a, s'.acts t = s.acts t ++ [a] ∧ a.RecordedBy ch (inst i) c s := by
  by_cases ht : t = i
  · obtain ⟨act,hl,hby⟩ := clusterExec_act h
    have hacts := Cluster.acts_of_log hl
    subst ht
    cases act with
    | none => exact Or.inl (hacts.trans (List.append_nil _))
    | some a => exact Or.inr ⟨rfl,a,hacts,hby a rfl⟩
  · exact Or.inl (clusterExec_acts_ne (Ne.symm ht) h)

theorem Cluster.Purging.step (ha : pipelineRule ext svr inst tasks i c s)
    (hx : clusterExec (inst i) i ch c s = some (r,s')) (h : s.Purging ext old) :
    s'.Purging ext old := by
  have heffect := clusterExec_tableEffect hx
  obtain ⟨more,hlog⟩ := clusterExec_log hx
  have hkept : ∀ ready sel : List String, (∀ id ∈ sel, s.state.statusEvents.find id ≠ none ∧
      (id ∈ s.purged ∨ ∀ x ∈ ready, ⟨id,x⟩ ∈ s.eventInstances)) →
      ∀ id ∈ sel, s'.state.statusEvents.find id ≠ none ∧
        (id ∈ s'.purged ∨ ∀ x ∈ ready, ⟨id,x⟩ ∈ s'.eventInstances) := by
    intro ready sel hsel id hid
    obtain ⟨hknown,hrows⟩ := hsel id hid
    refine ⟨clusterExec_known hx hknown,?_⟩
    by_cases hp : id ∈ s'.purged
    · exact Or.inl hp
    · refine Or.inr fun x hx => ?_
      rcases hrows with hpurged | hrows
      · exact absurd (heffect.purged_stays hpurged) hp
      · exact (heffect.row_stays (hrows x hx)).resolve_right hp
  refine ⟨fun row hrow => ?_,fun row hrow => ?_,fun t ready rest hacts => ?_,
    fun t ready sel rest hacts => ?_,fun t ids events instances hm => ?_⟩
  · rcases heffect.row_new hrow with hold | ⟨-,hevent,-⟩
    · exact clusterExec_known hx (h.linked row hold)
    · exact clusterExec_known hx fun hnone =>
        hevent (Cluster.find_statusEvents_none.mpr (Or.inl hnone))
  · rcases heffect.row_new hrow with hold | ⟨rfl,-,hl⟩
    · rw [hlog]
      exact (h.announced row hold).imp_right RecordAnnounced.append
    · rw [hl]
      exact Or.inr ⟨s.log,[],i,inst i,rfl,ha⟩
  · rcases clusterExec_acts hx t with he | ⟨-,a,he,hby⟩
    · exact h.distinct t ready rest (he ▸ hacts)
    · rw [hacts] at he
      cases hold : s.acts t with
      | nil =>
        rw [hold] at he
        cases he
        exact hby.2.nodup_iff.mpr (s.serverInstances.nodup.sublist (List.filter_sublist.map _))
      | cons b old =>
        rw [hold] at he
        cases he
        exact h.distinct t ready old hold
  · rcases clusterExec_acts hx t with he | ⟨rfl,a,he,hby⟩
    · obtain ⟨hn,hsel⟩ := h.selected t ready sel rest (he ▸ hacts)
      exact ⟨hn,hkept ready sel hsel⟩
    · rw [hacts] at he
      match hold : s.acts i with
      | [] =>
        rw [hold] at he
        cases he
      | [b] =>
        -- the selection itself
        rw [hold] at he
        cases he
        obtain ⟨ready',rfl,hperm⟩ := hby
        obtain ⟨hne,hready⟩ := ha
        rw [hold] at hready
        cases hready
        have hdistinct := h.distinct i ready [] hold
        refine ⟨hperm.nodup_iff.mpr (Cluster.eventsOf_nodup ready),hkept ready sel fun id hid => ?_⟩
        have hrows := (Cluster.mem_eventsOf hdistinct hne).mp (hperm.mem_iff.mp hid)
        obtain ⟨x,rest,rfl⟩ := List.exists_cons_of_ne_nil hne
        exact ⟨h.linked _ (hrows x List.mem_cons_self),Or.inr hrows⟩
      | b :: b' :: old =>
        rw [hold] at he
        cases he
        obtain ⟨hn,hsel⟩ := h.selected i ready sel old hold
        exact ⟨hn,hkept ready sel hsel⟩
  · have hold : .purged ids events instances ∈ s.acts t → ∀ id ∈ ids, id ∈ s'.purged :=
      fun hm id hid => heffect.purged_stays (h.purged t ids events instances hm id hid)
    rcases clusterExec_acts hx t with he | ⟨rfl,a,he,hby⟩
    · exact hold (he ▸ hm)
    · rw [he] at hm
      rcases List.mem_append.mp hm with hm | hm
      · exact hold hm
      · cases List.mem_singleton.mp hm
        subst hby
        intro id hid
        -- what is purged was selected, and so is an event
        obtain ⟨ready,sel,purges,hr,hacts,hbatch⟩ := ha
        have hknown := ((h.selected i ready sel purges hacts).2 id (mem_of_batch hbatch hid)).1
        obtain ⟨e,he'⟩ := Option.ne_none_iff_exists'.mp hknown
        rcases clusterExec_deleteStatusEvents hx with ⟨-,rfl⟩ | ⟨err,-,rfl⟩
        · by_cases hp : id ∈ s.purged
          · exact List.mem_append_left _ hp
          · refine List.mem_append_right _ (List.mem_map.mpr ⟨e,List.mem_filter.mpr ⟨?_,?_⟩,
              Table.find_some_key he'⟩)
            · have hkey : e.id = id := Table.find_some_key he'
              exact Cluster.mem_statusEvents.mpr ⟨Table.find_some_mem he',hkey ▸ hp⟩
            · exact decide_eq_true ((Table.find_some_key he' : e.id = id) ▸ hid)
        · rw [Cluster.acts_record_self] at he
          have := List.append_cancel_left he
          cases this

end Invariant

section Runs

variable {ext : External} {svr : GRPCServer} {n : ℕ} {inst : Fin n → String}
    {tasks : Fin n → StatusTask}
    {pool : Fin n → ClusterChoice → (c : ClusterCall) → Cluster →
      Option (ClusterCall.Resp c × Cluster)} {s₀ : Cluster}
    {cfg : Config (Fin n) Cluster ClusterCall ClusterCall.Resp StatusReply}

theorem Pipelined.purging (hpool : Pipelined inst pool) (h₀ : s₀.Begins)
    (hr : Reach pool (pipelineStart ext svr inst tasks s₀) cfg) :
    cfg.shared.Purging ext s₀.eventInstances :=
  (hpool.verified ext svr tasks h₀.log).invariant
    (fun i ch c s r s' ha hx h => h.step ha (hpool i ch c s r s' hx)) hr (h₀.purging ext)

theorem clusterPool_pipelined : Pipelined inst (clusterPool inst) := fun _ _ _ _ _ _ h => h

end Runs

/-- A status event is deleted only by a purge whose snapshot of ready instances is not empty and
all of whose instances have recorded the event, after its broadcast. A purge without a
database error deletes all that it selected, in batches of at most 500, or nothing when no
instance is ready. -/
theorem status_events_purged_safely (ext : External) (svr : GRPCServer) {n : ℕ}
    (inst : Fin n → String) (tasks : Fin n → StatusTask) {s₀ : Cluster} (h₀ : s₀.Begins)
    {cfg : Config (Fin n) Cluster ClusterCall ClusterCall.Resp StatusReply}
    (hr : Reach (clusterPool inst) (pipelineStart ext svr inst tasks s₀) cfg) :
    (∀ cfg' e, Step (clusterPool inst) cfg cfg' → e ∈ cfg.shared.statusEvents.rows →
      e ∉ cfg'.shared.statusEvents.rows → ∃ (i : Fin n) (ready sel : List String)
        (purges : List StatusAct), cfg.shared.acts i = .ready ready :: .selected sel :: purges ∧
        ready ≠ [] ∧ e.id ∈ sel ∧ ∀ x ∈ ready, ⟨e.id,x⟩ ∈ cfg.shared.eventInstances ∧
          (⟨e.id,x⟩ ∈ s₀.eventInstances ∨ RecordAnnounced ext cfg.shared.log ⟨e.id,x⟩)) ∧
    ∀ i status, tasks i = .sync → cfg.threads i = .ret (.synced status) →
      (∀ err, .refused err ∉ cfg.shared.acts i) → status = .success ∧
      (cfg.shared.acts i = [.ready []] ∨ ∃ (ready sel : List String) (purges : List StatusAct),
        cfg.shared.acts i = .ready ready :: .selected sel :: purges ∧ ready ≠ [] ∧
        Purges (batchStatusEventIDs sel 500) purges ∧
        sel.Nodup ∧ (batchStatusEventIDs sel 500).flatten = sel ∧
        (∀ batch ∈ batchStatusEventIDs sel 500, batch.length ≤ 500) ∧
        ∀ id ∈ sel, cfg.shared.statusEvents.find id = none) := by
  have hinv := clusterPool_pipelined.purging h₀ hr
  have hver := (clusterPool_pipelined.verified ext svr tasks h₀.log).reach hr
  refine ⟨?_,fun i status htask hret hok => ?_⟩
  · rintro cfg' e ⟨i,ch,ht,hx⟩ he hgone
    have ha := hver.next ht
    obtain ⟨hmem,hkept⟩ := Cluster.mem_statusEvents.mp he
    have hpurged := not_imp_comm.mp (fun hp =>
      Cluster.mem_statusEvents.mpr ⟨clusterExec_mem hx hmem,hp⟩) hgone
    rcases (clusterExec_tableEffect hx).purged_new hpurged with hold | ⟨ids,rfl,hid⟩
    · exact absurd hold hkept
    · obtain ⟨ready,sel,purges,hne,hacts,hbatch⟩ := ha
      have hin := mem_of_batch hbatch hid
      have hrows := ((hinv.selected i ready sel purges hacts).2 e.id hin).2.resolve_left hkept
      exact ⟨i,ready,sel,purges,hacts,hne,hin,fun x hx =>
        ⟨hrows x hx,hinv.announced _ (hrows x hx)⟩⟩
  · have hpost := hver.result hret
    rw [htask] at hpost
    obtain ⟨status',hs,hrun⟩ := hpost
    cases hs
    rcases hrun.cases with ⟨err,hm⟩ | ⟨rfl,hacts⟩ | ⟨ready,sel,purges,rfl,hacts,hne,hp⟩
    · exact absurd hm (hok err)
    · exact ⟨rfl,Or.inl hacts⟩
    · obtain ⟨hflat,hsize⟩ := batchStatusEventIDs_spec sel 500 (by decide)
      exact ⟨rfl,Or.inr ⟨ready,sel,purges,hacts,hne,hp,
        (hinv.selected i ready sel purges hacts).1,hflat,fun batch hb => (hsize batch hb).2,
        fun id hid => Cluster.find_statusEvents_none.mpr (Or.inr (hinv.all_purged hacts hp hid))⟩⟩

/-- A schedule of the pipeline from the `k`-th turn on, the `n`-th turn at time `n`. -/
def clusterTurns {n : ℕ} (k : ℕ) (sessions : List (Fin n)) : List (Fin n × ClusterChoice) :=
  (sessions.zipIdx k).map fun (i,k) => (i,{ base := .counting (fun _ => none) k })

/-- A server without authorization. -/
def pipelineServer : GRPCServer := ⟨true,fun _ _ _ _ _ => .ok true,0⟩

/-- A message of the agent of the reference row. -/
def statusReport (condition sequenceID : String) : StatusTask :=
  .report { Reference.webRow.scan with status := Reference.statusWith condition sequenceID }

def readyInstance : ServerInstance := ⟨"maestro-1",true⟩

/-- The reference row and one ready instance. -/
def readyCluster : Cluster where
  state := .single Reference.webRow
  serverInstances := Table.empty.save readyInstance

/-- A status message, the handling of its event and a purge. -/
def reportedTasks : Fin 3 → StatusTask
  | 0 => statusReport "Applied" "7"
  | 1 => .work 0 "uuid-5"
  | 2 => .sync

abbrev reportedStart : Config (Fin 3) Cluster ClusterCall ClusterCall.Resp StatusReply :=
  pipelineStart Reference.packages pipelineServer (fun _ => "maestro-1") reportedTasks readyCluster

theorem status_events_purged_safely_once :
    ∃ cfg cfg' : Config (Fin 3) Cluster ClusterCall ClusterCall.Resp StatusReply,
      Reach (clusterPool fun _ => "maestro-1") reportedStart cfg ∧
      Step (clusterPool fun _ => "maestro-1") cfg cfg' ∧
      ∃ e ∈ cfg.shared.statusEvents.rows, e ∉ cfg'.shared.statusEvents.rows ∧
      ∃ (i : Fin 3) (ready sel : List String) (purges : List StatusAct),
        cfg.shared.acts i = .ready ready :: .selected sel :: purges ∧ ready ≠ [] ∧ e.id ∈ sel ∧
        ∀ x ∈ ready, ⟨e.id,x⟩ ∈ cfg.shared.eventInstances ∧ (⟨e.id,x⟩ ∈ readyCluster.eventInstances ∨
          RecordAnnounced Reference.packages cfg.shared.log ⟨e.id,x⟩) := by
  have h : (follow (clusterPool fun _ => "maestro-1")
      (clusterTurns 0 [0,0,0,0,0,0,0,1,1,1,1,1,1,1,2,2]) reportedStart).any fun cfg =>
      (follow (clusterPool fun _ => "maestro-1") (clusterTurns 16 [2]) cfg).any fun cfg' =>
        cfg.shared.statusEvents.rows.any fun e =>
          decide (e ∉ cfg'.shared.statusEvents.rows) := by
    decide +kernel
  obtain ⟨cfg,hr,h⟩ := (Option.any_eq_true _ _).mp h
  obtain ⟨cfg',hs,h⟩ := (Option.any_eq_true _ _).mp h
  obtain ⟨e,he,hgone⟩ := List.any_eq_true.mp h
  have hgone := of_decide_eq_true hgone
  have hsafe := status_events_purged_safely Reference.packages pipelineServer _ _
    ⟨rfl,fun row hrow => by cases hrow⟩ (.of_follow _ hr)
  exact ⟨cfg,cfg',.of_follow _ hr,.of_follow _ hs,e,he,hgone,
    hsafe.1 cfg' e (.of_follow _ hs) he hgone⟩

/-- No statement reports a missing row without looking for it, and no handling of the event
finds its resource missing. -/
def ClusterChoice.present (ch : ClusterChoice) (key : String) (task : StatusTask) (c : ClusterCall)
    (s : Cluster) : Bool :=
  decide (ch.refusal c ≠ some .recordNotFound) &&
  match task, c with
  | .work _ key', .inl (.takeResource id) =>
    decide (key' = key → s.state.resources.find id ≠ none)
  | _, _ => true

def presentPool {n : ℕ} (inst : Fin n → String) (tasks : Fin n → StatusTask) (key : String)
    (i : Fin n) (ch : ClusterChoice) (c : ClusterCall) (s : Cluster) :
    Option (ClusterCall.Resp c × Cluster) :=
  if ch.present key (tasks i) c s then clusterExec (inst i) i ch c s else none

/-- What the handling of the event leaves behind. -/
structure Cluster.Handling {n : ℕ} (tasks : Fin n → StatusTask) (key : String) (s : Cluster) :
    Prop where
  pending : ∀ e ∈ s.state.statusEvents.rows, e.reconciledDate = none
  took : ∀ t e, .tookEvent e ∈ s.acts t → e.reconciledDate = none
  honest : ∀ t, .refused .recordNotFound ∉ s.acts t
  present : ∀ (i : Fin n) queue id, tasks i = .work queue key → .missedResource id ∉ s.acts i
  recorded : ∀ t row, .recorded row ∈ s.acts t → row ∈ s.eventInstances ∨ row.eventID ∈ s.purged

section Completeness

variable {ext : External} {svr : GRPCServer} {n : ℕ} {inst : Fin n → String}
    {tasks : Fin n → StatusTask} {key : String} {i : Fin n} {ch : ClusterChoice} {c : ClusterCall}
    {r : ClusterCall.Resp c} {s s' : Cluster} {old : List EventInstance}

theorem presentPool_exec (h : presentPool inst tasks key i ch c s = some (r,s')) :
    clusterExec (inst i) i ch c s = some (r,s') ∧ ch.present key (tasks i) c s := by
  unfold presentPool at h
  split at h
  · next hp => exact ⟨h,hp⟩
  · cases h

theorem presentPool_pipelined : Pipelined inst (presentPool inst tasks key) :=
  fun _ _ _ _ _ _ h => (presentPool_exec h).1

/-- An act of a session is an old one or comes from the call. -/
theorem clusterExec_mem_acts (h : clusterExec (inst i) i ch c s = some (r,s')) {t : ℕ}
    {a : StatusAct} (ha : a ∈ s'.acts t) :
    a ∈ s.acts t ∨ t = i ∧ a.RecordedBy ch (inst i) c s := by
  rcases clusterExec_acts h t with he | ⟨rfl,b,he,hby⟩
  · exact Or.inl (he ▸ ha)
  · rw [he] at ha
    rcases List.mem_append.mp ha with hold | hnew
    · exact Or.inl hold
    · rw [List.mem_singleton.mp hnew]
      exact Or.inr ⟨rfl,hby⟩

theorem statusEvents_pending (ha : pipelineRule ext svr inst tasks i c s)
    (hx : clusterExec (inst i) i ch c s = some (r,s'))
    (h : ∀ e ∈ s.state.statusEvents.rows, e.reconciledDate = none) :
    ∀ e ∈ s'.state.statusEvents.rows, e.reconciledDate = none := by
  cases c with
  | inr c => rw [clusterExec_inr_state hx]; exact h
  | inl c =>
    obtain ⟨-,state,hexec,rfl⟩ := clusterExec_inl hx
    rcases exec_statusEvents hexec with hs | ⟨event,hfree,rfl,hs⟩
    · intro e he
      exact h e (hs ▸ he)
    · intro e he
      have he : e ∈ (s.state.statusEvents.insert
        (event.beforeCreate ch.base.now ch.base.uuid) hfree).rows := hs ▸ he
      rcases List.mem_append.mp he with hold | hnew
      · exact h e hold
      · rw [List.mem_singleton.mp hnew]
        obtain ⟨message,-,hreport⟩ := ha
        generalize s.acts i = A at hreport
        cases hreport <;> rfl

theorem Cluster.Handling.step (ha : pipelineRule ext svr inst tasks i c s)
    (hx : presentPool inst tasks key i ch c s = some (r,s')) (h : s.Handling tasks key) :
    s'.Handling tasks key := by
  obtain ⟨hx,hp⟩ := presentPool_exec hx
  have heffect := clusterExec_tableEffect hx
  obtain ⟨hhonest,hpresent⟩ := (Bool.and_eq_true _ _).mp hp
  refine ⟨statusEvents_pending ha hx h.pending,fun t e hm => ?_,fun t hm => ?_,
    fun j queue id htask hm => ?_,fun t row hm => ?_⟩
  · rcases clusterExec_mem_acts hx hm with hold | ⟨-,id,-,hfind⟩
    · exact h.took t e hold
    · exact h.pending e (Cluster.mem_statusEvents.mp (Table.find_some_mem hfind)).1
  · rcases clusterExec_mem_acts hx hm with hold | ⟨-,hby⟩
    · exact h.honest t hold
    · exact of_decide_eq_true hhonest hby
  · rcases clusterExec_mem_acts hx hm with hold | ⟨hj,rfl,hmissing⟩
    · exact h.present j queue id htask hold
    · rw [← Fin.ext hj,htask] at hpresent
      exact of_decide_eq_true hpresent rfl hmissing
  · rcases heffect.recorded_new hm with hold | hrow
    · rcases h.recorded t row hold with hrow | hpurged
      · exact heffect.row_stays hrow
      · exact Or.inr (heffect.purged_stays hpurged)
    · exact Or.inl hrow

/-- The event was inserted, and a worker of these that did not find it came after its purge. -/
def Cluster.Known (key : String) (workers : ℕ → Prop) (s : Cluster) : Prop :=
  s.state.statusEvents.find key ≠ none ∧
    ∀ w, workers w → .missedEvent key ∈ s.acts w → key ∈ s.purged

theorem Cluster.Known.step {workers : ℕ → Prop} (hx : clusterExec (inst i) i ch c s = some (r,s'))
    (h : s.Known key workers) : s'.Known key workers := by
  refine ⟨clusterExec_known hx h.1,fun w hw hm => ?_⟩
  have heffect := clusterExec_tableEffect hx
  rcases clusterExec_mem_acts hx hm with hold | ⟨-,-,hnone⟩
  · exact heffect.purged_stays (h.2 w hw hold)
  · exact heffect.purged_stays ((Cluster.find_statusEvents_none.mp hnone).resolve_left h.1)

/-- The purge of session `j` is about to take the event, or it is gone. -/
structure Cluster.Due (key : String) (ready : List String) (j : ℕ) (s : Cluster) : Prop where
  recorded : key ∈ s.purged ∨ ∀ x ∈ ready, ⟨key,x⟩ ∈ s.eventInstances
  selected : ∀ sel rest, s.acts j = .ready ready :: .selected sel :: rest →
    key ∈ sel ∨ key ∈ s.purged

theorem Cluster.Due.step {ready : List String} {j : ℕ} (hdistinct : s.Purging ext old)
    (ha : pipelineRule ext svr inst tasks i c s)
    (hx : clusterExec (inst i) i ch c s = some (r,s')) (h : s.Due key ready j) :
    s'.Due key ready j := by
  have heffect := clusterExec_tableEffect hx
  refine ⟨?_,fun sel rest hacts => ?_⟩
  · by_cases hp : key ∈ s'.purged
    · exact Or.inl hp
    · refine Or.inr fun x hx => ?_
      rcases h.recorded with hpurged | hrows
      · exact absurd (heffect.purged_stays hpurged) hp
      · exact (heffect.row_stays (hrows x hx)).resolve_right hp
  · rcases clusterExec_acts hx j with he | ⟨rfl,a,he,hby⟩
    · exact (h.selected sel rest (he ▸ hacts)).imp_right heffect.purged_stays
    · rw [hacts] at he
      match hold : s.acts i with
      | [] =>
        rw [hold] at he
        cases he
      | [b] =>
        rw [hold] at he
        cases he
        obtain ⟨ready',rfl,hperm⟩ := hby
        obtain ⟨hne,hready⟩ := ha
        rw [hold] at hready
        cases hready
        refine h.recorded.symm.imp (fun hrows => hperm.mem_iff.mpr ?_) heffect.purged_stays
        exact (Cluster.mem_eventsOf (hdistinct.distinct i ready [] hold) hne).mpr hrows
      | b :: b' :: acts =>
        rw [hold] at he
        cases he
        exact (h.selected sel acts hold).imp_right heffect.purged_stays

/-- What the handling of the event without an error comes to. -/
theorem Cluster.Handling.of_handled {x : String} (h : s.Handling tasks key) {w : Fin n} {queue : ℕ}
    (htask : tasks w = .work queue key) (hw : Handled key x (s.acts w)) :
    .missedEvent key ∈ s.acts w ∨ ⟨key,x⟩ ∈ s.eventInstances ∨ key ∈ s.purged := by
  generalize hacts : s.acts w = acts at hw
  cases hw with
  | absent => exact Or.inl List.mem_cons_self
  | @reconciled e hrec =>
    have hnone := h.took w e (by rw [hacts]; exact List.mem_cons_self)
    rw [hnone] at hrec
    cases hrec
  | @vanished e => exact absurd (by rw [hacts]; simp) (h.present w queue e.resourceID htask)
  | recorded => exact Or.inr (h.recorded w ⟨key,x⟩ (by rw [hacts]; simp))
  | misled => exact absurd (by rw [hacts]; simp) (h.honest w)

end Completeness

/-- A status event that every ready instance has handled without an error, none of them without
its resource, is removed by a purge that starts after that and ends without a database error. -/
theorem handled_status_event_purged (ext : External) (svr : GRPCServer) {n : ℕ}
    (inst : Fin n → String) (tasks : Fin n → StatusTask) {s₀ : Cluster} (h₀ : s₀.Begins)
    (hpending : ∀ e ∈ s₀.state.statusEvents.rows, e.reconciledDate = none) {key : String}
    {cfg₀ cfg₁ cfg₂ : Config (Fin n) Cluster ClusterCall ClusterCall.Resp StatusReply}
    (hr₀ : Reach (presentPool inst tasks key) (pipelineStart ext svr inst tasks s₀) cfg₀)
    (hevent : cfg₀.shared.statusEvents.find key ≠ none)
    (hr₁ : Reach (presentPool inst tasks key) cfg₀ cfg₁) {ready : List String} (hne : ready ≠ [])
    (hhandled : ∀ x ∈ ready, ∃ (w : Fin n) (queue : ℕ), inst w = x ∧ tasks w = .work queue key ∧
      cfg₀.shared.acts w = [] ∧ cfg₁.threads w = .ret (.handled (.ok ())))
    (hr₂ : Reach (presentPool inst tasks key) cfg₁ cfg₂) {j : Fin n} (hsync : tasks j = .sync)
    (hlater : cfg₁.shared.acts j = []) {status : SyncStatus}
    (hdone : cfg₂.threads j = .ret (.synced status))
    (hsnapshot : ∃ rest, cfg₂.shared.acts j = .ready ready :: rest)
    (hok : ∀ err, .refused err ∉ cfg₂.shared.acts j) :
    cfg₂.shared.statusEvents.find key = none := by
  have hpool : Pipelined inst (presentPool inst tasks key) := presentPool_pipelined
  have hstart := hpool.verified ext svr tasks h₀.log
  have hacts : ∀ t, (pipelineStart ext svr inst tasks s₀).shared.acts t = [] := fun t => by
    simp [pipelineStart,Cluster.acts,h₀.log,statusActsOf]
  -- what the workers have done, when the last of them has returned
  have hhandling : cfg₁.shared.Handling tasks key := by
    refine hstart.invariant (fun _ _ _ _ _ _ ha hx h => h.step ha hx) (hr₀.trans hr₁) ⟨hpending,?_,?_,?_,?_⟩
    all_goals
      intros
      simp_all
  have hknown : cfg₁.shared.Known key fun w => cfg₀.shared.acts w = [] := by
    refine (hstart.reach hr₀).invariant (fun _ _ _ _ _ _ _ hx h => h.step (hpool _ _ _ _ _ _ hx))
      hr₁ ⟨fun hnone => hevent (Cluster.find_statusEvents_none.mpr (Or.inl hnone)),?_⟩
    intro w hw hm
    rw [hw] at hm
    cases hm
  have hrecorded : key ∈ cfg₁.shared.purged ∨ ∀ x ∈ ready, ⟨key,x⟩ ∈ cfg₁.shared.eventInstances := by
    by_cases hp : key ∈ cfg₁.shared.purged
    · exact Or.inl hp
    · refine Or.inr fun x hx => ?_
      obtain ⟨w,queue,rfl,htask,hfirst,hret⟩ := hhandled x hx
      have hpost := (hstart.reach (hr₀.trans hr₁)).result hret
      rw [htask] at hpost
      rcases hhandling.of_handled htask (hpost rfl) with hmissed | hrow | hpurged
      · exact absurd (hknown.2 w hfirst hmissed) hp
      · exact hrow
      · exact absurd hpurged hp
  -- the purge starts now
  have hdue : cfg₂.shared.Purging ext s₀.eventInstances ∧ cfg₂.shared.Due key ready j := by
    refine (hstart.reach (hr₀.trans hr₁)).invariant (K := fun s => s.Purging ext s₀.eventInstances ∧
      s.Due key ready j) (fun _ _ _ _ _ _ ha hx h => ?_) hr₂
      ⟨hpool.purging h₀ (hr₀.trans hr₁),hrecorded,?_⟩
    · have hx := hpool _ _ _ _ _ _ hx
      exact ⟨h.1.step ha hx,h.2.step h.1 ha hx⟩
    · intro sel rest hsel
      rw [hlater] at hsel
      cases hsel
  have hpost := (hstart.reach ((hr₀.trans hr₁).trans hr₂)).result hdone
  rw [hsync] at hpost
  obtain ⟨status',hs,hrun⟩ := hpost
  cases hs
  obtain ⟨rest,hsnapshot⟩ := hsnapshot
  refine Cluster.find_statusEvents_none.mpr (Or.inr ?_)
  rcases hrun.cases with ⟨err,hm⟩ | ⟨-,hidle⟩ | ⟨ready',sel,purges,-,hsel,-,hp⟩
  · exact absurd hm (hok err)
  · rw [hidle] at hsnapshot
    cases hsnapshot
    exact absurd rfl hne
  · rw [hsel] at hsnapshot
    cases hsnapshot
    rcases hdue.2.selected sel purges hsel with hin | hpurged
    · exact hdue.1.all_purged hsel hp hin
    · exact hpurged

theorem handled_status_event_purged_once :
    ∃ cfg : Config (Fin 3) Cluster ClusterCall ClusterCall.Resp StatusReply,
      Reach (presentPool (fun _ => "maestro-1") reportedTasks "uuid-5") reportedStart cfg ∧
      cfg.shared.state.statusEvents.find "uuid-5" ≠ none ∧
      cfg.shared.statusEvents.find "uuid-5" = none := by
  let pool := presentPool (fun _ => "maestro-1") reportedTasks "uuid-5"
  have h : (follow pool (clusterTurns 0 [0,0,0,0,0,0,0]) reportedStart).any fun cfg₀ =>
      (follow pool (clusterTurns 7 [1,1,1,1,1,1,1]) cfg₀).any fun cfg₁ =>
      (follow pool (clusterTurns 14 [2,2,2]) cfg₁).any fun cfg₂ =>
        decide (cfg₀.shared.statusEvents.find "uuid-5" ≠ none ∧ cfg₀.shared.acts 1 = [] ∧
          (cfg₁.threads 1).result = some (.handled (.ok ())) ∧ cfg₁.shared.acts 2 = [] ∧
          (cfg₂.threads 2).result = some (.synced .success) ∧
          (cfg₂.shared.acts 2).head? = some (.ready ["maestro-1"]) ∧
          (cfg₂.shared.acts 2).all (fun a => match a with | .refused _ => false | _ => true) ∧
          cfg₂.shared.state.statusEvents.find "uuid-5" ≠ none) := by
    decide +kernel
  obtain ⟨cfg₀,hr₀,h⟩ := (Option.any_eq_true _ _).mp h
  obtain ⟨cfg₁,hr₁,h⟩ := (Option.any_eq_true _ _).mp h
  obtain ⟨cfg₂,hr₂,h⟩ := (Option.any_eq_true _ _).mp h
  obtain ⟨hevent,hfirst,hret,hlater,hdone,hsnapshot,hok,hknown⟩ := of_decide_eq_true h
  have hr₀ := Reach.of_follow _ hr₀
  have hr₁ := Reach.of_follow _ hr₁
  have hr₂ := Reach.of_follow _ hr₂
  refine ⟨cfg₂,(hr₀.trans hr₁).trans hr₂,hknown,?_⟩
  refine handled_status_event_purged Reference.packages pipelineServer _ _
    ⟨rfl,fun row hrow => by cases hrow⟩ (fun e he => by cases he) hr₀ hevent hr₁
    (List.cons_ne_nil "maestro-1" []) (fun x hx => ?_) hr₂ (j := 2) rfl hlater
    (Prog.result_eq_some.mp hdone) (List.head?_eq_some_iff.mp hsnapshot) fun err hm => ?_
  · exact ⟨1,0,(List.mem_singleton.mp hx).symm,rfl,hfirst,Prog.result_eq_some.mp hret⟩
  · exact Bool.false_ne_true (List.all_eq_true.mp hok _ hm)

/-- A status message, the message that the resource is deleted, the handling of the event of the
first and a purge. -/
def vanishedTasks : Fin 4 → StatusTask
  | 0 => statusReport "Applied" "7"
  | 1 => statusReport "Deleted" "8"
  | 2 => .work 0 "uuid-5"
  | 3 => .sync

abbrev vanishedStart : Config (Fin 4) Cluster ClusterCall ClusterCall.Resp StatusReply :=
  pipelineStart Reference.packages pipelineServer (fun _ => "maestro-1") vanishedTasks readyCluster

/-- The only instance, which is ready, handles the event without an error after its resource was
deleted. It records nothing, so that the purge leaves the event in the table. -/
theorem vanished_status_event_stays :
    ∃ cfg₁ cfg₂ : Config (Fin 4) Cluster ClusterCall ClusterCall.Resp StatusReply,
      Reach (clusterPool fun _ => "maestro-1") vanishedStart cfg₁ ∧
      cfg₁.threads 2 = .ret (.handled (.ok ())) ∧ cfg₁.shared.acts 3 = [] ∧
      Reach (clusterPool fun _ => "maestro-1") cfg₁ cfg₂ ∧
      cfg₂.threads 3 = .ret (.synced .success) ∧
      cfg₂.shared.acts 3 = [.ready ["maestro-1"],.selected []] ∧
      cfg₂.shared.statusEvents.find "uuid-5" ≠ none := by
  have h : (follow (clusterPool fun _ => "maestro-1")
      (clusterTurns 0 [0,0,0,0,0,0,0,1,1,1,1,2,2,2,2,2]) vanishedStart).any fun cfg₁ =>
      (follow (clusterPool fun _ => "maestro-1") (clusterTurns 16 [3,3]) cfg₁).any fun cfg₂ =>
        decide ((cfg₁.threads 2).result = some (.handled (.ok ())) ∧ cfg₁.shared.acts 3 = [] ∧
          (cfg₂.threads 3).result = some (.synced .success) ∧
          cfg₂.shared.acts 3 = [.ready ["maestro-1"],.selected []] ∧
          cfg₂.shared.statusEvents.find "uuid-5" ≠ none) := by
    decide +kernel
  obtain ⟨cfg₁,hr₁,h⟩ := (Option.any_eq_true _ _).mp h
  obtain ⟨cfg₂,hr₂,h⟩ := (Option.any_eq_true _ _).mp h
  obtain ⟨hret,hlater,hdone,hacts,hstays⟩ := of_decide_eq_true h
  exact ⟨cfg₁,cfg₂,.of_follow _ hr₁,Prog.result_eq_some.mp hret,hlater,.of_follow _ hr₂,
    Prog.result_eq_some.mp hdone,hacts,hstays⟩

end Maestro
