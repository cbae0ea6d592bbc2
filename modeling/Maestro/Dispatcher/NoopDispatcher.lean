import Maestro.Api.Consumer
import Maestro.Client.SourceClient
import Maestro.Data.Search

/-!
# The noop dispatcher

With a shared subscription every instance handles every status, and `NoopDispatcher` only asks
for statuses again: of all consumers, when the source client has subscribed and when an instance
went down. It names the consumers by their IDs.
-/

namespace Maestro
open Data

/-- What the environment decides for one signal. -/
structure NoopEnv extends SourceEnv where
  /-- Whether listing the consumers fails. -/
  all : Option DbErr := none

/-- `NoopDispatcher` with the table of the consumers, whose IDs and names are unique. -/
structure NoopDispatcher where
  consumers : List Consumer
  ids_nodup : (consumers.map Consumer.id).Nodup
  names_nodup : (consumers.map Consumer.name).Nodup
  sourceClient : SourceClient

inductive NoopSignal
  | subscribed
  /-- A notification on the channel `server_instances`. -/
  | notified (ids : String)

namespace NoopDispatcher

variable (ext : External) (env : NoopEnv)

/-- `ConsumerDao.All`. -/
def all (d : NoopDispatcher) : Except DbErr (List Consumer) :=
  match env.all with
  | some err => .error err
  | none => .ok d.consumers

def resync (consumers : List String) (d : NoopDispatcher) : Except String Unit × NoopDispatcher :=
  let (result,sourceClient) := d.sourceClient.resync ext env.toSourceEnv consumers
  (result,{ d with sourceClient := sourceClient })

/-- One round of `resyncOnSubscribed`. -/
def resyncOnSubscribed (d : NoopDispatcher) : NoopDispatcher :=
  match d.all env with
  | .error _ => d
  | .ok consumers => (resync ext env (consumers.map Consumer.id) d).2

def onInstanceDown (d : NoopDispatcher) : Except String Unit × NoopDispatcher :=
  match d.all env with
  | .error err => (.error ("unable to get all consumers: " ++ err.error),d)
  | .ok consumers =>
    match resync ext env (consumers.map Consumer.id) d with
    | (.error err,d) => (.error ("unable to trigger statusresync: " ++ err),d)
    | (.ok (),d) => (.ok (),d)

/-- `strings.Split` at a separator of one character. -/
def split (s : String) (sep : Char) : List String := (s.toList.splitOn sep).map String.ofList

/-- Whether a notification says that instances went down. -/
def reportsDown (ids : String) : Bool :=
  match split ids ':' with
  | [state,idList] => state = "unready" ∧ (split idList ',').length > 0
  | _ => false

def onInstanceUpdate (ids : String) (d : NoopDispatcher) : NoopDispatcher :=
  if reportsDown ids then (onInstanceDown ext env d).2 else d

def handle : NoopSignal → NoopDispatcher → NoopDispatcher
  | .subscribed => resyncOnSubscribed ext env
  | .notified ids => onInstanceUpdate ext env ids

end NoopDispatcher

/-- The signals that ask for statuses. -/
def NoopSignal.asks : NoopSignal → Bool
  | .subscribed => true
  | .notified ids => NoopDispatcher.reportsDown ids

namespace SourceClient

variable {ext : External} {env : SourceEnv} {consumer : String} {s : SourceClient}

/-- The events are a resync of one consumer: addressed to it, with the hashes of its resources. -/
structure Resyncs (ext : External) (s : SourceClient) (consumer : String)
    (events : List ResyncEvent) : Prop where
  nonempty : events ≠ []
  address : ∀ evt ∈ events, evt.clusterName = consumer
  hashes : List.Forall₂ (HashOf ext) (s.resourcesOf consumer) (events.flatMap ResyncEvent.hashes)

/-- Either every hash of a listing can be computed or one cannot. -/
theorem hashes_or_error (ext : External) (objs : List Resource) :
    (∃ hashes, List.Forall₂ (HashOf ext) objs hashes) ∨
      ∃ obj ∈ objs, ∃ err, resourceStatusHashGetter ext obj = .error err := by
  induction objs with
  | nil => exact Or.inl ⟨[],.nil⟩
  | cons obj objs ih =>
    cases hobj : resourceStatusHashGetter ext obj with
    | error err => exact Or.inr ⟨obj,List.mem_cons_self,err,hobj⟩
    | ok hash =>
      rcases ih with ⟨hashes,hrest⟩ | ⟨other,hm,err,herr⟩
      · exact Or.inl ⟨⟨obj.id,hash⟩ :: hashes,.cons ⟨rfl,hobj⟩ hrest⟩
      · exact Or.inr ⟨other,List.mem_cons_of_mem _ hm,err,herr⟩

theorem Resyncs.hash {events : List ResyncEvent} (h : Resyncs ext s consumer events) :
    ∀ obj ∈ s.resourcesOf consumer, ∃ hash, resourceStatusHashGetter ext obj = .ok hash := by
  intro obj hm
  cases hobj : resourceStatusHashGetter ext obj with
  | ok hash => exact ⟨hash,rfl⟩
  | error err =>
    obtain ⟨e,he⟩ := statusHashes_error hm hobj
    cases he.symm.trans (statusHashes_eq_ok.mpr h.hashes)

section Sending

variable (hfind : ∀ n, env.find n = none)
  (hsend : ∀ n consumer batchNum totalBatches,
    (env.event n).outcome consumer batchNum totalBatches = .ok ())

include hfind hsend

/-- The resync of one consumer when no query and no send fails. -/
theorem resyncConsumer_resyncs {hashes : List ResourceStatusHash}
    (hall : List.Forall₂ (HashOf ext) (s.resourcesOf consumer) hashes) :
    ∃ events s', resyncConsumer ext env consumer s = (.ok (),s') ∧
      s'.resources = s.resources ∧ s'.sent = s.sent ++ events ∧ Resyncs ext s consumer events := by
  have hrun := resyncConsumer_eq (hfind s.queries) rfl (statusHashes_eq_ok.mpr hall)
  obtain ⟨s',hs',hsent⟩ := sendEach_ok (s := { s with queries := s.queries + 1 })
    fun k _ => hsend (s.built + k) consumer (1 + k) (batchesOf hashes).length
  refine ⟨_,s',hrun.trans hs',hsent.resources,hsent.sent,?_,?_,?_⟩
  · have hpos : 0 < (batchesOf hashes).length := by
      rw [batchesOf_length]
      omega
    rw [ne_eq,List.map_eq_nil_iff]
    exact List.ne_nil_of_length_pos hpos
  · intro evt hm
    obtain ⟨batch,-,rfl⟩ := List.mem_map.mp hm
    rfl
  · have hflat : ((batchesOf hashes).map
        ({ s with queries := s.queries + 1 }.resyncEvent consumer)).flatMap ResyncEvent.hashes =
          hashes := by
      rw [List.flatMap_map]
      exact List.flatMap_id.trans (batchesOf_flatten hashes)
    rw [hflat]
    exact hall

/-- The consumers are resynced in order, up to one with a resource whose hash cannot be
computed. -/
theorem resync_resyncs (ext : External) (s : SourceClient) (consumers : List String) :
    ∃ k groups, List.Forall₂ (Resyncs ext s) (consumers.take k) groups ∧
      (s.resync ext env consumers).2.sent = s.sent ++ groups.flatten ∧
      ((∀ consumer ∈ consumers, ∀ obj ∈ s.resourcesOf consumer,
        ∃ hash, resourceStatusHashGetter ext obj = .ok hash) → consumers.length ≤ k) := by
  induction consumers generalizing s with
  | nil => exact ⟨0,[],.nil,by simp [resync],by simp⟩
  | cons consumer consumers ih =>
    rcases hashes_or_error ext (s.resourcesOf consumer) with ⟨hashes,hall⟩ | ⟨obj,hm,err,herr⟩
    · obtain ⟨events,s₁,hrun,hres,hsent,hevents⟩ := resyncConsumer_resyncs hfind hsend hall
      -- the table is the same for the consumers that follow
      have hof : s₁.resourcesOf = s.resourcesOf := by
        funext name
        rw [resourcesOf,resourcesOf,hres]
      obtain ⟨k,groups,hgroups,hsent',hk⟩ := ih s₁
      refine ⟨k+1,events :: groups,.cons hevents ?_,?_,?_⟩
      · refine hgroups.imp fun other group h => ⟨h.nonempty,h.address,?_⟩
        rw [← hof]
        exact h.hashes
      · rw [resync,hrun]
        dsimp only
        rw [hsent',hsent,List.flatten_cons,List.append_assoc]
      · intro hhash
        have := hk fun other hm => by
          rw [hof]
          exact hhash other (List.mem_cons_of_mem _ hm)
        simpa using this
    · refine ⟨0,[],.nil,?_,?_⟩
      · obtain ⟨e,hhashes⟩ := statusHashes_error hm herr
        simp [resync,resyncConsumer,list,hfind,hhashes]
      · intro hhash
        obtain ⟨hash,hok⟩ := hhash consumer List.mem_cons_self obj hm
        cases herr.symm.trans hok

end Sending

end SourceClient

namespace NoopDispatcher

/-- Every consumer in turn is asked under its name for the statuses of its resources. -/
def ResyncsAll (ext : External) (d d' : NoopDispatcher) : Prop :=
  ∃ groups, List.Forall₂ (fun c : Consumer => d.sourceClient.Resyncs ext c.name) d.consumers groups ∧
    d'.sourceClient.sent = d.sourceClient.sent ++ groups.flatten

variable {ext : External} {env : NoopEnv} {d : NoopDispatcher}

theorem handle_sourceClient {signal : NoopSignal} (hsignal : signal.asks) (hall : env.all = none) :
    (d.handle ext env signal).sourceClient =
      (d.sourceClient.resync ext env.toSourceEnv (d.consumers.map Consumer.id)).2 := by
  cases signal with
  | subscribed => simp [handle,resyncOnSubscribed,all,hall,resync]
  | notified ids =>
    have hdown : reportsDown ids := hsignal
    simp only [handle,onInstanceUpdate,if_pos hdown,onInstanceDown,all,hall,resync]
    split <;> next h => exact (congrArg (fun p => p.2.sourceClient) h).symm

/-- When no query and no send fails, all consumers are resynced exactly when their IDs are their
names and every hash can be computed. -/
theorem noop_resyncs_all_iff (ext : External) (env : NoopEnv) (d : NoopDispatcher)
    (signal : NoopSignal) (hsignal : signal.asks) (hall : env.all = none)
    (hfind : ∀ n, env.find n = none)
    (hsend : ∀ n consumer batchNum totalBatches,
      (env.event n).outcome consumer batchNum totalBatches = .ok ()) :
    ResyncsAll ext d (d.handle ext env signal) ↔
      (∀ c ∈ d.consumers, c.id = c.name) ∧
        ∀ c ∈ d.consumers, ∀ obj ∈ d.sourceClient.resourcesOf c.name,
          ∃ hash, resourceStatusHashGetter ext obj = .ok hash := by
  obtain ⟨k,sentGroups,hsentGroups,hsent,hk⟩ := SourceClient.resync_resyncs hfind hsend ext
    d.sourceClient (d.consumers.map Consumer.id)
  rw [ResyncsAll,handle_sourceClient hsignal hall,hsent]
  constructor
  · rintro ⟨groups,hgroups,hflat⟩
    -- one list of events, cut into runs by the names and into runs by the IDs
    have hnames : (groups.flatten.map ResyncEvent.clusterName).dedup =
        d.consumers.map Consumer.name := by
      refine dedup_runs d.names_nodup (List.forall₂_map_left_iff.mpr ?_)
      exact hgroups.imp fun c group h => ⟨h.nonempty,h.address⟩
    have hids : (sentGroups.flatten.map ResyncEvent.clusterName).dedup =
        (d.consumers.map Consumer.id).take k :=
      dedup_runs (d.ids_nodup.sublist (List.take_sublist _ _))
        (hsentGroups.imp fun c group h => ⟨h.nonempty,h.address⟩)
    rw [List.append_cancel_left hflat,hnames] at hids
    have hlen := congrArg List.length hids
    simp only [List.length_map,List.length_take] at hlen
    rw [List.take_of_length_le (by rw [List.length_map]; omega)] at hids
    refine ⟨fun c hc => (List.map_inj_left.mp hids c hc).symm,fun c hc => ?_⟩
    obtain ⟨group,-,hgroup⟩ := exists_of_forall₂ hgroups c hc
    exact hgroup.hash
  · rintro ⟨hid,hhash⟩
    have hnames : d.consumers.map Consumer.id = d.consumers.map Consumer.name :=
      List.map_congr_left hid
    rw [hnames] at hsentGroups hk
    have hle : (d.consumers.map Consumer.name).length ≤ k := by
      apply hk
      intro consumer hm
      obtain ⟨c,hc,rfl⟩ := List.mem_map.mp hm
      exact hhash c hc
    rw [List.take_of_length_le hle,List.forall₂_map_left_iff] at hsentGroups
    exact ⟨sentGroups,hsentGroups,rfl⟩

/-- A table with one consumer of the given ID, named `cluster`, and a resource of it. -/
def sample (id : String) : NoopDispatcher where
  consumers := [{ id := id, name := "cluster" }]
  ids_nodup := List.nodup_singleton id
  names_nodup := List.nodup_singleton "cluster"
  sourceClient := .sample

theorem noop_resyncs_sample :
    ResyncsAll Reference.packages (sample "cluster")
      ((sample "cluster").handle Reference.packages {} (.notified "unready:instance")) := by
  refine (noop_resyncs_all_iff Reference.packages {} (sample "cluster")
    (.notified "unready:instance") (by decide +kernel) rfl (fun _ => rfl)
    (fun _ _ _ _ => rfl)).mpr ⟨?_,?_⟩
  · intro c hc
    rw [List.mem_singleton.mp hc]
  · intro c hc obj hm
    rw [List.mem_singleton.mp hc] at hm
    rw [List.mem_singleton.mp hm]
    exact ⟨_,rfl⟩

/-- The ID of a consumer is another text than its name: the resync is addressed to nobody and
lists nothing. -/
theorem noop_misses_consumer :
    ((sample "2a5b").handle Reference.packages {} .subscribed).sourceClient.sent =
      [⟨"maestro",resyncEventType,"2a5b",[]⟩] ∧
    ¬ ResyncsAll Reference.packages (sample "2a5b")
      ((sample "2a5b").handle Reference.packages {} .subscribed) := by
  have hsent : ((sample "2a5b").handle Reference.packages {} .subscribed).sourceClient.sent =
      [⟨"maestro",resyncEventType,"2a5b",[]⟩] := by decide +kernel
  refine ⟨hsent,?_⟩
  rintro ⟨groups,hgroups,hflat⟩
  rw [hsent] at hflat
  obtain ⟨events,rest,hevents,hrest,rfl⟩ := List.forall₂_cons_left_iff.mp hgroups
  cases hrest
  have hone : events = [⟨"maestro",resyncEventType,"2a5b",[]⟩] := by
    simpa [sample,SourceClient.sample] using hflat.symm
  exact absurd (hevents.address _ (hone ▸ List.mem_singleton_self _)) (by decide)

end NoopDispatcher

end Maestro
