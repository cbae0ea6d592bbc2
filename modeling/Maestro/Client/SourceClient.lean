import Mathlib
import Maestro.Api.Reference
import Maestro.Data.Chunks
import Maestro.Server.Publish

/-!
# The source client: status resync

`Resync` asks the agents of some consumers for the statuses that the server does not have. What
it sends to one consumer is cut into batches. The environment decides whether a query fails,
how large an event is and whether it can be sent; the client records what it logs and sends.
-/

namespace Maestro
open Data

structure ResourceStatusHash where
  resourceID : String
  statusHash : String
deriving DecidableEq

/-- A resync event, with what the client puts into it. -/
structure ResyncEvent where
  source : String
  eventType : CloudEventsType
  clusterName : String
  hashes : List ResourceStatusHash
deriving DecidableEq

/-- The log line of a batch. -/
structure BatchLog where
  consumer : String
  batchNum : ℕ
  totalBatches : ℕ
  resources : ℕ
  bytes : ℕ
deriving DecidableEq

/-- What the environment decides for one resync event. -/
structure EventChoice where
  setData : Except String Unit := .ok ()
  /-- The length of the marshalled event. -/
  marshalJSON : Except String ℕ := .ok 0
  send : Except String Unit := .ok ()

/-- The choices for the queries and for the events, each in order. -/
structure SourceEnv where
  find : ℕ → Option DbErr := fun _ => none
  event : ℕ → EventChoice := fun _ => {}

def statusHashBatchSize : ℕ := 1000

def maxMQTTPacketSize : ℕ := 512 * 1024

def eventDataType : String := "io.open-cluster-management.works.v1alpha1.manifestbundles"

def resyncEventType : CloudEventsType := ⟨eventDataType,"status",.resyncRequest⟩

namespace EventChoice

/-- The first part of `sendResyncBatch`: the length of the event, if it can be sent at all. -/
def encode (choice : EventChoice) (consumer : String) (batchNum totalBatches : ℕ) :
    Except String ℕ :=
  match choice.setData with
  | .error err => .error ("failed to set resync event data: " ++ err)
  | .ok () =>
    match choice.marshalJSON with
    | .error err => .error ("failed to marshal resync event: " ++ err)
    | .ok bytes =>
      if bytes > maxMQTTPacketSize then
        .error ("resync batch " ++ toString batchNum ++ "/" ++ toString totalBatches ++
          " for consumer " ++ consumer ++ " is " ++ toString bytes ++
          " bytes, exceeds MQTT max_packet_size " ++ toString maxMQTTPacketSize)
      else .ok bytes

/-- The error of a batch, from its checks or from the transport. -/
def outcome (choice : EventChoice) (consumer : String) (batchNum totalBatches : ℕ) :
    Except String Unit :=
  match choice.encode consumer batchNum totalBatches with
  | .error err => .error err
  | .ok _ => choice.send

end EventChoice

/-- `SourceClientImpl`, with the table that its resource service reads. The order of the rows is
the order in which a query returns them. -/
structure SourceClient where
  sourceID : String
  resources : List ResourceRow := []
  queries : ℕ := 0
  built : ℕ := 0
  log : List BatchLog := []
  sent : List ResyncEvent := []
deriving DecidableEq

/-- The hashes of the resources in order, or the first error. -/
def statusHashes (ext : External) : List Resource → Except String (List ResourceStatusHash)
  | [] => .ok []
  | obj :: objs =>
    match resourceStatusHashGetter ext obj with
    | .error err => .error err
    | .ok statusHash =>
      match statusHashes ext objs with
      | .error err => .error err
      | .ok hashes => .ok (⟨obj.id,statusHash⟩ :: hashes)

namespace SourceClient

variable (ext : External) (env : SourceEnv)

/-- The rows that `FindByConsumerName` selects; deleted ones are among them. -/
def resourcesOf (s : SourceClient) (consumerName : String) : List Resource :=
  (s.resources.filter fun row => row.consumerName = consumerName).map ResourceRow.scan

/-- `ResourceService.List`. -/
def list (clusterName : String) (s : SourceClient) : Except DbErr (List Resource) × SourceClient :=
  let counted := { s with queries := s.queries + 1 }
  match env.find s.queries with
  | some err => (.error err,counted)
  | none => (.ok (s.resourcesOf clusterName),counted)

/-- The event that `sendResyncBatch` builds. -/
def resyncEvent (s : SourceClient) (consumer : String) (hashes : List ResourceStatusHash) :
    ResyncEvent :=
  ⟨s.sourceID,resyncEventType,consumer,hashes⟩

def sendResyncBatch (consumer : String) (hashes : List ResourceStatusHash)
    (batchNum totalBatches : ℕ) (s : SourceClient) : Except String Unit × SourceClient :=
  let choice := env.event s.built
  let evt := s.resyncEvent consumer hashes
  let s := { s with built := s.built + 1 }
  match choice.encode consumer batchNum totalBatches with
  | .error err => (.error err,s)
  | .ok bytes =>
    let s := { s with log := s.log ++ [⟨consumer,batchNum,totalBatches,hashes.length,bytes⟩] }
    match choice.send with
    | .error err => (.error err,s)
    | .ok () => (.ok (),{ s with sent := s.sent ++ [evt] })

/-- The loop of `resyncConsumer` from index `i` on, for at most `fuel` rounds. -/
def sendBatches (consumer : String) (hashes : List ResourceStatusHash) (totalBatches : ℕ) :
    ℕ → ℕ → SourceClient → Except String Unit × SourceClient
  | 0, _, s => (.ok (),s)
  | fuel+1, i, s =>
    if i < hashes.length then
      let last := if i + statusHashBatchSize > hashes.length then hashes.length
        else i + statusHashBatchSize
      let batchNum := i / statusHashBatchSize + 1
      match sendResyncBatch env consumer ((hashes.take last).drop i) batchNum totalBatches s with
      | (.error err,s) => (.error err,s)
      | (.ok (),s) => sendBatches consumer hashes totalBatches fuel (i + statusHashBatchSize) s
    else (.ok (),s)

def resyncConsumer (consumer : String) (s : SourceClient) : Except String Unit × SourceClient :=
  match list env consumer s with
  | (.error err,s) =>
    (.error ("failed to list resources for consumer " ++ consumer ++ ": " ++ err.error),s)
  | (.ok objs,s) =>
    match statusHashes ext objs with
    | .error err => (.error err,s)
    | .ok hashes =>
      -- an empty event tells the agent that the consumer has no resources
      if hashes.length = 0 then
        sendResyncBatch env consumer hashes 1 1 s
      else
        let totalBatches := (hashes.length + statusHashBatchSize - 1) / statusHashBatchSize
        sendBatches env consumer hashes totalBatches hashes.length 0 s

def resync : List String → SourceClient → Except String Unit × SourceClient
  | [], s => (.ok (),s)
  | consumer :: consumers, s =>
    match resyncConsumer ext env consumer s with
    | (.error err,s) => (.error err,s)
    | (.ok (),s) => resync consumers s

end SourceClient

section Hashes

variable {ext : External}

/-- A hash entry of a resource. -/
def HashOf (ext : External) (obj : Resource) (hash : ResourceStatusHash) : Prop :=
  hash.resourceID = obj.id ∧ resourceStatusHashGetter ext obj = .ok hash.statusHash

theorem statusHashes_eq_ok {objs : List Resource} {hashes : List ResourceStatusHash} :
    statusHashes ext objs = .ok hashes ↔ List.Forall₂ (HashOf ext) objs hashes := by
  induction objs generalizing hashes with
  | nil => cases hashes <;> simp [statusHashes]
  | cons obj objs ih =>
    rw [statusHashes]
    cases hobj : resourceStatusHashGetter ext obj with
    | error err => simp [List.forall₂_cons_left_iff,HashOf,hobj]
    | ok statusHash =>
      cases hrest : statusHashes ext objs with
      | error err =>
        simp only [reduceCtorEq,List.forall₂_cons_left_iff,← ih,hrest,false_and,and_false,
          exists_false]
      | ok rest =>
        simp only [Except.ok.injEq,List.forall₂_cons_left_iff,← ih,hrest]
        constructor
        · rintro rfl
          exact ⟨_,_,⟨rfl,hobj⟩,rfl,rfl⟩
        · rintro ⟨⟨id,hash⟩,_,⟨rfl,hh⟩,rfl,rfl⟩
          cases hobj.symm.trans hh
          rfl

/-- A resource whose hash cannot be computed makes the listing fail. -/
theorem statusHashes_error {objs : List Resource} {obj : Resource} (hm : obj ∈ objs) {err : String}
    (h : resourceStatusHashGetter ext obj = .error err) : ∃ err, statusHashes ext objs = .error err := by
  induction objs with
  | nil => cases hm
  | cons other objs ih =>
    rw [statusHashes]
    cases hobj : resourceStatusHashGetter ext other with
    | error e => exact ⟨e,rfl⟩
    | ok statusHash =>
      rcases List.mem_cons.mp hm with rfl | hm
      · cases hobj.symm.trans h
      · obtain ⟨e,he⟩ := ih hm
        exact ⟨e,by rw [he]⟩

end Hashes

namespace SourceClient

variable {ext : External} {env : SourceEnv} {consumer : String} {s : SourceClient}

/-- What `resyncConsumer` sends for some hashes, in order. -/
def batchesOf (hashes : List ResourceStatusHash) : List (List ResourceStatusHash) :=
  if hashes.length = 0 then [hashes] else chunks statusHashBatchSize hashes

theorem batchesOf_length (hashes : List ResourceStatusHash) :
    (batchesOf hashes).length = max 1 (hashes.length ⌈/⌉ statusHashBatchSize) := by
  rw [batchesOf]
  split
  · next h => simp [h]
  · next h =>
    have hpos : 0 < hashes.length ⌈/⌉ statusHashBatchSize :=
      (lt_ceilDiv_iff (by decide) _ _).mpr (by omega)
    rw [chunks_length]
    omega

theorem batchesOf_flatten (hashes : List ResourceStatusHash) :
    (batchesOf hashes).flatten = hashes := by
  rw [batchesOf]
  split
  · simp
  · exact flatten_chunks (by decide) hashes

theorem batchesOf_le {hashes batch : List ResourceStatusHash} (h : batch ∈ batchesOf hashes) :
    batch.length ≤ statusHashBatchSize := by
  rw [batchesOf] at h
  split at h
  · next h0 =>
    rw [List.mem_singleton.mp h,h0]
    exact Nat.zero_le _
  · exact length_le_of_mem_chunks h

/-- Batches sent in order under consecutive numbers, up to the first error. -/
def sendEach (env : SourceEnv) (consumer : String) (totalBatches : ℕ) :
    ℕ → List (List ResourceStatusHash) → SourceClient → Except String Unit × SourceClient
  | _, [], s => (.ok (),s)
  | batchNum, batch :: batches, s =>
    match sendResyncBatch env consumer batch batchNum totalBatches s with
    | (.error err,s) => (.error err,s)
    | (.ok (),s) => sendEach env consumer totalBatches (batchNum+1) batches s

/-- The loop sends the chunks from the one that begins at its index. -/
theorem sendBatches_eq {hashes : List ResourceStatusHash} {totalBatches : ℕ} (fuel k : ℕ)
    (hf : hashes.length ≤ k * statusHashBatchSize + fuel) (s : SourceClient) :
    sendBatches env consumer hashes totalBatches fuel (k * statusHashBatchSize) s =
      sendEach env consumer totalBatches (k+1) ((chunks statusHashBatchSize hashes).drop k) s := by
  have hsize : 0 < statusHashBatchSize := by decide
  induction fuel generalizing k s with
  | zero =>
    have hk : (chunks statusHashBatchSize hashes).length ≤ k := by
      rw [chunks_length,ceilDiv_le_iff_le_mul hsize,Nat.mul_comm]
      omega
    rw [List.drop_eq_nil_of_le hk,sendEach,sendBatches]
  | succ fuel ih =>
    rw [sendBatches]
    by_cases hi : k * statusHashBatchSize < hashes.length
    · rw [if_pos hi,drop_chunks hsize hi,sendEach]
      dsimp only
      have hrest := ih (k+1) (by rw [Nat.succ_mul]; omega)
      rw [Nat.succ_mul] at hrest
      rw [slice_eq_chunk,Nat.mul_div_cancel k hsize]
      simp only [hrest]
    · have hk : (chunks statusHashBatchSize hashes).length ≤ k := by
        rw [chunks_length,ceilDiv_le_iff_le_mul hsize,Nat.mul_comm]
        omega
      rw [if_neg hi,List.drop_eq_nil_of_le hk,sendEach]

theorem resyncConsumer_eq {objs : List Resource} {hashes : List ResourceStatusHash}
    (hf : env.find s.queries = none) (ho : s.resourcesOf consumer = objs)
    (hh : statusHashes ext objs = .ok hashes) :
    resyncConsumer ext env consumer s =
      sendEach env consumer (batchesOf hashes).length 1 (batchesOf hashes)
        { s with queries := s.queries + 1 } := by
  subst ho
  simp only [resyncConsumer,list,hf,hh]
  by_cases h0 : hashes.length = 0
  · rw [if_pos h0,batchesOf,if_pos h0]
    simp only [sendEach,List.length_singleton]
    split <;> simp_all
  · rw [if_neg h0,batchesOf,if_neg h0,chunks_length,← Nat.zero_mul statusHashBatchSize]
    exact sendBatches_eq hashes.length 0 (by omega) _

/-- How sending the batch `k` ends, when the batches are numbered from `first` and `built` events
were built before them. -/
def attempt (env : SourceEnv) (consumer : String) (totalBatches built first k : ℕ) :
    Except String Unit :=
  (env.event (built + k)).outcome consumer (first + k) totalBatches

theorem attempt_succ (totalBatches built first k : ℕ) :
    attempt env consumer totalBatches (built+1) (first+1) k =
      attempt env consumer totalBatches built first (k+1) := by
  rw [attempt,attempt,Nat.add_assoc,Nat.add_assoc,Nat.add_comm 1]

/-- The client after sending a batch. -/
def afterBatch (s : SourceClient) (hashes : List ResourceStatusHash) (entry : BatchLog) :
    SourceClient :=
  { s with
    built := s.built + 1
    log := s.log ++ [entry]
    sent := s.sent ++ [s.resyncEvent entry.consumer hashes] }

@[simp] theorem resyncEvent_afterBatch (hashes : List ResourceStatusHash) (entry : BatchLog) :
    (s.afterBatch hashes entry).resyncEvent = s.resyncEvent := rfl

theorem sendResyncBatch_ok (hashes : List ResourceStatusHash) {batchNum totalBatches : ℕ}
    (h : attempt env consumer totalBatches s.built batchNum 0 = .ok ()) :
    ∃ bytes, sendResyncBatch env consumer hashes batchNum totalBatches s =
      (.ok (),s.afterBatch hashes ⟨consumer,batchNum,totalBatches,hashes.length,bytes⟩) := by
  rw [attempt,EventChoice.outcome] at h
  split at h
  · cases h
  · next bytes he =>
    refine ⟨bytes,?_⟩
    simp only [Nat.add_zero] at he h
    simp only [sendResyncBatch,he,h]
    rfl

theorem sendResyncBatch_error (hashes : List ResourceStatusHash) {batchNum totalBatches : ℕ}
    {err : String} (h : attempt env consumer totalBatches s.built batchNum 0 = .error err) :
    ∃ s', sendResyncBatch env consumer hashes batchNum totalBatches s = (.error err,s') ∧
      s'.sent = s.sent := by
  rw [attempt,EventChoice.outcome] at h
  split at h
  · next he =>
    cases h
    simp only [Nat.add_zero] at he
    simp only [sendResyncBatch,he]
    exact ⟨_,rfl,rfl⟩
  · next bytes he =>
    simp only [Nat.add_zero] at he h
    simp only [sendResyncBatch,he,h]
    exact ⟨_,rfl,rfl⟩

/-- The client after sending some batches: their entries and their events, in order. -/
structure SentBatches (consumer : String) (totalBatches first : ℕ)
    (batches : List (List ResourceStatusHash)) (s s' : SourceClient) : Prop where
  sourceID : s'.sourceID = s.sourceID
  resources : s'.resources = s.resources
  queries : s'.queries = s.queries
  sent : s'.sent = s.sent ++ batches.map (s.resyncEvent consumer)
  log : ∃ entries, s'.log = s.log ++ entries ∧
    entries.map BatchLog.batchNum = List.range' first batches.length ∧
    ∀ entry ∈ entries, entry.totalBatches = totalBatches

theorem sendEach_ok {batches : List (List ResourceStatusHash)} {first totalBatches : ℕ}
    (h : ∀ k < batches.length, attempt env consumer totalBatches s.built first k = .ok ()) :
    ∃ s', sendEach env consumer totalBatches first batches s = (.ok (),s') ∧
      SentBatches consumer totalBatches first batches s s' := by
  induction batches generalizing first s with
  | nil => exact ⟨s,rfl,rfl,rfl,rfl,by simp,[],by simp,rfl,by simp⟩
  | cons batch batches ih =>
    obtain ⟨bytes,hfirst⟩ := sendResyncBatch_ok batch (h 0 (by simp))
    have hnext : ∀ k < batches.length,
        attempt env consumer totalBatches (s.built+1) (first+1) k = .ok () := by
      intro k hk
      rw [attempt_succ]
      exact h (k+1) (by simpa using hk)
    obtain ⟨s',hrest,hs'⟩ :=
      @ih (s.afterBatch batch ⟨consumer,first,totalBatches,batch.length,bytes⟩) (first+1) hnext
    obtain ⟨entries,hlog,hnums,htotal⟩ := hs'.log
    refine ⟨s',?_,hs'.sourceID,hs'.resources,hs'.queries,?_,
      ⟨consumer,first,totalBatches,batch.length,bytes⟩ :: entries,?_,?_,?_⟩
    · rw [sendEach,hfirst]
      exact hrest
    · rw [hs'.sent,resyncEvent_afterBatch,List.map_cons]
      simp [afterBatch]
    · rw [hlog]
      simp [afterBatch]
    · rw [List.map_cons,hnums,List.length_cons,List.range'_succ]
    · intro entry hm
      rcases List.mem_cons.mp hm with rfl | hm
      · rfl
      · exact htotal entry hm

/-- The first failure ends the loop; what was sent before it stays sent. -/
theorem sendEach_error {batches : List (List ResourceStatusHash)} {first totalBatches k : ℕ}
    {err : String} (hk : k < batches.length)
    (hok : ∀ j < k, attempt env consumer totalBatches s.built first j = .ok ())
    (herr : attempt env consumer totalBatches s.built first k = .error err) :
    ∃ s', sendEach env consumer totalBatches first batches s = (.error err,s') ∧
      s'.sent = s.sent ++ (batches.take k).map (s.resyncEvent consumer) := by
  induction batches generalizing first s k with
  | nil => exact absurd hk (by simp)
  | cons batch batches ih =>
    cases k with
    | zero =>
      obtain ⟨s',hfirst,hs'⟩ := sendResyncBatch_error batch herr
      refine ⟨s',?_,by simpa using hs'⟩
      rw [sendEach,hfirst]
    | succ k =>
      obtain ⟨bytes,hfirst⟩ := sendResyncBatch_ok batch (hok 0 (by omega))
      have hnext : ∀ j < k,
          attempt env consumer totalBatches (s.built+1) (first+1) j = .ok () := by
        intro j hj
        rw [attempt_succ]
        exact hok (j+1) (by omega)
      obtain ⟨s',hrest,hs'⟩ :=
        @ih (s.afterBatch batch ⟨consumer,first,totalBatches,batch.length,bytes⟩) (first+1) k
          (by simpa using hk) hnext ((attempt_succ _ _ _ _).trans herr)
      refine ⟨s',?_,?_⟩
      · rw [sendEach,hfirst]
        exact hrest
      · rw [hs',resyncEvent_afterBatch,List.take_succ_cons,List.map_cons]
        simp [afterBatch]

/-- When the hash of a resource cannot be computed nothing is sent. When all can, the batches are
the hashes in order, at most 1000 in each, and they are sent under the numbers from 1 on up to
the first that fails. -/
theorem resyncConsumer_sends_batches (ext : External) (env : SourceEnv) (consumer : String)
    (s : SourceClient) (hlist : env.find s.queries = none) :
    (∀ obj ∈ s.resourcesOf consumer, ∀ err, resourceStatusHashGetter ext obj = .error err →
      ∃ err s', resyncConsumer ext env consumer s = (.error err,s') ∧ s'.sent = s.sent) ∧
    ∀ hashes, List.Forall₂ (HashOf ext) (s.resourcesOf consumer) hashes →
      ∃ batches : List (List ResourceStatusHash),
        batches.length = max 1 ((s.resourcesOf consumer).length ⌈/⌉ 1000) ∧
        (∀ batch ∈ batches, batch.length ≤ 1000) ∧ batches.flatten = hashes ∧
        ((∀ k < batches.length, attempt env consumer batches.length s.built 1 k = .ok ()) →
          ∃ s', resyncConsumer ext env consumer s = (.ok (),s') ∧
            s'.sent = s.sent ++ batches.map (s.resyncEvent consumer) ∧
            ∃ entries, s'.log = s.log ++ entries ∧
              entries.map BatchLog.batchNum = List.range' 1 batches.length ∧
              ∀ entry ∈ entries, entry.totalBatches = batches.length) ∧
        ∀ k < batches.length, ∀ err,
          (∀ j < k, attempt env consumer batches.length s.built 1 j = .ok ()) →
          attempt env consumer batches.length s.built 1 k = .error err →
            ∃ s', resyncConsumer ext env consumer s = (.error err,s') ∧
              s'.sent = s.sent ++ (batches.take k).map (s.resyncEvent consumer) := by
  refine ⟨?_,?_⟩
  · intro obj hm err he
    obtain ⟨e,hhashes⟩ := statusHashes_error hm he
    refine ⟨e,{ s with queries := s.queries + 1 },?_,rfl⟩
    simp only [resyncConsumer,list,hlist,hhashes]
  · intro hashes hall
    have hrun := resyncConsumer_eq hlist rfl (statusHashes_eq_ok.mpr hall)
    refine ⟨batchesOf hashes,?_,fun _ hb => batchesOf_le hb,batchesOf_flatten hashes,?_,?_⟩
    · rw [batchesOf_length,hall.length_eq]
      rfl
    · intro hok
      obtain ⟨s',hs',hsent⟩ := sendEach_ok (s := { s with queries := s.queries + 1 }) hok
      exact ⟨s',hrun.trans hs',hsent.sent,hsent.log⟩
    · intro k hk err hok herr
      obtain ⟨s',hs',hsent⟩ := sendEach_error (s := { s with queries := s.queries + 1 }) hk hok herr
      exact ⟨s',hrun.trans hs',hsent⟩

/-- A client of a table with one resource. -/
def sample : SourceClient := { sourceID := "maestro", resources := [Reference.webRow] }

theorem resyncConsumer_sends_one_batch : ∃ (batches : List (List ResourceStatusHash)) (s' : SourceClient),
    batches.length = 1 ∧ batches.flatten = [⟨"web",Reference.packages.sha256Hex ""⟩] ∧
    resyncConsumer Reference.packages {} "cluster" sample = (.ok (),s') ∧
    s'.sent = batches.map (sample.resyncEvent "cluster") := by
  have hhash : List.Forall₂ (HashOf Reference.packages) (sample.resourcesOf "cluster")
      [⟨"web",Reference.packages.sha256Hex ""⟩] := .cons ⟨rfl,rfl⟩ .nil
  obtain ⟨batches,hlen,-,hflat,hok,-⟩ :=
    (resyncConsumer_sends_batches Reference.packages {} "cluster" sample rfl).2 _ hhash
  obtain ⟨s',hrun,hsent,-⟩ := hok fun k _ => rfl
  exact ⟨batches,s',hlen.trans (by decide +kernel),hflat,hrun,hsent⟩

end SourceClient

end Maestro
