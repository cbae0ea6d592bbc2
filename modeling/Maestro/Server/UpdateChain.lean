import Maestro.Api.Reference
import Maestro.Db.EventEffects
import Maestro.Server.History

namespace Maestro
open Concurrent Data ResourceService

section Versions

theorem Int32.toInt_succ {v : Int32} (h : v.toInt + 1 < 2^31) : (v + 1).toInt = v.toInt + 1 := by
  have hlow := v.le_toInt
  rw [Int32.toInt_add,show (1 : Int32).toInt = 1 from rfl]
  exact Int.bmod_eq_of_le (by omega) (by omega)

theorem Int32.toInt_add_ofNat {v : Int32} {k : ℕ} (h : v.toInt + k < 2^31) :
    (v + Int32.ofNat k).toInt = v.toInt + k := by
  induction k with
  | zero => simp
  | succ k ih =>
    have hk : (v + Int32.ofNat k).toInt = v.toInt + k := ih (by push_cast at h; omega)
    have hsucc : v + Int32.ofNat (k+1) = v + Int32.ofNat k + 1 := by
      rw [Int32.ofNat_add,← Int32.add_assoc]
      rfl
    rw [hsucc,Int32.toInt_succ (by push_cast at h; omega),hk]
    push_cast
    omega

variable {ext : External} {n : ℕ} {ops : Fin n → Op} {id : String} {row₀ : ResourceRow}
    {J : List Entry}

/-- Every write of the spec counts the version up by one. -/
theorem History.version_after (h : History ext ops id row₀ J) :
    (row₀.after id J).version = row₀.version + Int32.ofNat (specWrites id J).length := by
  induction h with
  | nil => simp [ResourceRow.after,specWrites]
  | @snoc J e h he ih =>
    obtain ⟨t,a⟩ := e
    rw [ResourceRow.after_snoc,specWrites,filterMap_snoc,List.length_append]
    change _ = _ + Int32.ofNat ((specWrites id J).length + _)
    cases a with
    | wroteSpec id' version payload =>
      by_cases hid : id' = id
      · obtain ⟨-,-,hver⟩ := he hid
        simp only [ResourceRow.apply,Entry.spec?,if_pos hid,Option.toList_some,
          List.length_singleton]
        rw [hver,ih,Int32.ofNat_add,← Int32.add_assoc]
        rfl
      · simpa [ResourceRow.apply,Entry.spec?,hid] using ih
    | wroteStatus id' status =>
      by_cases hid : id' = id <;> simpa [ResourceRow.apply,Entry.spec?,hid] using ih
    | softDeleted id' time =>
      by_cases hid : id' = id <;> simpa [ResourceRow.apply,Entry.spec?,hid] using ih
    | _ => simpa [ResourceRow.apply,Entry.spec?] using ih

end Versions

/-- The acts of an update that was applied to `base`. -/
def writeActs (res : Resource) (base : ResourceRow) (event : Event) : List Act :=
  [.readResource res.id (some base),.wroteSpec res.id (base.version + 1) res.payload,
    .insertedEvent event,.notified "events" event.id]

def Op.payload : Op → JSONMap
  | .update res => res.payload
  | .publishUpdate res => res.payload
  | _ => none

/-- The acts and the reply of a call that was applied to `base`: it carried the version of
`base`, or had read it before it took the lock, and changed the payload. -/
inductive Op.Applied (base : ResourceRow) : Op → List Act → Reply → Prop
  | update {res : Resource} {event : Event} (hv : res.version = base.version)
      (hp : res.payload ≠ base.payload.scan)
      (he : event.sourceID = res.id ∧ event.eventType = .update) :
      Applied base (.update res) (writeActs res base event)
        (.resource (.ok (nextVersion base.scan res.payload)))
  | publish {res : Resource} {first : ResourceRow} {event : Event}
      (hv : (if res.version = 0 then first.version else res.version) = base.version)
      (hp : res.payload ≠ base.payload.scan)
      (he : event.sourceID = res.id ∧ event.eventType = .update) :
      Applied base (.publishUpdate res)
        (.readResource res.id (some first) :: writeActs res base event) (.published (.ok ()))

def Reply.failed : Reply → Prop
  | .resource (.error _) | .status (.error _) | .done (.error _) | .published (.error _) => True
  | _ => False

/-- A call that wrote nothing: it failed, or the row that it found has its payload. -/
def Op.Declined (op : Op) (acts : List Act) (reply : Reply) : Prop :=
  (∀ a ∈ acts, ∃ found, a = .readResource op.id found) ∧
    (reply.failed ∨ ∃ row : ResourceRow, .readResource op.id (some row) ∈ acts ∧
      op.payload = row.payload.scan)

section Outcomes

variable {ext : External} {res : Resource} {gone : Prop} {acts : List Act}

/-- Where no row is removed, an update was applied or it only read. -/
theorem UpdateRun.outcome {r : Except ServiceError Resource} (h : UpdateRun ext res gone acts r)
    (hg : ¬ gone) :
    (∃ base event, res.version = base.version ∧ res.payload ≠ base.payload.scan ∧
      (event.sourceID = res.id ∧ event.eventType = .update) ∧ acts = writeActs res base event ∧
      r = .ok (nextVersion base.scan res.payload)) ∨
    ∃ found, acts = [.readResource res.id found] ∧ ((∃ err, r = .error err) ∨
      ∃ row, found = some row ∧ res.payload = row.payload.scan) := by
  cases h with
  | missing => exact Or.inr ⟨none,rfl,Or.inl ⟨_,rfl⟩⟩
  | @refused row _ hc =>
    refine Or.inr ⟨some row,rfl,(checkUpdate_eq_some hc).imp_right ?_⟩
    exact fun ⟨_,hp⟩ => ⟨row,rfl,hp⟩
  | @written row acts hc he =>
    obtain ⟨-,hv,hp⟩ := checkUpdate_eq_none hc
    obtain ⟨now,uuid,rfl⟩ := he
    exact Or.inl ⟨row,(updateEvent res.id).beforeCreate now uuid,hv.symm,hp,⟨rfl,rfl⟩,rfl,rfl⟩
  | removed hgone => exact absurd hgone hg

theorem Op.Run.outcome {op : Op} {reply : Reply}
    (hop : op = .update res ∨ op = .publishUpdate res) (h : op.Run ext gone acts reply)
    (hg : ¬ gone) : (∃ base, op.Applied base acts reply) ∨ op.Declined acts reply := by
  rcases hop with rfl | rfl
  · obtain ⟨r,rfl,h⟩ := h
    rcases h.outcome hg with ⟨base,event,hv,hp,he,rfl,rfl⟩ | ⟨found,rfl,hr⟩
    · exact Or.inl ⟨base,.update hv hp he⟩
    · refine Or.inr ⟨by simp [Op.id],?_⟩
      rcases hr with ⟨err,rfl⟩ | ⟨row,rfl,hp⟩
      · exact Or.inl trivial
      · exact Or.inr ⟨row,by simp [Op.id],hp⟩
  · obtain ⟨r,rfl,h⟩ := h
    cases h with
    | missing => exact Or.inr ⟨by simp [Op.id],Or.inl trivial⟩
    | @updated first acts r h =>
      have hid := Resource.withVersion_id res first.version
      have hpay := Resource.withVersion_payload res first.version
      have hver : (res.withVersion first.version).version =
          if res.version = 0 then first.version else res.version := by
        unfold Resource.withVersion
        split <;> rfl
      rcases h.outcome hg with ⟨base,event,hv,hp,he,rfl,rfl⟩ | ⟨found,rfl,hr⟩
      · rw [hpay] at hp
        rw [hid] at he
        have hacts : writeActs (res.withVersion first.version) base event =
            writeActs res base event := by
          simp only [writeActs,hid,hpay]
        rw [hacts]
        exact Or.inl ⟨base,.publish (hver.symm.trans hv) hp he⟩
      · rw [hid]
        refine Or.inr ⟨by simp [Op.id],?_⟩
        rcases hr with ⟨err,rfl⟩ | ⟨row,rfl,hp⟩
        · exact Or.inl trivial
        · exact Or.inr ⟨row,by simp [Op.id],hpay.symm.trans hp⟩

end Outcomes

def Entry.event? : Entry → Option Event
  | ⟨_,.insertedEvent e⟩ => some e
  | _ => none

section Acts

variable {op : Op} {base : ResourceRow} {acts : List Act} {reply : Reply}

theorem Op.Applied.specs (h : op.Applied base acts reply) (t : ℕ) :
    acts.filterMap (fun a => Entry.spec? op.id ⟨t,a⟩) = [(t,base.version + 1,op.payload)] := by
  cases h with
  | update => simp [writeActs,Entry.spec?,Op.id,Op.payload]
  | publish => simp [writeActs,Entry.spec?,Op.id,Op.payload]

theorem Op.Applied.events (h : op.Applied base acts reply) (t : ℕ) : ∃ event : Event,
    acts.filterMap (fun a => Entry.event? ⟨t,a⟩) = [event] ∧ event.sourceID = op.id ∧
      event.eventType = .update := by
  cases h with
  | @update res event _ _ he => exact ⟨event,by simp [writeActs,Entry.event?],he⟩
  | @publish res first event _ _ he => exact ⟨event,by simp [writeActs,Entry.event?],he⟩

theorem Op.Applied.read (h : op.Applied base acts reply) :
    .readResource op.id (some base) ∈ acts := by
  cases h with
  | update => simp [writeActs,Op.id]
  | publish => simp [writeActs,Op.id]

theorem Op.Declined.none_of_reads {β : Type} (h : op.Declined acts reply) {f : Act → Option β}
    (hf : ∀ id found, f (.readResource id found) = none) : acts.filterMap f = [] := by
  rw [List.filterMap_eq_nil_iff]
  intro a ha
  obtain ⟨found,rfl⟩ := h.1 a ha
  exact hf _ _

end Acts

section Chain

variable {ext : External} {n : ℕ} {ops : Fin n → Op} {id : String} {s₀ : State}
    {row₀ : ResourceRow} {cfg : Config (Fin n) State Call Call.Resp Reply}

/-- Every operation is an `Update` of the resource, called directly or through `Publish`. -/
def AllUpdate (ops : Fin n → Op) (id : String) : Prop :=
  ∀ i, ∃ res : Resource, res.id = id ∧ (ops i = .update res ∨ ops i = .publishUpdate res)

theorem AllUpdate.id_eq (h : AllUpdate ops id) (i : Fin n) : (ops i).id = id := by
  obtain ⟨res,rfl,he | he⟩ := h i <;> rw [he] <;> rfl

theorem AllUpdate.keep (h : AllUpdate ops id) (i : Fin n) : ops i ≠ .delete id := by
  obtain ⟨res,-,he | he⟩ := h i <;> simp [he]

/-- A call has been applied, or it has only read. -/
theorem AllUpdate.outcome (h : AllUpdate ops id) (h₀ : s₀.Fresh n)
    (hrow₀ : s₀.resources.find id = some row₀) (hr : Reach (pool n) (start ext ops s₀) cfg)
    (hfin : Finished cfg) (i : Fin n) : ∃ reply, cfg.threads i = .ret reply ∧
      ((∃ base, (ops i).Applied base (cfg.shared.acts i) reply) ∨
        (ops i).Declined (cfg.shared.acts i) reply) := by
  obtain ⟨reply,hret⟩ := hfin i
  obtain ⟨-,acts,hacts,hrun⟩ := ((start_verified ext ops h₀).reach hr).result hret
  obtain ⟨res,-,hop⟩ := h i
  rw [h.id_eq i] at hrun
  rw [List.nil_append] at hacts
  rw [hacts]
  exact ⟨reply,hret,hrun.outcome hop (reach_kept h.keep h₀ hrow₀ hr).not_removed⟩

/-- The events are those that were there and those that were inserted. -/
theorem reach_events (h₀ : s₀.Fresh n) (hr : Reach (pool n) (start ext ops s₀) cfg) :
    cfg.shared.events.rows = s₀.events.rows ++ cfg.shared.journal.filterMap Entry.event? := by
  refine (start_owned ext ops h₀).invariant
    (K := fun s => s.events.rows = s₀.events.rows ++ s.journal.filterMap Entry.event?) ?_ hr ?_
  · intro i ch c s r s' ha hx hK
    cases commit_eventEffect hx with
    | quiet acts hr hj hq =>
      have hnone : (acts.map (Entry.mk i)).filterMap Entry.event? = [] := by
        rw [List.filterMap_eq_nil_iff]
        intro e he
        obtain ⟨a,ha,rfl⟩ := List.mem_map.mp he
        cases a <;> first | rfl | exact (hq _ ha).elim
      rw [hr,hK,hj,List.filterMap_append,hnone,List.append_nil]
    | insert event now uuid hfree =>
      simp [State.insertEvent,Table.insert,hK,Entry.event?]
    | save | purge | retire => exact ha.2.elim
  · simp [start,h₀.journal]

/-- No other row is touched. -/
theorem AllUpdate.other_rows (h : AllUpdate ops id) (h₀ : s₀.Fresh n)
    (hr : Reach (pool n) (start ext ops s₀) cfg) {id' : String} (hid : id' ≠ id) :
    cfg.shared.resources.find id' = s₀.resources.find id' := by
  refine (start_owned ext ops h₀).invariant
    (K := fun s => s.resources.find id' = s₀.resources.find id') ?_ hr rfl
  intro i ch c s r s' ha hx hK
  obtain ⟨res,hres,hop⟩ := h i
  cases commit_rowEffect hx with
  | quiet acts hr => rw [hr]; exact hK
  | insert resource now uuid hi =>
    obtain ⟨_,hc⟩ : ∃ h, ops i = .create resource h := ha.2
    rw [hc] at hop
    rcases hop with hop | hop <;> cases hop
  | @spec id'' cur version payload now hcur =>
    obtain ⟨res',hop',hid',-⟩ := ha.2
    have hsame : id'' = id := by
      rw [← hid',← h.id_eq i]
      rcases hop' with hop' | hop' <;> rw [hop'] <;> rfl
    rw [State.find_writeSpec,if_neg (hsame ▸ hid)]
    exact hK
  | @status id'' cur status now hcur =>
    obtain ⟨res',hop',-⟩ := ha.2
    rw [hop'] at hop
    rcases hop with hop | hop <;> cases hop
  | @soft id'' cur now hcur hlive =>
    obtain ⟨interval,hop'⟩ := ha.2
    rw [hop'] at hop
    rcases hop with hop | hop <;> cases hop
  | @hard id'' cur hcur =>
    have hop' : ops i = .delete id'' := ha.2
    rw [hop'] at hop
    rcases hop with hop | hop <;> cases hop

/-- Who wrote a spec, and which payload. -/
def writer (w : ℕ × Int32 × JSONMap) : ℕ × JSONMap := (w.1,w.2.2)

def caller (ops : Fin n → Op) (i : Fin n) : ℕ × JSONMap := (i,(ops i).payload)

/-- The spec writes of one session. -/
theorem specWrites_session (s : State) (id : String) (t : ℕ) :
    (specWrites id s.journal).filter (fun w => w.1 = t) =
      (s.acts t).filterMap fun a => Entry.spec? id ⟨t,a⟩ :=
  (filter_session Entry.spec?_session _ t).trans (s.filterMap_session t _)

/-- A spec write of a session is the one of a call that was applied. -/
theorem AllUpdate.applied (h : AllUpdate ops id) (h₀ : s₀.Fresh n)
    (hrow₀ : s₀.resources.find id = some row₀) (hr : Reach (pool n) (start ext ops s₀) cfg)
    (hfin : Finished cfg) {i : Fin n} {version : Int32} {payload : JSONMap}
    (hw : ((i : ℕ),version,payload) ∈ specWrites id cfg.shared.journal) :
    ∃ base reply, cfg.threads i = .ret reply ∧
      (ops i).Applied base (cfg.shared.acts i) reply ∧ version = base.version + 1 := by
  have hm : ((i : ℕ),version,payload) ∈
      (specWrites id cfg.shared.journal).filter fun w => w.1 = (i : ℕ) := by
    simpa using hw
  rw [specWrites_session] at hm
  obtain ⟨reply,hret,⟨base,happ⟩ | hdec⟩ := h.outcome h₀ hrow₀ hr hfin i
  · have hspecs := happ.specs i
    rw [h.id_eq i] at hspecs
    rw [hspecs] at hm
    simp only [List.mem_singleton,Prod.mk.injEq] at hm
    exact ⟨base,reply,hret,happ,hm.2.1⟩
  · rw [hdec.none_of_reads fun _ _ => rfl] at hm
    cases hm

/-- A session writes at most one spec, and an event with it. -/
theorem AllUpdate.one_write (h : AllUpdate ops id) (h₀ : s₀.Fresh n)
    (hrow₀ : s₀.resources.find id = some row₀) (hr : Reach (pool n) (start ext ops s₀) cfg)
    (hfin : Finished cfg) (i : Fin n) :
    ((cfg.shared.acts i).filterMap fun a => Entry.spec? id ⟨i,a⟩).length ≤ 1 ∧
    ((cfg.shared.acts i).filterMap fun a => Entry.event? ⟨i,a⟩).length =
      ((cfg.shared.acts i).filterMap fun a => Entry.spec? id ⟨i,a⟩).length ∧
    ∀ e ∈ (cfg.shared.acts i).filterMap fun a => Entry.event? ⟨i,a⟩,
      e.sourceID = id ∧ e.eventType = .update := by
  obtain ⟨reply,hret,⟨base,happ⟩ | hdec⟩ := h.outcome h₀ hrow₀ hr hfin i
  · obtain ⟨event,hevent,hid,htype⟩ := happ.events i
    have hspecs := happ.specs i
    rw [h.id_eq i] at hspecs hid
    rw [hspecs,hevent]
    simp [hid,htype]
  · rw [hdec.none_of_reads fun _ _ => rfl,hdec.none_of_reads fun _ _ => rfl]
    simp

/-- One event for each spec write. -/
theorem AllUpdate.events (h : AllUpdate ops id) (h₀ : s₀.Fresh n)
    (hrow₀ : s₀.resources.find id = some row₀) (hr : Reach (pool n) (start ext ops s₀) cfg)
    (hfin : Finished cfg) :
    (cfg.shared.journal.filterMap Entry.event?).length =
      (specWrites id cfg.shared.journal).length ∧
    ∀ e ∈ cfg.shared.journal.filterMap Entry.event?, e.sourceID = id ∧ e.eventType = .update := by
  have hsessions := reach_sessions h₀ hr
  constructor
  · rw [specWrites,length_filterMap_sessions _ hsessions,length_filterMap_sessions _ hsessions]
    refine Finset.sum_congr rfl fun i _ => ?_
    rw [State.filterMap_session,State.filterMap_session]
    exact (h.one_write h₀ hrow₀ hr hfin i).2.1
  · intro e he
    obtain ⟨entry,hm,hentry⟩ := List.mem_filterMap.mp he
    have hlt := hsessions entry hm
    refine (h.one_write h₀ hrow₀ hr hfin ⟨entry.session,hlt⟩).2.2 e ?_
    rw [← State.filterMap_session]
    exact List.mem_filterMap.mpr ⟨entry,List.mem_filter.mpr ⟨hm,by simp⟩,hentry⟩

/-- The sessions that wrote a spec are different, and each carried what it wrote. -/
theorem AllUpdate.chain (h : AllUpdate ops id) (h₀ : s₀.Fresh n)
    (hrow₀ : s₀.resources.find id = some row₀) (hr : Reach (pool n) (start ext ops s₀) cfg)
    (hfin : Finished cfg) : ∃ chain : List (Fin n), chain.Nodup ∧
      (specWrites id cfg.shared.journal).map writer = chain.map (caller ops) := by
  have hist := (reach_kept h.keep h₀ hrow₀ hr).history
  have hmem : ∀ w ∈ specWrites id cfg.shared.journal, ∃ i, writer w = caller ops i := by
    rintro ⟨t,version,payload⟩ hw
    obtain ⟨e,hm,he⟩ := List.mem_filterMap.mp hw
    rw [Entry.spec?_eq_some he] at hm
    obtain ⟨pre,post,hsplit⟩ := List.append_of_mem hm
    obtain ⟨⟨i,rfl,res,hop,-,rfl⟩,-⟩ := hist.fits_at hsplit rfl
    refine ⟨i,Prod.ext rfl ?_⟩
    rcases hop with hop | hop <;> simp [writer,caller,hop,Op.payload]
  obtain ⟨chain,hchain⟩ := exists_map_eq hmem
  refine ⟨chain,?_,hchain⟩
  have hfst : (specWrites id cfg.shared.journal).map Prod.fst = chain.map Fin.val := by
    have h := congrArg (List.map Prod.fst) hchain
    simp only [List.map_map] at h
    exact h
  refine List.Nodup.of_map Fin.val ?_
  rw [← hfst,List.nodup_iff_count_le_one]
  intro t
  by_cases ht : t < n
  · have hone := (h.one_write h₀ hrow₀ hr hfin ⟨t,ht⟩).1
    rw [← specWrites_session] at hone
    rw [List.count_eq_countP,List.countP_map,List.countP_eq_length_filter]
    exact hone
  · rw [List.count_eq_zero_of_not_mem]
    · exact Nat.zero_le 1
    · rw [hfst]
      rintro hm
      obtain ⟨i,-,rfl⟩ := List.mem_map.mp hm
      exact ht i.isLt

/-- The payload of the last call of a chain, or the one before the first. -/
def lastPayload (ops : Fin n → Op) (row₀ : ResourceRow) (chain : List (Fin n)) : JSONMap :=
  (chain.getLast?.map fun i => (ops i).payload).getD row₀.payload

theorem after_payload (row₀ : ResourceRow) {chain : List (Fin n)} {J : List Entry}
    (h : (specWrites id J).map writer = chain.map (caller ops)) :
    (row₀.after id J).payload = lastPayload ops row₀ chain := by
  have hlast := congrArg (fun l => l.getLast?.map Prod.snd) h
  simp only [List.getLast?_map,Option.map_map] at hlast
  exact congrArg (fun p : Option JSONMap => p.getD row₀.payload) hlast

/-- The row that a call read has the payload of the version that it has. -/
theorem base_payload {chain : List (Fin n)} {J : List Entry} {i : Fin n} {base : ResourceRow} {k : ℕ}
    (h : History ext ops id row₀ J) (hm : (⟨i,.readResource id (some base)⟩ : Entry) ∈ J)
    (hchain : (specWrites id J).map writer = chain.map (caller ops))
    (hk : base.version.toInt = row₀.version.toInt + k)
    (hv : row₀.version.toInt + (specWrites id J).length < 2^31 - 1) :
    base.payload = lastPayload ops row₀ (chain.take k) := by
  obtain ⟨pre,post,rfl⟩ := List.append_of_mem hm
  obtain ⟨row,hrow,hcols⟩ := h.fits_at rfl rfl
  cases hrow
  have hwrites : specWrites id (pre ++ ⟨i,.readResource id (some base)⟩ :: post) =
      specWrites id pre ++ specWrites id post := by
    rw [specWrites,List.filterMap_append,List.filterMap_cons_none rfl]
    rfl
  rw [hwrites,List.length_append] at hv
  have hversion : base.version = row₀.version + Int32.ofNat (specWrites id pre).length := by
    rw [← (h.pre rfl).version_after,← hcols]
    rfl
  have hlen : (specWrites id pre).length = k := by
    rw [hversion,Int32.toInt_add_ofNat (by push_cast at hv; omega)] at hk
    omega
  have hpre : (specWrites id pre).map writer = (chain.take k).map (caller ops) := by
    rw [← hlen,List.map_take,← hchain,hwrites,List.map_append]
    exact (List.take_left' (List.length_map _)).symm
  rw [← after_payload row₀ hpre,← hcols]
  rfl

end Chain

/-- Two calls that both start from version 1: one carries it, the other publishes version 0. -/
def racingOps : Fin 2 → Op
  | 0 => .update { Reference.webRow.scan with payload := Reference.bundle "first" "web" }
  | 1 => .publishUpdate
      { Reference.webRow.scan with version := 0, payload := Reference.bundle "second" "web" }

def racingStart : Config (Fin 2) State Call Call.Resp Reply :=
  start Reference.packages racingOps (.single Reference.webRow)

end Maestro
