import Maestro.Api.Reference
import Maestro.Server.Columns
import Maestro.Server.Progress
import Maestro.Services.SequenceOrder

namespace Maestro
open Concurrent Data ResourceService

/-- The status has this snowflake ID. -/
structure HasID (ext : External) (status : JSONMap) (flake : Int64) : Prop where
  read : ∃ sequenceID, sequenceID ≠ "" ∧ (∀ what, sequenceIDOf ext status what = .ok sequenceID) ∧
    ext.snowflake.parseString sequenceID = .ok flake

/-- The stored status: none yet, or one with an ID. -/
def StoredID (ext : External) (status : JSONMap) : Option Int64 → Prop
  | none => status.len = 0
  | some flake => HasID ext status flake

section Compare

variable {ext : External} {status stored : JSONMap} {flake old : Int64}

theorem HasID.len_ne (h : HasID ext status flake) : status.len ≠ 0 := by
  obtain ⟨sequenceID,-,hread,-⟩ := h.read
  intro hlen
  have := hread ""
  simp [sequenceIDOf,jsonMapToCloudEvent,hlen] at this

/-- What `newerStatus` decides for a status with an ID. -/
theorem newerStatus_eq (hlay : DefaultLayout ext.snowflake) (h : HasID ext status flake)
    {id : Option Int64} (hs : StoredID ext stored id)
    (hnode : ∀ old, id = some old → ext.snowflake.node flake = ext.snowflake.node old) :
    ∃ newer, newerStatus ext status stored = .ok newer ∧
      (newer = true ↔ status ≠ stored ∧ ∀ old, id = some old → old < flake) := by
  obtain ⟨sequenceID,hne,hread,hparse⟩ := h.read
  unfold newerStatus
  by_cases he : status = stored
  · exact ⟨false,if_pos he,by simp [he]⟩
  · rw [if_neg he,hread]
    cases id with
    | none =>
      have hlen : stored.len = 0 := hs
      exact ⟨true,by simp [hlen,compareSequenceIDs,hne],by simp [he]⟩
    | some old =>
      obtain ⟨storedID,hne',hread',hparse'⟩ := HasID.read hs
      have hcmp := compareSequenceIDs_eq hlay hne' hparse hparse' (hnode old rfl)
      refine ⟨decide (old < flake),?_,by simp [he]⟩
      simp only [HasID.len_ne hs,ne_eq,not_false_eq_true,if_true,hread',hcmp]

end Compare

/-- Status messages for one version of one resource, with IDs of one node. Messages of one ID are
the same message, delivered more than once. -/
structure Messages (ext : External) {n : ℕ} (msg : Fin n → Resource) (flake : Fin n → Int64)
    (row₀ : ResourceRow) (stored : Option Int64) : Prop where
  layout : DefaultLayout ext.snowflake
  id_eq : ∀ i, (msg i).id = row₀.id
  version_eq : ∀ i, (msg i).version = row₀.version
  hasID : ∀ i, HasID ext (msg i).status (flake i)
  storedID : StoredID ext row₀.status.scan stored
  node : ∀ i j, ext.snowflake.node (flake i) = ext.snowflake.node (flake j)
  node_stored : ∀ i old, stored = some old → ext.snowflake.node (flake i) = ext.snowflake.node old
  same : ∀ i j, flake i = flake j → (msg i).status = (msg j).status

/-- The IDs that the row had, up to the last one. -/
def storedIDs {n : ℕ} (flake : Fin n → Int64) (row₀ : ResourceRow) (stored : Option Int64)
    (J : List Entry) : List Int64 :=
  stored.toList ++ (statusWrites row₀.id J).filterMap fun w =>
    if h : w.1 < n then some (flake ⟨w.1,h⟩) else none

section Order

variable {ext : External} {n : ℕ} {msg : Fin n → Resource} {flake : Fin n → Int64}
    {row₀ : ResourceRow} {stored : Option Int64} {J : List Entry}

abbrev reports (msg : Fin n → Resource) (i : Fin n) : Op := .updateStatus (msg i)

theorem HasID.unique {status : JSONMap} {a b : Int64} (h : HasID ext status a)
    (h' : HasID ext status b) : a = b := by
  obtain ⟨s,-,hread,hparse⟩ := h.read
  obtain ⟨s',-,hread',hparse'⟩ := h'.read
  have he : s = s' := Except.ok.inj ((hread "").symm.trans ( hread' ""))
  subst he
  exact Except.ok.inj (hparse.symm.trans hparse')

theorem HasID.scan {status : JSONMap} {a : Int64} (h : HasID ext status a) :
    HasID ext status.scan a := by
  obtain ⟨sequenceID,hne,hread,hparse⟩ := h.read
  refine ⟨sequenceID,hne,fun what => ?_,hparse⟩
  rw [← hread what,sequenceIDOf,sequenceIDOf,jsonMapToCloudEvent_scan]

/-- The ID of the stored status is the last one. -/
theorem Messages.storedID_after (h : Messages ext msg flake row₀ stored)
    (hist : History ext (reports msg) row₀.id row₀ J) :
    StoredID ext (row₀.after row₀.id J).status.scan (storedIDs flake row₀ stored J).getLast? ∧
      ∀ i old, (storedIDs flake row₀ stored J).getLast? = some old →
        ext.snowflake.node (flake i) = ext.snowflake.node old := by
  cases hw : (statusWrites row₀.id J).getLast? with
  | none =>
    have hnil := List.getLast?_eq_none_iff.mp hw
    have hids : (storedIDs flake row₀ stored J).getLast? = stored := by
      simp only [storedIDs,hnil]
      cases stored <;> rfl
    rw [hids]
    refine ⟨?_,h.node_stored⟩
    simp only [ResourceRow.after,hw,Option.map_none,Option.getD_none]
    exact h.storedID
  | some w =>
    obtain ⟨ws,hws⟩ := List.getLast?_eq_some_iff.mp hw
    have hm : (w.1,w.2) ∈ statusWrites row₀.id J := by rw [hws]; simp
    obtain ⟨pre,post,hsplit⟩ := List.append_of_mem (mem_statusWrites.mp hm)
    obtain ⟨⟨i,hi,res,hop,-,hst⟩,-⟩ := hist.fits_at hsplit rfl
    cases hop
    have hids : (storedIDs flake row₀ stored J).getLast? = some (flake i) := by
      simp [storedIDs,hws,hi]
    rw [hids]
    refine ⟨?_,fun j old he => Option.some.inj he ▸ h.node j i⟩
    simp only [ResourceRow.after,hw,Option.map_some,Option.getD_some,← hst]
    exact (h.hasID i).scan

theorem pairwise_snoc {L : List Int64} {y : Int64} (h : L.Pairwise (· < ·))
    (hy : ∀ m, L.getLast? = some m → m < y) : (L ++ [y]).Pairwise (· < ·) := by
  refine List.pairwise_append.mpr ⟨h,List.pairwise_singleton _ _,fun x hx z hz => ?_⟩
  rw [List.mem_singleton.mp hz]
  rcases List.eq_nil_or_concat' L with rfl | ⟨L',m,rfl⟩
  · cases hx
  · have hm := hy m (by simp)
    rcases List.mem_append.mp hx with hx | hx
    · exact Int64.lt_trans ((List.pairwise_append.mp h).2.2 x hx m (by simp)) hm
    · rw [List.mem_singleton.mp hx]
      exact hm

/-- Every write of the status raises the stored ID. -/
theorem Messages.increasing (h : Messages ext msg flake row₀ stored)
    (hist : History ext (reports msg) row₀.id row₀ J) :
    (storedIDs flake row₀ stored J).Pairwise (· < ·) := by
  induction hist with
  | nil => cases stored <;> simp [storedIDs,statusWrites]
  | @snoc J e hist he ih =>
    cases hs : e.status? row₀.id with
    | none =>
      have hsame : storedIDs flake row₀ stored (J ++ [e]) = storedIDs flake row₀ stored J := by
        simp [storedIDs,statusWrites,hs]
      rw [hsame]
      exact ih
    | some w =>
      obtain ⟨t,status⟩ := w
      rw [Entry.status?_eq_some hs] at he
      obtain ⟨⟨i,rfl,res,hop,-,rfl⟩,hnew⟩ := he rfl
      cases hop
      have hsnoc : storedIDs flake row₀ stored (J ++ [e]) =
          storedIDs flake row₀ stored J ++ [flake i] := by
        simp [storedIDs,statusWrites,hs]
      obtain ⟨hid,hnode⟩ := h.storedID_after hist
      obtain ⟨newer,hok,hiff⟩ := newerStatus_eq h.layout (h.hasID i) hid (hnode i)
      cases hok.symm.trans hnew
      rw [hsnoc]
      exact pairwise_snoc ih (hiff.mp rfl).2

theorem Messages.not_delete (i : Fin n) : reports msg i ≠ .delete row₀.id := Op.noConfusion

theorem Messages.version_after (hist : History ext (reports msg) row₀.id row₀ J) :
    (row₀.after row₀.id J).version = row₀.version := by
  have hnil : specWrites row₀.id J = [] := by
    refine List.eq_nil_iff_forall_not_mem.mpr fun ⟨t,version,payload⟩ hm => ?_
    obtain ⟨pre,post,hsplit⟩ := List.append_of_mem (mem_specWrites.mp hm)
    obtain ⟨⟨i,-,res,hop,-⟩,-⟩ := hist.fits_at hsplit rfl
    rcases hop with hop | hop <;> cases hop
  simp [ResourceRow.after,hnil]

/-- What a status update decides about the row that it reads: it does not fail, and it takes the
message unless an ID that is stored reaches it. -/
theorem Messages.decides (h : Messages ext msg flake row₀ stored)
    (hist : History ext (reports msg) row₀.id row₀ J) (i : Fin n) {row : ResourceRow}
    (hm : (⟨i,.readResource row₀.id (some row)⟩ : Entry) ∈ J) :
    acceptsStatus ext (msg i) row.scan = .ok true ∨
      acceptsStatus ext (msg i) row.scan = .ok false ∧
        ∃ old ∈ storedIDs flake row₀ stored J, flake i ≤ old := by
  obtain ⟨pre,post,hsplit⟩ := List.append_of_mem hm
  obtain ⟨row',hrow,hcols⟩ := hist.fits_at hsplit rfl
  cases hrow
  have hpre := hist.pre hsplit
  have hversion : row.version = row₀.version :=
    (congrArg (fun r : ResourceRow => r.version) hcols).trans (Messages.version_after hpre)
  have hstatus : row.status = (row₀.after row₀.id pre).status := by rw [← hcols]; rfl
  obtain ⟨hid,hnode⟩ := h.storedID_after hpre
  obtain ⟨newer,hok,hiff⟩ := newerStatus_eq h.layout (h.hasID i) hid (hnode i)
  have hacc : acceptsStatus ext (msg i) row.scan = .ok newer := by
    have hsame : row.scan.version = (msg i).version := hversion.trans (h.version_eq i).symm
    rw [acceptsStatus,if_neg (not_not.mpr hsame),← hok,← hstatus]
    rfl
  rw [hacc]
  cases newer with
  | true => exact Or.inl rfl
  | false =>
    refine Or.inr ⟨rfl,?_⟩
    have hsub : ∀ old, (storedIDs flake row₀ stored pre).getLast? = some old →
        old ∈ storedIDs flake row₀ stored J := by
      intro old hold
      have hmem := List.mem_of_getLast? hold
      rw [hsplit]
      simp only [storedIDs,statusWrites,List.filterMap_append,← List.append_assoc] at hmem ⊢
      exact List.mem_append_left _ hmem
    by_cases he : (msg i).status = (row₀.after row₀.id pre).status.scan
    · -- the message itself is stored, so its ID is the last one
      cases hl : (storedIDs flake row₀ stored pre).getLast? with
      | none =>
        rw [hl,← he] at hid
        exact absurd hid (h.hasID i).len_ne
      | some old =>
        rw [hl,← he] at hid
        exact ⟨old,hsub old hl,by rw [(h.hasID i).unique hid]; exact Int64.le_refl _⟩
    · obtain ⟨old,hold,hlt⟩ : ∃ old, (storedIDs flake row₀ stored pre).getLast? = some old ∧
          ¬ old < flake i := by
        by_contra hno
        simp only [not_exists,not_and,not_not] at hno
        exact absurd (hiff.mpr ⟨he,hno⟩) (by decide)
      exact ⟨old,hsub old hold,Int64.not_lt.mp hlt⟩

/-- A status update that has returned did not fail, and the row has had its ID or a later one. -/
theorem Messages.returned (h : Messages ext msg flake row₀ stored)
    (hist : History ext (reports msg) row₀.id row₀ J) (i : Fin n) {acts : List Act} {gone : Prop}
    {r : Except ServiceError (Resource × Bool)} (hrun : StatusRun ext (msg i) gone acts r)
    (hg : ¬ gone) (hm : ∀ a ∈ acts, (⟨i,a⟩ : Entry) ∈ J) :
    (∃ x b, r = .ok (x,b)) ∧ ∃ old ∈ storedIDs flake row₀ stored J, flake i ≤ old := by
  cases hrun with
  | missing =>
    have hread := hm _ List.mem_cons_self
    rw [h.id_eq i] at hread
    obtain ⟨pre,post,hsplit⟩ := List.append_of_mem hread
    obtain ⟨_,hrow,-⟩ := hist.fits_at hsplit rfl
    cases hrow
  | invalid he =>
    have hread := hm _ List.mem_cons_self
    rw [h.id_eq i] at hread
    rcases h.decides hist i hread with hacc | ⟨hacc,-⟩ <;> cases hacc.symm.trans he
  | unchanged hf =>
    have hread := hm _ List.mem_cons_self
    rw [h.id_eq i] at hread
    rcases h.decides hist i hread with hacc | ⟨-,hold⟩
    · cases hacc.symm.trans hf
    · exact ⟨⟨_,_,rfl⟩,hold⟩
  | written _ =>
    have hwrite := hm (.wroteStatus (msg i).id (msg i).status) (by simp)
    rw [h.id_eq i,← mem_statusWrites] at hwrite
    refine ⟨⟨_,_,rfl⟩,flake i,?_,Int64.le_refl _⟩
    exact List.mem_append_right _ (List.mem_filterMap.mpr ⟨_,hwrite,by simp⟩)
  | removed hgone => exact absurd hgone hg

theorem le_getLast {L : List Int64} (h : L.Pairwise (· < ·)) {m x : Int64}
    (hm : L.getLast? = some m) (hx : x ∈ L) : x ≤ m := by
  obtain ⟨L',rfl⟩ := List.getLast?_eq_some_iff.mp hm
  rcases List.mem_append.mp hx with hx | hx
  · exact Int64.le_of_lt ((List.pairwise_append.mp h).2.2 x hx m (by simp))
  · rw [List.mem_singleton.mp hx]
    exact Int64.le_refl _

/-- The writes were made by the messages, in the order of their IDs. -/
theorem Messages.writes (h : Messages ext msg flake row₀ stored)
    (hist : History ext (reports msg) row₀.id row₀ J) : ∃ order : List (Fin n),
      statusWrites row₀.id J = order.map (fun i : Fin n => ((i : ℕ),(msg i).status)) ∧
      (stored.toList ++ order.map flake).Pairwise (· < ·) := by
  have hmsg : ∀ w ∈ statusWrites row₀.id J, ∃ i : Fin n, w = ((i : ℕ),(msg i).status) := by
    rintro ⟨t,status⟩ hm
    obtain ⟨pre,post,hsplit⟩ := List.append_of_mem (mem_statusWrites.mp hm)
    obtain ⟨⟨i,rfl,res,hop,-,rfl⟩,-⟩ := hist.fits_at hsplit rfl
    cases hop
    exact ⟨i,rfl⟩
  obtain ⟨order,horder⟩ := exists_map_eq hmsg
  rw [List.map_id'] at horder
  refine ⟨order,horder,?_⟩
  have hinc := h.increasing hist
  rw [storedIDs,horder,List.filterMap_map] at hinc
  have hmap : (order.filterMap ((fun w : ℕ × JSONMap => if h : w.1 < n then some (flake ⟨w.1,h⟩)
      else none) ∘ fun i : Fin n => ((i : ℕ),(msg i).status))) = order.map flake := by
    rw [← List.filterMap_eq_map]
    exact List.filterMap_congr fun i _ => by simp
  rwa [hmap] at hinc

/-- The status in the end is that of the greatest ID. -/
theorem Messages.last (h : Messages ext msg flake row₀ stored)
    (hist : History ext (reports msg) row₀.id row₀ J)
    (hall : ∀ i, ∃ old ∈ storedIDs flake row₀ stored J, flake i ≤ old) :
    (∃ i, (row₀.after row₀.id J).status = (msg i).status ∧ (∀ j, flake j ≤ flake i) ∧
      ∀ old, stored = some old → old < flake i) ∨
    (row₀.after row₀.id J).status = row₀.status ∧ ∀ j, ∃ old, stored = some old ∧ flake j ≤ old := by
  have hinc := h.increasing hist
  cases hw : (statusWrites row₀.id J).getLast? with
  | none =>
    right
    refine ⟨by simp [ResourceRow.after,hw],fun j => ?_⟩
    obtain ⟨old,hold,hle⟩ := hall j
    rw [storedIDs,List.getLast?_eq_none_iff.mp hw] at hold
    exact ⟨old,by simpa using hold,hle⟩
  | some w =>
    left
    obtain ⟨ws,hws⟩ := List.getLast?_eq_some_iff.mp hw
    have hm : (w.1,w.2) ∈ statusWrites row₀.id J := by rw [hws]; simp
    obtain ⟨pre,post,hsplit⟩ := List.append_of_mem (mem_statusWrites.mp hm)
    obtain ⟨⟨i,hi,res,hop,-,hst⟩,-⟩ := hist.fits_at hsplit rfl
    cases hop
    have hids : (storedIDs flake row₀ stored J).getLast? = some (flake i) := by
      simp [storedIDs,hws,hi]
    refine ⟨i,by simp [ResourceRow.after,hw,hst],fun j => ?_,fun old hold => ?_⟩
    · obtain ⟨old,hold,hle⟩ := hall j
      exact Int64.le_trans hle (le_getLast hinc hids hold)
    · refine (List.pairwise_append.mp hinc).2.2 old (by simp [hold]) (flake i) ?_
      exact List.mem_filterMap.mpr ⟨w,hm,by simp [hi]⟩

end Order

/-- Whatever the order and the number of deliveries, the status updates come to an end without
errors, and the stored status is then that of the greatest ID. The stored ID grows with every
write, and `updated` is reported for the writes and for nothing else. -/
theorem statuses_converge (ext : External) {n : ℕ} {msg : Fin n → Resource} {flake : Fin n → Int64}
    {row₀ : ResourceRow} {stored : Option Int64} (h : Messages ext msg flake row₀ stored)
    {s₀ : State} (h₀ : s₀.Fresh n) (hlocks : s₀.locks.held = [])
    (hrow₀ : s₀.resources.find row₀.id = some row₀)
    {cfg : Config (Fin n) State Call Call.Resp Reply}
    (hr : Reach (pool n) (start ext (reports msg) s₀) cfg) :
    (∃ cfg', Reach (pool n) cfg cfg' ∧ Finished cfg') ∧
    (∃ order : List (Fin n),
      statusWrites row₀.id cfg.shared.journal =
        order.map (fun i : Fin n => ((i : ℕ),(msg i).status)) ∧
      (stored.toList ++ order.map flake).Pairwise (· < ·) ∧
      ∀ i reply, cfg.threads i = .ret reply → ∃ x, reply = .status (.ok (x,decide (i ∈ order)))) ∧
    ∃ row, cfg.shared.resources.find row₀.id = some row ∧
      (Finished cfg →
        (∃ i, row.status = (msg i).status ∧ (∀ j, flake j ≤ flake i) ∧
          ∀ old, stored = some old → old < flake i) ∨
        row.status = row₀.status ∧ ∀ j, ∃ old, stored = some old ∧ flake j ≤ old) := by
  have hkept := reach_kept Messages.not_delete h₀ hrow₀ hr
  have hist := hkept.history
  have hrun : ∀ i reply, cfg.threads i = .ret reply → ∃ gone r, ¬ gone ∧ reply = .status r ∧
      StatusRun ext (msg i) gone (cfg.shared.acts i) r := by
    intro i reply hret
    obtain ⟨gone,hg,r,hreply,h'⟩ :=
      reach_run Messages.not_delete h₀ hrow₀ hr rfl (h.id_eq i) hret
    exact ⟨gone,r,hg,hreply,h'⟩
  refine ⟨reach_finished h₀ hlocks hr,?_,?_⟩
  · obtain ⟨order,horder,hinc⟩ := h.writes hist
    refine ⟨order,horder,hinc,fun i reply hret => ?_⟩
    obtain ⟨gone,r,hg,rfl,hst⟩ := hrun i reply hret
    obtain ⟨⟨x,b,rfl⟩,-⟩ := h.returned hist i hst hg fun a ha => State.mem_acts.mp ha
    have hiff : b = true ↔ i ∈ order := by
      have hacc := hst.accepted hg
      rw [State.mem_acts,h.id_eq i,← mem_statusWrites,horder,List.mem_map] at hacc
      constructor
      · rintro rfl
        obtain ⟨j,hj,he⟩ := hacc.mp ⟨x,rfl⟩
        rwa [Fin.ext (congrArg Prod.fst he)] at hj
      · intro hi
        obtain ⟨y,hy⟩ := hacc.mpr ⟨i,hi,rfl⟩
        exact congrArg Prod.snd (Except.ok.inj hy)
    have hb : b = decide (i ∈ order) := by
      rw [Bool.eq_iff_iff,decide_eq_true_iff]
      exact hiff
    exact ⟨x,by rw [hb]⟩
  · obtain ⟨row,hrow,hcols⟩ := hkept.row
    have hstatus : row.status = (row₀.after row₀.id cfg.shared.journal).status := by
      rw [← hcols]
      rfl
    refine ⟨row,hrow,fun hfin => ?_⟩
    rw [hstatus]
    refine h.last hist fun i => ?_
    obtain ⟨reply,hret⟩ := hfin i
    obtain ⟨gone,r,hg,rfl,hst⟩ := hrun i reply hret
    exact (h.returned hist i hst hg fun a ha => State.mem_acts.mp ha).2

/-- Two reports, the later one delivered twice. -/
def reportMessages : Fin 3 → Resource
  | 0 => { Reference.webRow.scan with status := Reference.statusWith "Applied" "9" }
  | 1 => { Reference.webRow.scan with status := Reference.statusWith "Applied" "7" }
  | 2 => { Reference.webRow.scan with status := Reference.statusWith "Applied" "9" }

def reportFlakes : Fin 3 → Int64
  | 0 => 9
  | 1 => 7
  | 2 => 9

theorem reportMessages_messages :
    Messages Reference.packages reportMessages reportFlakes Reference.webRow none where
  layout := ⟨rfl,rfl,rfl⟩
  id_eq := by decide
  version_eq := by decide
  hasID
    | 0 => ⟨"9",by decide,fun _ => rfl,rfl⟩
    | 1 => ⟨"7",by decide,fun _ => rfl,rfl⟩
    | 2 => ⟨"9",by decide,fun _ => rfl,rfl⟩
  storedID := rfl
  node := by decide
  node_stored _ _ h := by cases h
  same := by decide

/-- The three deliveries can be completed, and the later report is then the stored one. -/
theorem statuses_converge_delivered : ∃ cfg : Config (Fin 3) State Call Call.Resp Reply,
    Reach (pool 3) (start Reference.packages (reports reportMessages)
      (.single Reference.webRow)) cfg ∧ Finished cfg ∧
    ∃ row, cfg.shared.resources.find "web" = some row ∧
      row.status = Reference.statusWith "Applied" "9" := by
  have hfresh : (State.single Reference.webRow).Fresh 3 := ⟨rfl,fun i l hl => by cases hl⟩
  have hrow₀ : (State.single Reference.webRow).resources.find Reference.webRow.id =
    some Reference.webRow := rfl
  obtain ⟨⟨cfg,hr,hfin⟩,-⟩ := statuses_converge Reference.packages reportMessages_messages hfresh
    rfl hrow₀ .refl
  obtain ⟨-,-,row,hrow,hlast⟩ := statuses_converge Reference.packages reportMessages_messages
    hfresh rfl hrow₀ hr
  refine ⟨cfg,hr,hfin,row,hrow,?_⟩
  rcases hlast hfin with ⟨i,hi,hmax,-⟩ | ⟨-,hold⟩
  · rw [hi]
    match i with
    | 0 => rfl
    | 1 => exact absurd (hmax 0) (by decide)
    | 2 => rfl
  · obtain ⟨old,hnone,-⟩ := hold 0
    cases hnone

end Maestro
