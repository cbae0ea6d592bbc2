import Maestro.Server.StoredStatus
import Maestro.Services.Evaluation

/-!
# Statuses that can be superseded

The first status of a resource is stored without its sequence ID being parsed. Every later one
is compared with the stored ID, so that an ID that cannot be parsed blocks the resource. When the
first statuses have IDs that can be parsed, all stored ones have.
-/

namespace Maestro
open Concurrent Data ResourceService

/-- Whether the status has a sequence ID that `snowflake.ParseString` accepts. -/
def parses (ext : External) (status : JSONMap) : Bool :=
  match sequenceIDOf ext status "resource status" with
  | .error _ => false
  | .ok sequenceID =>
    match ext.snowflake.parseString sequenceID with
    | .error _ => false
    | .ok _ => true

/-- A stored status, if there is one, has an ID. -/
def Supersedable (ext : External) (status : JSONMap) : Prop :=
  status.scan.len ≠ 0 → ∃ flake, HasID ext status flake

/-- The first status that is stored for a resource has an ID that can be parsed. -/
def firstParses (ext : External) (s : State) : Call → Bool
  | .updateResourceStatus id status =>
    match s.resources.find id with
    | none => true
    | some row => row.status.scan.len ≠ 0 ∨ parses ext status
  | _ => true

/-- The sessions, as far as they store such statuses. -/
def firstPool (ext : External) (id : String) (n : ℕ) (i : Fin n) (ch : Choice) (c : Call)
    (s : State) : Option (c.Resp × State) :=
  if firstParses ext s c then oncePool id n i ch c s else none

section Compare

variable {ext : External} {status stored : JSONMap}

theorem hasID_of_parses (hempty : ∀ x, ext.snowflake.parseString "" ≠ .ok x)
    (h : parses ext status = true) : ∃ flake, HasID ext status flake := by
  unfold parses at h
  split at h
  · cases h
  · next sequenceID hread =>
    split at h
    · cases h
    · next flake hparse =>
      refine ⟨flake,sequenceID,?_,fun what => sequenceIDOf_ok hread,hparse⟩
      rintro rfl
      exact hempty flake hparse

/-- What replaces a status with an ID has an ID. -/
theorem hasID_of_newer (hempty : ∀ x, ext.snowflake.parseString "" ≠ .ok x) {old : Int64}
    (hold : HasID ext stored old) (h : newerStatus ext status stored = .ok true) :
    ∃ flake, HasID ext status flake := by
  obtain ⟨storedID,hne,hread,hparse⟩ := hold.read
  unfold newerStatus at h
  split at h
  · cases h
  split at h
  · cases h
  · next sequenceID hnew =>
    rw [if_pos hold.len_ne,hread] at h
    dsimp only at h
    rw [compareSequenceIDs,if_neg (fun hid => hne hid.2)] at h
    cases hflake : ext.snowflake.parseString sequenceID with
    | error err => simp [hflake] at h
    | ok flake =>
      refine ⟨flake,sequenceID,?_,fun what => sequenceIDOf_ok hnew,hflake⟩
      rintro rfl
      exact hempty flake hflake

/-- A status with an ID of the same node is compared without an error. -/
theorem newerStatus_ok {flake : Int64} (h : HasID ext status flake)
    (hstored : Supersedable ext stored)
    (hnode : ∀ old, HasID ext stored old → ext.snowflake.node flake = ext.snowflake.node old) :
    ∃ newer, newerStatus ext status stored.scan = .ok newer := by
  obtain ⟨sequenceID,hne,hread,hparse⟩ := h.read
  unfold newerStatus
  by_cases he : status = stored.scan
  · exact ⟨false,if_pos he⟩
  rw [if_neg he,hread]
  by_cases hlen : stored.scan.len = 0
  · exact ⟨true,by simp [hlen,compareSequenceIDs,hne]⟩
  obtain ⟨old,hold⟩ := hstored hlen
  obtain ⟨storedID,hne',hread',hparse'⟩ := hold.scan.read
  have hcmp : ∃ newer, compareSequenceIDs ext sequenceID storedID = .ok newer := by
    rw [compareSequenceIDs,if_neg (fun hid => hne' hid.2)]
    simp only [hparse,hparse']
    rw [if_neg (not_not.mpr (hnode old hold))]
    split <;> exact ⟨_,rfl⟩
  obtain ⟨newer,hcmp⟩ := hcmp
  exact ⟨newer,by simp only [ne_eq,hlen,not_false_eq_true,if_true,hread',hcmp]⟩

end Compare

section Run

variable {ext : External} {id : String} {n : ℕ} {i : Fin n} {ch : Choice} {c : Call} {r : c.Resp}
    {s s' : State}

/-- Where the status of a row comes from. -/
theorem RowEffect.status_of_find {t : ℕ} (h : RowEffect t s c s') {row' : ResourceRow}
    (hrow' : s'.resources.find id = some row') :
    (∃ row, s.resources.find id = some row ∧ row'.status = row.status) ∨
      (∃ resource, c = .createResource resource ∧ row'.status = resource.status) ∨
      ∃ row, c = .updateResourceStatus id row'.status ∧ s.resources.find id = some row := by
  cases h with
  | quiet acts hres _ _ => exact Or.inl ⟨row',hres ▸ hrow',rfl⟩
  | insert resource now uuid hi =>
    rw [State.find_insertResource] at hrow'
    split at hrow'
    · cases hrow'
      exact Or.inr (Or.inl ⟨resource,rfl,rfl⟩)
    · exact Or.inl ⟨row',hrow',rfl⟩
  | spec version payload now hrow =>
    rw [State.find_writeSpec] at hrow'
    split at hrow'
    · obtain ⟨row,hrow,rfl⟩ := Option.map_eq_some_iff.mp hrow'
      exact Or.inl ⟨row,hrow,rfl⟩
    · exact Or.inl ⟨row',hrow',rfl⟩
  | status status now hrow =>
    rw [State.find_writeStatus] at hrow'
    split at hrow'
    · next hid =>
      subst hid
      obtain ⟨row,hrow,rfl⟩ := Option.map_eq_some_iff.mp hrow'
      exact Or.inr (Or.inr ⟨row,rfl,hrow⟩)
    · exact Or.inl ⟨row',hrow',rfl⟩
  | soft now hrow hd =>
    rw [State.find_softDelete] at hrow'
    split at hrow'
    · obtain ⟨row,hrow,rfl⟩ := Option.map_eq_some_iff.mp hrow'
      exact Or.inl ⟨row,hrow,rfl⟩
    · exact Or.inl ⟨row',hrow',rfl⟩
  | hard hrow =>
    rw [State.find_hardDelete] at hrow'
    split at hrow'
    · cases hrow'
    · exact Or.inl ⟨row',hrow',rfl⟩

theorem firstPool_exec (h : firstPool ext id n i ch c s = some (r,s')) :
    oncePool id n i ch c s = some (r,s') ∧ firstParses ext s c = true := by
  unfold firstPool at h
  split at h
  · next hf => exact ⟨h,hf⟩
  · cases h

theorem firstPool_reach {β : Type} {cfg cfg' : Config (Fin n) State Call Call.Resp β}
    (h : Reach (firstPool ext id n) cfg cfg') : Reach (oncePool id n) cfg cfg' := by
  refine Reach.mono (oncePool id n) ?_ h
  intro i ch c s r s' hx
  exact (firstPool_exec hx).1

/-- Calls that remove no row. -/
def Call.keepsRows : Call → Prop
  | .deleteResource _ _ => False
  | _ => True

theorem RowEffect.removed_of {t : ℕ} (h : RowEffect t s c s') (hc : c.keepsRows)
    (hr : s'.Removed id) : s.Removed id := by
  obtain ⟨u,row,hm,hid⟩ := hr
  refine ⟨u,row,?_,hid⟩
  have hlast : ∀ a : Act, (∀ row, a ≠ .hardDeleted row) →
      (⟨u,.hardDeleted row⟩ : Entry) ∈ s.journal ++ [⟨t,a⟩] →
        (⟨u,.hardDeleted row⟩ : Entry) ∈ s.journal := by
    intro a ha hm
    rcases List.mem_append.mp hm with hm | hm
    · exact hm
    · cases List.mem_singleton.mp hm
      exact absurd rfl (ha row)
  cases h with
  | quiet acts _ hj hb =>
    rw [hj] at hm
    rcases List.mem_append.mp hm with hm | hm
    · exact hm
    · obtain ⟨a,ha,he⟩ := List.mem_map.mp hm
      cases he
      exact (hb _ ha).elim
  | insert | spec | status | soft => exact hlast _ (fun _ => Act.noConfusion) hm
  | hard hrow => exact hc.elim

/-- What holds of the resource in every state: its row was not removed, and its status has an
ID. -/
def State.StatusOpen (ext : External) (id : String) (s : State) : Prop :=
  ¬ s.Removed id ∧ ∀ row, s.resources.find id = some row → Supersedable ext row.status

theorem State.StatusOpen.step (hempty : ∀ x, ext.snowflake.parseString "" ≠ .ok x)
    (h : s.StatusOpen ext id) (ha : statusRule ext id (fun _ _ => True) i c s) (hc : c.keepsRows)
    (hx : firstPool ext id n i ch c s = some (r,s')) : s'.StatusOpen ext id := by
  obtain ⟨hx,hfirst⟩ := firstPool_exec hx
  have heffect := exec_rowEffect (oncePool_exec hx).1
  refine ⟨fun hr => h.1 (heffect.removed_of hc hr),fun row' hrow' => ?_⟩
  rcases heffect.status_of_find hrow' with ⟨row,hrow,he⟩ | ⟨resource,rfl,he⟩ | ⟨row,rfl,hrow⟩
  · rw [he]
    exact h.2 row hrow
  · have hnone : resource.status = none := ha
    rw [he,hnone]
    exact fun hlen => absurd rfl hlen
  · intro _
    -- the row is there, so the status was compared with the stored one
    have hnew := (ha rfl).2.2.resolve_left h.1 row hrow
    by_cases hlen : row.status.scan.len = 0
    · simp only [firstParses,hrow,hlen] at hfirst
      exact hasID_of_parses hempty (by simpa using hfirst)
    · obtain ⟨old,hold⟩ := h.2 row hrow hlen
      exact hasID_of_newer hempty hold.scan hnew

/-- Concurrent calls of `UpdateStatus`. -/
def reporting (ext : External) (msg : Fin n → Resource) (s₀ : State) :
    Config (Fin n) State Call Call.Resp (Except ServiceError (Resource × Bool)) :=
  ⟨s₀,fun i => updateStatus ext (msg i)⟩

theorem reporting_verified (msg : Fin n → Resource) (s₀ : State) :
    Verified (oncePool id n) (fun i c s => statusRule ext id (fun _ _ => True) i c s ∧ c.keepsRows)
      (fun _ _ _ => True) (reporting ext msg s₀) := by
  have hsafe : Verified (oncePool id n) (statusRule ext id fun _ _ => True)
      (fun _ (_ : Except ServiceError (Resource × Bool)) _ => True) (reporting ext msg s₀) :=
    fun i => ⟨_,.const True,trivial,safe_storeStatus (msg i) fun _ => trivial⟩
  have hn : ∀ c : Call, c.neutral → c.keepsRows := fun c hc => by
    cases c with
    | deleteResource => cases hc
    | _ => trivial
  exact hsafe.and_calls oncePool_answers fun i => updateStatus_calls hn ext (msg i) trivial trivial
    trivial

theorem reporting_statusOpen (hempty : ∀ x, ext.snowflake.parseString "" ≠ .ok x)
    {msg : Fin n → Resource} {s₀ : State} (h₀ : s₀.StatusOpen ext id)
    {cfg : Config (Fin n) State Call Call.Resp (Except ServiceError (Resource × Bool))}
    (hr : Reach (firstPool ext id n) (reporting ext msg s₀) cfg) :
    cfg.shared.StatusOpen ext id := by
  induction hr with
  | refl => exact h₀
  | tail hr hs ih =>
    obtain ⟨i,o,ht,hx⟩ := hs
    have hv := (reporting_verified msg s₀).reach (firstPool_reach hr)
    obtain ⟨ha,hc⟩ := hv.next ht
    exact ih.step hempty ha hc hx

end Run

section Later

variable {ext : External} {t : ℕ} {env : ℕ → Choice} {s s' : State}

/-- Without a refused statement, `UpdateStatus` only fails when its check does. -/
theorem eval_updateStatus_ok {res : Resource} {row : ResourceRow}
    {a : Except ServiceError (Resource × Bool)} (hfault : ∀ k c, (env k).fault c = none)
    (hrow : s.resources.find res.id = some row) {accepted : Bool}
    (haccepts : acceptsStatus ext res row.scan = .ok accepted)
    (h : Prog.eval (exec t) env (updateStatus ext res) s = some (a,s')) : ∃ p, a = .ok p := by
  rcases eval_withAdvisoryLock h with ⟨err,hf,-,-⟩ | ⟨locks,s₁,locks',hb,rfl⟩
  · rw [hfault] at hf
    cases hf
  · obtain ⟨r,s₂,hx,hk⟩ := Prog.eval_lift_bind.mp hb
    rw [exec_of_no_fault (hfault _ _)] at hx
    obtain ⟨rfl,⟨hnone,-⟩ | ⟨row',hrow',rfl⟩⟩ := commit_takeResource hx
    · exact absurd (hrow.symm.trans hnone) (by simp)
    cases hrow.symm.trans hrow'
    dsimp only at hk
    rw [haccepts] at hk
    cases accepted with
    | false => exact ⟨_,(Prog.eval_ret.mp hk).1⟩
    | true =>
      obtain ⟨r₁,s₃,m,hw,hk⟩ := Prog.eval_bind hk
      obtain ⟨r₂,s₄,m',hw,hk₂⟩ := Prog.eval_bind hw
      have hx := Prog.eval_lift.mp (eval_flagging hw)
      rw [exec_of_no_fault (hfault _ _)] at hx
      obtain ⟨rfl,-⟩ := commit_updateResourceStatus hx
      obtain ⟨rfl,rfl⟩ := Prog.eval_ret.mp hk₂
      exact ⟨_,(Prog.eval_ret.mp hk).1⟩

end Later

/-- However calls of `UpdateStatus` interleave, and whichever of their statements fail, a stored
status has an ID that can be parsed, and a later status of the version with an ID of the same node
is no error. -/
theorem status_superseded (ext : External) (hempty : ∀ x, ext.snowflake.parseString "" ≠ .ok x)
    {id : String} {n : ℕ} {msg : Fin n → Resource} {s₀ : State} (hfresh : s₀.Fresh n)
    (h₀ : ∀ row, s₀.resources.find id = some row → Supersedable ext row.status)
    {cfg : Config (Fin n) State Call Call.Resp (Except ServiceError (Resource × Bool))}
    (hr : Reach (firstPool ext id n) (reporting ext msg s₀) cfg) {row : ResourceRow}
    (hrow : cfg.shared.resources.find id = some row) :
    (row.status.scan.len ≠ 0 → ∃ flake, HasID ext row.status flake) ∧
    ∀ res flake, res.id = id → res.version = row.version → HasID ext res.status flake →
      (∀ old, HasID ext row.status old → ext.snowflake.node flake = ext.snowflake.node old) →
      ∀ t env a s', (∀ k c, (env k).fault c = none) →
        Prog.eval (exec t) env (updateStatus ext res) cfg.shared = some (a,s') →
          ∃ p, a = .ok p := by
  have hopen : s₀.StatusOpen ext id := by
    refine ⟨?_,h₀⟩
    rintro ⟨u,gone,hm,-⟩
    rw [hfresh.journal] at hm
    cases hm
  have hstored := (reporting_statusOpen hempty hopen hr).2 row hrow
  refine ⟨hstored,?_⟩
  intro res flake hid hversion hflake hnode t env a s' hfault he
  subst hid
  obtain ⟨newer,hnewer⟩ := newerStatus_ok hflake hstored hnode
  have haccepts : acceptsStatus ext res row.scan = .ok newer := by
    have hsame : row.scan.version = res.version := hversion.symm
    rw [acceptsStatus,if_neg (not_not.mpr hsame)]
    exact hnewer
  exact eval_updateStatus_ok hfault hrow haccepts he

/-- Two reports of a resource without a status, the first with the given sequence ID. -/
def twoReports (sequenceID : String) : Fin 2 → Resource
  | 0 => { Reference.webRow.scan with status := Reference.statusWith "Applied" sequenceID }
  | 1 => { Reference.webRow.scan with status := Reference.statusWith "Applied" "9" }

/-- The first report is served before the second, which finds it stored. -/
def reportTurns (second : List (Fin 2)) : List (Fin 2 × Choice) := turns ([0,0,0,0] ++ second)

theorem status_superseded_sample : ∃ cfg row flake,
    Reach (firstPool Reference.packages "web" 2)
      (reporting Reference.packages (twoReports "7") (.single Reference.webRow)) cfg ∧
    cfg.shared.resources.find "web" = some row ∧
    row.status = Reference.statusWith "Applied" "7" ∧ HasID Reference.packages row.status flake := by
  have h : (follow (firstPool Reference.packages "web" 2) (reportTurns [])
      (reporting Reference.packages (twoReports "7") (.single Reference.webRow))).any fun cfg =>
      (cfg.shared.resources.find "web").any fun row =>
        decide (row.status = Reference.statusWith "Applied" "7" ∧ row.status.scan.len ≠ 0) := by
    decide +kernel
  obtain ⟨cfg,hfollow,h⟩ := (Option.any_eq_true _ _).mp h
  obtain ⟨row,hrow,h⟩ := (Option.any_eq_true _ _).mp h
  obtain ⟨hstatus,hlen⟩ := of_decide_eq_true h
  have hfresh : (State.single Reference.webRow).Fresh 2 := ⟨rfl,fun i l hl => by cases hl⟩
  have h₀ : ∀ row, (State.single Reference.webRow).resources.find "web" = some row →
      Supersedable Reference.packages row.status := by
    intro row hrow
    cases hrow
    exact fun hlen => absurd rfl hlen
  have hr := Reach.of_follow _ hfollow
  obtain ⟨flake,hflake⟩ :=
    (status_superseded Reference.packages (fun _ h => by cases h) hfresh h₀ hr hrow).1 hlen
  exact ⟨cfg,row,flake,hr,hrow,hstatus,hflake⟩

/-- The first status has an ID that cannot be parsed and is stored; the next one, which has an ID,
is an error. -/
theorem status_blocked : ∃ cfg row,
    Reach (oncePool "web" 2)
      (reporting Reference.packages (twoReports "agent") (.single Reference.webRow)) cfg ∧
    cfg.shared.resources.find "web" = some row ∧ row.status.scan.len ≠ 0 ∧
    (∀ sequenceID, sequenceIDOf Reference.packages row.status "" = .ok sequenceID →
      ∀ flake, Reference.packages.snowflake.parseString sequenceID ≠ .ok flake) ∧
    HasID Reference.packages (twoReports "agent" 1).status 9 ∧
    cfg.threads 1 = .ret (.error (Errors.generalError ("Unable to compare sequence IDs: " ++
      (Errors.generalError
        "Unable to parse sequence ID: strconv.ParseInt: invalid syntax").error))) := by
  have h : (follow (oncePool "web" 2) (reportTurns [1,1,1])
      (reporting Reference.packages (twoReports "agent") (.single Reference.webRow))).any fun cfg =>
      ((cfg.shared.resources.find "web").any fun row =>
        decide (row.status = Reference.statusWith "Applied" "agent")) &&
      decide ((cfg.threads 1).result = some (.error (Errors.generalError
        ("Unable to compare sequence IDs: " ++ (Errors.generalError
          "Unable to parse sequence ID: strconv.ParseInt: invalid syntax").error)))) := by
    decide +kernel
  obtain ⟨cfg,hfollow,h⟩ := (Option.any_eq_true _ _).mp h
  obtain ⟨hany,hret⟩ := Bool.and_eq_true_iff.mp h
  obtain ⟨row,hrow,hstatus⟩ := (Option.any_eq_true _ _).mp hany
  have hstatus := of_decide_eq_true hstatus
  refine ⟨cfg,row,.of_follow _ hfollow,hrow,?_,?_,⟨"9",by decide,fun _ => rfl,rfl⟩,
    Prog.result_eq_some.mp (of_decide_eq_true hret)⟩
  · rw [hstatus]
    decide
  · rw [hstatus]
    intro sequenceID hread flake hparse
    cases hread
    cases hparse

end Maestro
