import Maestro.Data.Search
import Maestro.Server.Operations
import Maestro.Services.Calls
import Mathlib.Algebra.BigOperators.Fin

/-!
# The history of one resource

What the journal says about a row that nothing hard-deletes: its columns are those of
the last write of each kind, and every write was made on the row as it then was.
-/

namespace Maestro
open Concurrent Data ResourceService

/-- The writes of an operation: an update writes the spec that it carries, a status update the
status, and a deletion only sets its mark. -/
def Op.writes (op : Op) : Call → Prop
  | .createResource res => ∃ h, op = .create res h
  | .updateResource id _ payload => ∃ res, (op = .update res ∨ op = .publishUpdate res) ∧
    res.id = id ∧ res.payload = payload
  | .updateResourceStatus id status => ∃ res, op = .updateStatus res ∧ res.id = id ∧
    res.status = status
  | .deleteResource id false => ∃ interval, op = .markAsDeleting interval id
  | .deleteResource id true => op = .delete id
  | .createEvent event => event.reconciledDate = none
  | .saveEvent _ | .deleteReconciledEvents | .reconcileStaleDeleteEvents _ _ => False
  | _ => True

theorem Op.writes_of_neutral (op : Op) (c : Call) (h : c.neutral) : op.writes c := by
  cases c <;> trivial

theorem Op.run_calls (ext : External) (op : Op) :
    (op.run ext).Calls Answers op.writes fun _ => True := by
  have hn := op.writes_of_neutral
  cases op with
  | create res h =>
    exact (create_calls hn ext res ⟨h,rfl⟩ fun _ _ => rfl).map fun _ _ => trivial
  | update res =>
    refine (update_calls hn ext res trivial trivial (fun _ => ?_) rfl).map fun _ _ => trivial
    exact ⟨res,Or.inl rfl,rfl,rfl⟩
  | publishUpdate res =>
    refine Prog.Calls.map (Q := fun _ => True) (.bind (get_calls ext res.id trivial) fun r _ => ?_)
      fun _ _ => trivial
    cases r with
    | error err => trivial
    | ok found =>
      refine .bind (Q := fun _ => True) ?_ fun r _ => by cases r <;> trivial
      split
      · exact update_calls hn ext _ trivial trivial (fun _ => ⟨res,Or.inr rfl,rfl,rfl⟩) rfl
      · exact update_calls hn ext _ trivial trivial (fun _ => ⟨res,Or.inr rfl,rfl,rfl⟩) rfl
  | updateStatus res =>
    refine (updateStatus_calls hn ext res trivial trivial ?_).map fun _ _ => trivial
    exact ⟨res,rfl,rfl,rfl⟩
  | markAsDeleting interval id =>
    refine (markAsDeleting_calls hn interval id trivial trivial ?_ trivial rfl).map
      fun _ _ => trivial
    exact ⟨interval,rfl⟩
  | delete id => exact (delete_calls hn id rfl).map fun _ _ => trivial

/-- What session `i` may do: what its outline permits, and only the writes of its operation. -/
def owned (ext : External) {n : ℕ} (ops : Fin n → Op) (i : Fin n) (c : Call) (s : State) : Prop :=
  permits ext n i c s ∧ (ops i).writes c

theorem start_owned (ext : External) {n : ℕ} (ops : Fin n → Op) {s₀ : State} (h : s₀.Fresh n) :
    Verified (pool n) (owned ext ops) (fun i => (ops i).Post ext i) (start ext ops s₀) :=
  (start_verified ext ops h).and_calls (fun _ _ _ _ _ _ hx => commit_answers hx)
    fun i => (ops i).run_calls ext

section Writes

variable (id : String)

/-- The spec that an entry wrote to the resource, and the session that did. -/
def Entry.spec? : Entry → Option (ℕ × Int32 × JSONMap)
  | ⟨t,.wroteSpec id' version payload⟩ => if id' = id then some (t,version,payload) else none
  | _ => none

def Entry.status? : Entry → Option (ℕ × JSONMap)
  | ⟨t,.wroteStatus id' status⟩ => if id' = id then some (t,status) else none
  | _ => none

def Entry.mark? : Entry → Option (ℕ × Time)
  | ⟨t,.softDeleted id' time⟩ => if id' = id then some (t,time) else none
  | _ => none

def specWrites (J : List Entry) : List (ℕ × Int32 × JSONMap) := J.filterMap (Entry.spec? id)

def statusWrites (J : List Entry) : List (ℕ × JSONMap) := J.filterMap (Entry.status? id)

def markWrites (J : List Entry) : List (ℕ × Time) := J.filterMap (Entry.mark? id)

/-- The columns that some operation owns, and those that none changes. -/
def ResourceRow.columns (row : ResourceRow) : ResourceRow := { row with updatedAt := 0 }

/-- The columns of a row after what the journal says: the spec and the status that were
written last, and the first mark. -/
def ResourceRow.after (row : ResourceRow) (J : List Entry) : ResourceRow :=
  { row with
    version := ((specWrites id J).getLast?.map fun w => w.2.1).getD row.version
    payload := ((specWrites id J).getLast?.map fun w => w.2.2).getD row.payload
    status := ((statusWrites id J).getLast?.map fun w => w.2).getD row.status
    deletedAt := row.deletedAt.or ((markWrites id J).head?.map fun w => w.2)
    updatedAt := 0 }

/-- What an act does to the columns of the row. -/
def ResourceRow.apply (row : ResourceRow) : Act → ResourceRow
  | .wroteSpec id' version payload =>
    if id' = id then { row with version := version, payload := payload } else row
  | .wroteStatus id' status => if id' = id then { row with status := status } else row
  | .softDeleted id' time =>
    if id' = id then { row with deletedAt := row.deletedAt.or (some time) } else row
  | _ => row

theorem ResourceRow.after_nil (row : ResourceRow) : row.after id [] = row.columns := by
  simp [ResourceRow.after,ResourceRow.columns,specWrites,statusWrites,markWrites]

theorem ResourceRow.after_snoc (row : ResourceRow) (J : List Entry) (e : Entry) :
    row.after id (J ++ [e]) = (row.after id J).apply id e.act := by
  obtain ⟨t,act⟩ := e
  simp only [after,specWrites,statusWrites,markWrites,filterMap_snoc]
  cases act with
  | wroteSpec id' version payload =>
    by_cases hid : id' = id <;> simp [Entry.spec?,Entry.status?,Entry.mark?,apply,hid]
  | wroteStatus id' status =>
    by_cases hid : id' = id <;> simp [Entry.spec?,Entry.status?,Entry.mark?,apply,hid]
  | softDeleted id' time =>
    by_cases hid : id' = id
    · cases hd : row.deletedAt <;> cases hm : J.filterMap (Entry.mark? id) <;>
        simp [Entry.spec?,Entry.status?,Entry.mark?,apply,hid]
    · simp [Entry.spec?,Entry.status?,Entry.mark?,apply,hid]
  | _ => simp only [Entry.spec?,Entry.status?,Entry.mark?,apply,Option.toList_none,List.append_nil]

theorem ResourceRow.apply_quiet (row : ResourceRow) {a : Act} (h : a.quiet) : row.apply id a = row := by
  cases a <;> first | rfl | exact h.elim

end Writes

/-- An entry about the resource fits its row: a read saw it, a write was made by an operation
that owns the columns and on the row as it was. Entries that insert or remove the row fit none. -/
def Entry.fits (ext : External) {n : ℕ} (ops : Fin n → Op) (id : String) (cur : ResourceRow) :
    Entry → Prop
  | ⟨_,.readResource id' found⟩ => id' = id → ∃ row, found = some row ∧ row.columns = cur
  | ⟨t,.wroteSpec id' version payload⟩ => id' = id →
    (∃ i : Fin n, t = i ∧ (ops i).writes (.updateResource id version payload)) ∧
      cur.deletedAt = none ∧ version = cur.version + 1
  | ⟨t,.wroteStatus id' status⟩ => id' = id →
    (∃ i : Fin n, t = i ∧ (ops i).writes (.updateResourceStatus id status)) ∧
      newerStatus ext status cur.status.scan = .ok true
  | ⟨t,.softDeleted id' _⟩ => id' = id →
    (∃ i : Fin n, t = i ∧ (ops i).writes (.deleteResource id false)) ∧ cur.deletedAt = none
  | ⟨_,.insertedResource row⟩ => row.id ≠ id
  | ⟨_,.hardDeleted row⟩ => row.id ≠ id
  | _ => True

/-- A journal in which every entry fits what the entries before it made of the row. -/
inductive History (ext : External) {n : ℕ} (ops : Fin n → Op) (id : String) (row₀ : ResourceRow) :
    List Entry → Prop
  | nil : History ext ops id row₀ []
  | snoc {J : List Entry} {e : Entry} (h : History ext ops id row₀ J)
      (he : e.fits ext ops id (row₀.after id J)) : History ext ops id row₀ (J ++ [e])

/-- The row is there, and it is what its history says. -/
structure State.Kept (ext : External) {n : ℕ} (ops : Fin n → Op) (id : String)
    (row₀ : ResourceRow) (s : State) : Prop where
  row : ∃ row, s.resources.find id = some row ∧ row.columns = row₀.after id s.journal
  history : History ext ops id row₀ s.journal

section History

variable {ext : External} {n : ℕ} {ops : Fin n → Op} {id : String} {row₀ : ResourceRow}
    {J : List Entry} {s s' : State}

theorem History.fits_at (h : History ext ops id row₀ J) {pre post : List Entry} {e : Entry}
    (he : J = pre ++ e :: post) : e.fits ext ops id (row₀.after id pre) := by
  induction h generalizing post with
  | nil => simp at he
  | @snoc J e' h he' ih =>
    rcases List.eq_nil_or_concat post with rfl | ⟨post,last,rfl⟩
    · obtain ⟨rfl,hlast⟩ := List.append_inj' he rfl
      cases hlast
      exact he'
    · have hsplit : J ++ [e'] = (pre ++ e :: post) ++ [last] := by simpa using he
      exact ih (List.append_inj' hsplit rfl).1

theorem History.pre (h : History ext ops id row₀ J) {pre post : List Entry}
    (he : J = pre ++ post) : History ext ops id row₀ pre := by
  induction h generalizing post with
  | nil =>
    obtain ⟨rfl,-⟩ := List.append_eq_nil_iff.mp he.symm
    exact .nil
  | @snoc J e' h he' ih =>
    rcases List.eq_nil_or_concat post with rfl | ⟨post,last,rfl⟩
    · rw [← List.append_nil pre,← he]
      exact h.snoc he'
    · have hsplit : J ++ [e'] = (pre ++ post) ++ [last] := by simpa using he
      exact ih (List.append_inj' hsplit rfl).1

theorem History.not_removed (h : History ext ops id row₀ J) {t : ℕ} {row : ResourceRow}
    (hm : (⟨t,.hardDeleted row⟩ : Entry) ∈ J) : row.id ≠ id := by
  obtain ⟨pre,post,he⟩ := List.append_of_mem hm
  exact h.fits_at he

theorem State.Kept.not_removed (h : s.Kept ext ops id row₀) : ¬ s.Removed id :=
  fun ⟨_,_,hm,hid⟩ => h.history.not_removed hm hid

/-- Acts that leave the resources alone change no column. -/
theorem State.Kept.quiet (h : s.Kept ext ops id row₀) {t : ℕ} {c : Call} {acts : List Act}
    (hr : s'.resources = s.resources) (hj : s'.journal = s.journal ++ acts.map (Entry.mk t))
    (hb : ∀ a ∈ acts, a.recordedBy s c) : s'.Kept ext ops id row₀ := by
  obtain ⟨⟨row,hrow,hcols⟩,hist⟩ := h
  have hall : ∀ J, History ext ops id row₀ J → row₀.after id J = row.columns →
      History ext ops id row₀ (J ++ acts.map (Entry.mk t)) ∧
        row₀.after id (J ++ acts.map (Entry.mk t)) = row.columns := by
    clear hj
    induction acts with
    | nil => exact fun J hJ hafter => by simpa using ⟨hJ,hafter⟩
    | cons a acts ih =>
      intro J hJ hafter
      have ha := hb a List.mem_cons_self
      have hfit : (⟨t,a⟩ : Entry).fits ext ops id (row₀.after id J) := by
        cases a with
        | readResource id' found =>
          obtain ⟨-,rfl⟩ := ha
          rintro rfl
          exact ⟨row,hrow,hafter.symm⟩
        | wroteSpec | wroteStatus | softDeleted | insertedResource | hardDeleted => exact ha.elim
        | _ => trivial
      have hsnoc : row₀.after id (J ++ [⟨t,a⟩]) = row.columns := by
        rw [ResourceRow.after_snoc,ResourceRow.apply_quiet id _ ha.quiet,hafter]
      simpa using ih (fun a hm => hb a (List.mem_cons_of_mem _ hm)) _ (hJ.snoc hfit) hsnoc
  obtain ⟨hist',hcols'⟩ := hall _ hist hcols.symm
  rw [← hj] at hist' hcols'
  exact ⟨⟨row,by rw [hr]; exact hrow,hcols'.symm⟩,hist'⟩

/-- One more entry, that fits the row and that the row follows. -/
theorem State.Kept.entry (h : s.Kept ext ops id row₀) {e : Entry}
    (hj : s'.journal = s.journal ++ [e]) (hfit : e.fits ext ops id (row₀.after id s.journal))
    (hrow : ∃ row, s'.resources.find id = some row ∧
      row.columns = (row₀.after id s.journal).apply id e.act) : s'.Kept ext ops id row₀ := by
  constructor
  · rw [hj,ResourceRow.after_snoc]
    exact hrow
  · rw [hj]
    exact h.history.snoc hfit

theorem State.Kept.step (hkeep : ∀ i, ops i ≠ .delete id) {i : Fin n} {ch : Choice} {c : Call}
    {r : c.Resp} (ha : owned ext ops i c s) (hx : pool n i ch c s = some (r,s'))
    (h : s.Kept ext ops id row₀) : s'.Kept ext ops id row₀ := by
  obtain ⟨row,hrow,hcols⟩ := h.row
  have hdel : (row₀.after id s.journal).deletedAt = row.deletedAt := by rw [← hcols]; rfl
  cases commit_rowEffect hx with
  | quiet acts hr hj hb => exact h.quiet hr hj hb
  | insert resource now uuid hi =>
    have hne : ((resource.beforeCreate now uuid).row now).id ≠ id := by
      intro he
      have hfree := hi.1
      rw [he,hrow] at hfree
      cases hfree
    refine h.entry rfl hne ⟨row,?_,hcols⟩
    rw [State.find_insertResource,if_neg (Ne.symm hne)]
    exact hrow
  | @spec id' cur version payload now hcur =>
    obtain ⟨⟨-,hlive,hver⟩,hown⟩ := ha
    by_cases hid : id' = id
    · subst id'
      have hver' : version = row.version + 1 := hver.resolve_left h.not_removed row hrow
      refine h.entry rfl ?_ ⟨row.setSpec version payload now,?_,?_⟩
      · intro _
        refine ⟨⟨i,rfl,hown⟩,hdel.trans (hlive row hrow),?_⟩
        rw [← hcols]
        exact hver'
      · rw [State.find_writeSpec,if_pos rfl,hrow]
        rfl
      · rw [← hcols]
        simp [ResourceRow.apply,ResourceRow.columns,ResourceRow.setSpec]
    · refine h.entry rfl (fun he => absurd he hid) ⟨row,?_,?_⟩
      · rw [State.find_writeSpec,if_neg (Ne.symm hid)]
        exact hrow
      · simpa [ResourceRow.apply,hid] using hcols
  | @status id' cur status now hcur =>
    obtain ⟨⟨-,hnew⟩,hown⟩ := ha
    by_cases hid : id' = id
    · subst id'
      refine h.entry rfl ?_ ⟨row.setStatus status now,?_,?_⟩
      · intro _
        refine ⟨⟨i,rfl,hown⟩,?_⟩
        rw [← hcols]
        exact hnew.resolve_left h.not_removed row hrow
      · rw [State.find_writeStatus,if_pos rfl,hrow]
        rfl
      · rw [← hcols]
        simp [ResourceRow.apply,ResourceRow.columns,ResourceRow.setStatus]
    · refine h.entry rfl (fun he => absurd he hid) ⟨row,?_,?_⟩
      · rw [State.find_writeStatus,if_neg (Ne.symm hid)]
        exact hrow
      · simpa [ResourceRow.apply,hid] using hcols
  | @soft id' cur now hcur hlive =>
    by_cases hid : id' = id
    · subst id'
      cases hcur.symm.trans hrow
      refine h.entry rfl ?_ ⟨row.setDeletedAt now,?_,?_⟩
      · exact fun _ => ⟨⟨i,rfl,ha.2⟩,hdel.trans hlive⟩
      · rw [State.find_softDelete,if_pos rfl,hrow]
        rfl
      · rw [← hcols]
        simp [ResourceRow.apply,ResourceRow.columns,ResourceRow.setDeletedAt,hlive]
    · refine h.entry rfl (fun he => absurd he hid) ⟨row,?_,?_⟩
      · rw [State.find_softDelete,if_neg (Ne.symm hid)]
        exact hrow
      · simpa [ResourceRow.apply,hid] using hcols
  | @hard id' cur hcur =>
    -- the only operation that could remove the row is not in the pool
    have hne : cur.id ≠ id := by
      intro he
      rw [Table.find_some_key hcur] at he
      subst id'
      exact hkeep i ha.2
    refine h.entry rfl hne ⟨row,?_,hcols⟩
    rw [State.find_hardDelete,if_neg (Ne.symm hne)]
    exact hrow

theorem reach_kept (hkeep : ∀ i, ops i ≠ .delete id) (h₀ : s.Fresh n)
    (hrow₀ : s.resources.find id = some row₀) {cfg : Config (Fin n) State Call Call.Resp Reply}
    (hr : Reach (pool n) (start ext ops s) cfg) : cfg.shared.Kept ext ops id row₀ := by
  refine (start_owned ext ops h₀).invariant (K := fun s => s.Kept ext ops id row₀)
    (fun i ch c s r s' ha hx h => h.step hkeep ha hx) hr ⟨⟨row₀,hrow₀,?_⟩,?_⟩
  · rw [start,h₀.journal,ResourceRow.after_nil]
  · rw [start,h₀.journal]
    exact .nil

end History

section Sessions

variable {ext : External} {n : ℕ} {ops : Fin n → Op} {s : State}
    {cfg : Config (Fin n) State Call Call.Resp Reply}

/-- What a journal holds is what its sessions hold. -/
theorem length_filterMap_sessions {β : Type} {n : ℕ} (f : Entry → Option β) {J : List Entry}
    (h : ∀ e ∈ J, e.session < n) : (J.filterMap f).length =
      ∑ i : Fin n, ((J.filter fun e => e.session = (i : ℕ)).filterMap f).length := by
  induction J with
  | nil => simp
  | cons e J ih =>
    have hrest := ih fun e' he' => h e' (List.mem_cons_of_mem _ he')
    have hlen : ((e :: J).filterMap f).length =
        (f e).toList.length + (J.filterMap f).length := by
      cases hf : f e <;> simp [hf,Nat.add_comm]
    have hone : ∀ i : Fin n, (((e :: J).filter fun e' => e'.session = (i : ℕ)).filterMap f).length =
        (if (⟨e.session,h e List.mem_cons_self⟩ : Fin n) = i then (f e).toList.length else 0) +
          ((J.filter fun e' => e'.session = (i : ℕ)).filterMap f).length := by
      intro i
      by_cases hi : e.session = i
      · have he : (⟨e.session,h e List.mem_cons_self⟩ : Fin n) = i := Fin.ext hi
        rw [if_pos he,List.filter_cons_of_pos (by simpa using hi)]
        cases hf : f e <;> simp [hf,Nat.add_comm]
      · have he : (⟨e.session,h e List.mem_cons_self⟩ : Fin n) ≠ i :=
          fun hf => hi (congrArg Fin.val hf)
        rw [if_neg he,List.filter_cons_of_neg (by simpa using hi),Nat.zero_add]
    rw [hlen,hrest,Finset.sum_congr rfl fun i _ => hone i,Finset.sum_add_distrib,
      Finset.sum_ite_eq]
    simp

/-- The journal has entries of the sessions of the pool only. -/
theorem reach_sessions (h₀ : s.Fresh n) (hr : Reach (pool n) (start ext ops s) cfg) :
    ∀ e ∈ cfg.shared.journal, e.session < n := by
  refine (start_verified ext ops h₀).invariant (K := fun s => ∀ e ∈ s.journal, e.session < n) ?_ hr
    ?_
  · intro i ch c s r s' _ hx hK e he
    obtain ⟨acts,hj⟩ := commit_journal hx
    rw [hj,List.mem_append,List.mem_map] at he
    rcases he with he | ⟨a,_,rfl⟩
    · exact hK e he
    · exact i.isLt
  · simp [start,h₀.journal]

theorem State.filterMap_session {β : Type} (s : State) (t : ℕ) (f : Entry → Option β) :
    (s.journal.filter fun e => e.session = t).filterMap f =
      (s.acts t).filterMap fun a => f ⟨t,a⟩ := by
  rw [State.acts,List.filterMap_map]
  refine List.filterMap_congr fun e he => ?_
  have ht : e.session = t := by simpa using (List.mem_filter.mp he).2
  rw [← ht]
  rfl

theorem Entry.spec?_eq_some {id : String} {e : Entry} {t : ℕ} {version : Int32} {payload : JSONMap}
    (h : e.spec? id = some (t,version,payload)) : e = ⟨t,.wroteSpec id version payload⟩ := by
  obtain ⟨u,a⟩ := e
  cases a with
  | wroteSpec id' version' payload' =>
    by_cases hid : id' = id
    · simp [Entry.spec?,hid] at h
      obtain ⟨rfl,rfl,rfl⟩ := h
      rw [hid]
    · simp [Entry.spec?,hid] at h
  | _ => simp [Entry.spec?] at h

theorem Entry.spec?_session {id : String} (e : Entry) (w : ℕ × Int32 × JSONMap)
    (h : e.spec? id = some w) : w.1 = e.session := by
  obtain ⟨t,version,payload⟩ := w
  rw [Entry.spec?_eq_some h]

theorem filter_session {β : Type} {f : Entry → Option (ℕ × β)}
    (hf : ∀ e w, f e = some w → w.1 = e.session) (J : List Entry) (t : ℕ) :
    (J.filterMap f).filter (fun w => w.1 = t) =
      (J.filter fun e => e.session = t).filterMap f := by
  induction J with
  | nil => rfl
  | cons e J ih =>
    cases he : f e with
    | none => by_cases ht : e.session = t <;> simp [he,ht,ih]
    | some w =>
      have hw := hf e w he
      by_cases ht : e.session = t <;> simp [he,ht,hw,ih]

end Sessions

end Maestro
