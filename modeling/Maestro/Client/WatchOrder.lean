import Maestro.Client.WatchDelivery
import Maestro.Client.WatcherStop
import Mathlib.Data.List.TakeWhile

/-!
# The order of watch events

Listed works go through a queue to the watchers and received ones go to them directly, so a copy
that was listed early can overtake a newer one. Where the server changes a work only while no
copy of it is on its way, every copy is the current one. This module has what is then kept by
the calls of the store, under the conditions that its methods meet before each call.
-/

namespace Maestro
open Data Concurrent

namespace WatcherStore

/-- The copies of works that are on their way. -/
def outstanding (s : WatcherStore) : List Work :=
  s.published ++ (s.workQueue ++ s.inHand.map Prod.snd)

/-- The server changes a work only while no copy of it is on its way. -/
def Calm (c : StoreCall) (s : WatcherStore) : Prop :=
  match c with
  | .change work _ => ∀ copy ∈ s.outstanding, copy.uid ≠ work.uid
  | _ => True

instance (c : StoreCall) (s : WatcherStore) : Decidable (Calm c s) := by
  unfold Calm
  split <;> infer_instance

/-- The work of a journal entry. -/
def entryWork : WatchEntry → Option Work
  | .registered _ => none
  | .read work => some work
  | .delivered _ evt => some evt.object

/-- The works that were read since the watcher was registered. -/
def readsSince (watcher : ℕ) (journal : List WatchEntry) : List Work :=
  (journal.dropWhile fun e => e ≠ .registered watcher).filterMap fun
    | .read work => some work
    | _ => none

/-- The type of the events of a work. -/
def eventType (work : Work) : WatchType := if work.deleted then .deleted else .modified

/-- The first state of a work is the second one or an earlier one. -/
def NotAfter (a b : Work) : Prop := a = b ∨ a.rank < b.rank

/-- Of two entries on one work, the first one has no later state. -/
def InOrder (a b : WatchEntry) : Prop :=
  ∀ x y, entryWork a = some x → entryWork b = some y → x.uid = y.uid → NotAfter x y

/-- The works that a thread has in hand. -/
def holding (i : ℕ) (s : WatcherStore) : List Work :=
  (s.inHand.filter fun p => p.1 = i).map Prod.snd

/-! ### What is kept -/

/-- The copies on their way are the current ones, and those in the queue or in hand were read. -/
structure Fresh (s : WatcherStore) : Prop where
  uid : ∀ uid work, s.server uid = some work → work.uid = uid
  current : ∀ work ∈ s.outstanding, s.server work.uid = some work
  queued : ∀ work ∈ s.workQueue, work.deleted = false
  read : ∀ work ∈ s.workQueue ++ s.inHand.map Prod.snd, .read work ∈ s.journal

/-- The journal is in order, and what was delivered was read and accepted. -/
structure Logged (pkg : LabelsPackage) (s : WatcherStore) : Prop where
  past : ∀ e ∈ s.journal, ∀ work, entryWork e = some work →
    ∃ now, s.server work.uid = some now ∧ NotAfter work now
  ordered : s.journal.Pairwise InOrder
  delivered : ∀ k evt, .delivered k evt ∈ s.journal → evt.type = eventType evt.object ∧
    .read evt.object ∈ s.journal ∧ ∃ w, s.heap[k]? = some w ∧ w.accepts pkg evt.object

/-- Every watcher that is not stopped is in the map. -/
structure Mapped (s : WatcherStore) : Prop where
  keys : (s.watchers.map Prod.fst).Nodup
  live : ∀ k w, s.heap[k]? = some w → w.stopped = false → (w.namespace_,k) ∈ s.watchers
  registered : ∀ k, .registered k ∈ s.journal → k < s.heap.length

/-- What was read since a watcher was registered is delivered to it or on its way. -/
def Reached (pkg : LabelsPackage) (s : WatcherStore) : Prop :=
  ∀ k w, s.heap[k]? = some w → w.stopped = false → ∀ work ∈ readsSince k s.journal,
    w.accepts pkg work → (∃ evt, .delivered k evt ∈ s.journal ∧ evt.object = work) ∨
      work ∈ s.workQueue ++ s.inHand.map Prod.snd

structure Orderly (pkg : LabelsPackage) (s : WatcherStore) : Prop where
  fresh : Fresh s
  logged : Logged pkg s
  mapped : Mapped s
  reached : Reached pkg s

/-- When a thread makes a call. A watcher is put into the map under the lock, in the place of
none but a stopped one; a work is sent or put into the queue by a thread that has it in hand; and
a thread gives the read lock back after all watchers got what it has in hand. -/
def Permitted (pkg : LabelsPackage) (i : ℕ) (s : WatcherStore) : StoreCall → Prop
  | .send watcher evt => (i,evt.object) ∈ s.inHand ∧ evt.type = eventType evt.object ∧
      ∃ w, s.heap[watcher]? = some w ∧ w.accepts pkg evt.object
  | .add work => (i,work) ∈ s.inHand ∧ work.deleted = false
  | .rUnlock => ∀ work, (i,work) ∈ s.inHand → ∀ k w, s.heap[k]? = some w → w.stopped = false →
      (w.namespace_,k) ∈ s.watchers → w.accepts pkg work →
      ∃ evt, .delivered k evt ∈ s.journal ∧ evt.object = work
  | .putWatcher ns _ => s.writer = some i ∧ s.readers = [] ∧
      ∀ k, (ns,k) ∈ s.watchers → s.stopped k = true
  | .unlock => s.writer = some i
  | _ => True

section Basics

variable {pkg : LabelsPackage} {s s' : WatcherStore} {work x : Work} {k : ℕ}
  {journal : List WatchEntry}

theorem NotAfter.le (h : NotAfter work x) : work.rank ≤ x.rank := by
  rcases h with rfl | h
  · exact le_refl _
  · exact h.le

theorem NotAfter.trans_lt (h : NotAfter work x) {y : Work} (hy : x.rank < y.rank) :
    NotAfter work y := .inr (h.le.trans_lt hy)

theorem NotAfter.antisymm (h : NotAfter work x) (h' : NotAfter x work) : work = x := by
  rcases h with h | h
  · exact h
  · exact absurd h'.le (not_le.mpr h)

theorem accepts_congr {w w' : WorkWatcher} (hns : w'.namespace_ = w.namespace_)
    (hsel : w'.labelSelector = w.labelSelector) : w'.accepts pkg work = w.accepts pkg work := by
  rw [WorkWatcher.accepts,WorkWatcher.accepts,hns,hsel]

theorem mem_enqueue {queue : List Work} (h : x ∈ enqueue work queue) : x = work ∨ x ∈ queue := by
  induction queue with
  | nil => exact .inl (List.mem_singleton.mp h)
  | cons y queue ih =>
    rw [enqueue] at h
    split at h
    · rcases List.mem_cons.mp h with h | h
      · exact .inl h
      · exact .inr (List.mem_cons_of_mem _ h)
    · rcases List.mem_cons.mp h with h | h
      · exact .inr (h ▸ List.mem_cons_self)
      · exact (ih h).imp id (List.mem_cons_of_mem _)

theorem self_mem_enqueue (work : Work) (queue : List Work) : work ∈ enqueue work queue := by
  induction queue with
  | nil => exact List.mem_singleton_self work
  | cons y queue ih =>
    rw [enqueue]
    split
    · exact List.mem_cons_self
    · exact List.mem_cons_of_mem _ ih

/-- Only an older copy of the same work is replaced in the queue. -/
theorem mem_enqueue_of_mem {queue : List Work} (h : x ∈ queue) :
    x ∈ enqueue work queue ∨ x.uid = work.uid := by
  induction queue with
  | nil => cases h
  | cons y queue ih =>
    rw [enqueue]
    split
    · next huid =>
      rcases List.mem_cons.mp h with rfl | h
      · exact .inr huid
      · exact .inl (List.mem_cons_of_mem _ h)
    · rcases List.mem_cons.mp h with rfl | h
      · exact .inl List.mem_cons_self
      · exact (ih h).imp (List.mem_cons_of_mem _) id

theorem mem_list {selects : String → Work → Bool} {search : String} {uids : List String}
    (hs : Fresh s) (h : work ∈ s.list selects search uids) :
    s.server work.uid = some work ∧ work.deleted = false := by
  obtain ⟨hmem,hsel⟩ := List.mem_filter.mp h
  obtain ⟨uid,-,hserver⟩ := List.mem_filterMap.mp hmem
  refine ⟨?_,by simpa using (Bool.and_eq_true_iff.mp hsel).1⟩
  rw [hs.uid uid work hserver]
  exact hserver

theorem mem_readsSince_append {entries : List WatchEntry}
    (h : work ∈ readsSince k (journal ++ entries)) :
    work ∈ readsSince k journal ∨ .read work ∈ entries := by
  rw [readsSince,List.dropWhile_append] at h
  split at h
  · obtain ⟨e,he,hw⟩ := List.mem_filterMap.mp h
    have hmem := (List.dropWhile_sublist _).subset he
    cases e with
    | read x => exact .inr (Option.some.inj hw ▸ hmem)
    | _ => cases hw
  · rw [List.filterMap_append] at h
    rcases List.mem_append.mp h with h | h
    · exact .inl h
    · obtain ⟨e,he,hw⟩ := List.mem_filterMap.mp h
      cases e with
      | read x => exact .inr (Option.some.inj hw ▸ he)
      | _ => cases hw

theorem registered_of_readsSince (h : work ∈ readsSince k journal) :
    .registered k ∈ journal := by
  by_contra hnone
  have hall : ∀ e ∈ journal, (decide (e ≠ .registered k)) = true := by
    intro e he
    exact decide_eq_true fun heq => hnone (heq ▸ he)
  rw [readsSince,List.dropWhile_eq_nil_iff.mpr hall] at h
  cases h

end Basics

/-! ### Steps -/

section Steps

variable {selects : String → Work → Bool} {pkg : LabelsPackage} {i : ℕ} {c : StoreCall}
  {s s' : WatcherStore} {r : c.Resp}

theorem mem_outstanding {work : Work} : work ∈ s.outstanding ↔
    work ∈ s.published ∨ work ∈ s.workQueue ∨ ∃ j, (j,work) ∈ s.inHand := by
  simp [outstanding]

theorem mem_queueOrHand {work : Work} : work ∈ s.workQueue ++ s.inHand.map Prod.snd ↔
    work ∈ s.workQueue ∨ ∃ j, (j,work) ∈ s.inHand := by
  simp

/-- Where the copies of the second store come from: what is published was published before, what
is in the queue was in it or in hand, and what is in hand was on its way or is current. -/
theorem Fresh.of_places (h : Fresh s) (hserver : s'.server = s.server)
    (hpublished : s'.published ⊆ s.published)
    (hqueue : ∀ x ∈ s'.workQueue, x ∈ s.workQueue ∨ (∃ j, (j,x) ∈ s.inHand) ∧ x.deleted = false)
    (hhand : ∀ j x, (j,x) ∈ s'.inHand → (x ∈ s.workQueue ∨ ∃ j, (j,x) ∈ s.inHand) ∨
      s.server x.uid = some x ∧ .read x ∈ s'.journal)
    (hjournal : s.journal ⊆ s'.journal) : Fresh s' := by
  have hold : ∀ x, (x ∈ s.workQueue ∨ ∃ j, (j,x) ∈ s.inHand) →
      s.server x.uid = some x ∧ .read x ∈ s'.journal := fun x hx =>
    ⟨h.current x (mem_outstanding.mpr (.inr hx)),
      hjournal (h.read x (mem_queueOrHand.mpr hx))⟩
  have hnew : ∀ x, (x ∈ s'.workQueue ∨ ∃ j, (j,x) ∈ s'.inHand) →
      s.server x.uid = some x ∧ .read x ∈ s'.journal := by
    rintro x (hx | ⟨j,hj⟩)
    · exact hold x ((hqueue x hx).imp id And.left)
    · exact (hhand j x hj).elim (hold x) id
  refine ⟨hserver ▸ h.uid,fun x hx => ?_,
    fun x hx => (hqueue x hx).elim (h.queued x) And.right,
    fun x hx => (hnew x (mem_queueOrHand.mp hx)).2⟩
  rw [hserver]
  rcases mem_outstanding.mp hx with hx | hx
  · exact h.current x (mem_outstanding.mpr (.inl (hpublished hx)))
  · exact (hnew x hx).1

/-- The server changes a work of which no copy is on its way, but for the one it publishes. -/
theorem Fresh.change (h : Fresh s) {work : Work} {publish : Bool}
    (hcalm : Calm (.change work publish) s) : Fresh { s with
      server := Function.update s.server work.uid (some work)
      published := if publish then s.published ++ [work] else s.published } := by
  refine ⟨fun uid x hx => ?_,fun x hx => ?_,h.queued,h.read⟩
  · dsimp only at hx
    by_cases huid : uid = work.uid
    · rw [huid,Function.update_self] at hx
      rw [← Option.some.inj hx,huid]
    · rw [Function.update_of_ne huid] at hx
      exact h.uid uid x hx
  · dsimp only
    have hcases : x = work ∨ x ∈ s.outstanding := by
      rw [mem_outstanding] at hx ⊢
      rcases hx with hx | hx
      · dsimp only at hx
        split at hx
        · rcases List.mem_append.mp hx with hx | hx
          · exact .inr (.inl hx)
          · exact .inl (List.mem_singleton.mp hx)
        · exact .inr (.inl hx)
      · exact .inr (.inr hx)
    rcases hcases with rfl | hx
    · rw [Function.update_self]
    · rw [Function.update_of_ne (hcalm x hx)]
      exact h.current x hx

theorem Fresh.step (h : Fresh s) (hcalm : Calm c s) (hp : Permitted pkg i s c)
    (he : StoreEffect selects i s c r s') : Fresh s' := by
  have hkept : ∀ j x, (j,x) ∈ s.inHand → (x ∈ s.workQueue ∨ ∃ j, (j,x) ∈ s.inHand) :=
    fun j x hj => .inr ⟨j,hj⟩
  cases he with
  | rUnlock =>
    exact h.of_places rfl (List.Subset.refl _) (fun _ => .inl)
      (fun j x hj => .inl (hkept j x (List.mem_filter.mp hj).1)) (List.Subset.refl _)
  | putWatcher ns labelSelector =>
    exact h.of_places rfl (List.Subset.refl _) (fun _ => .inl)
      (fun j x hj => .inl (hkept j x hj)) (List.subset_append_left _ _)
  | send watcher evt hrun =>
    exact h.of_places rfl (List.Subset.refl _) (fun _ => .inl)
      (fun j x hj => .inl (hkept j x hj)) (List.subset_append_left _ _)
  | pageList search uids =>
    refine h.of_places rfl (List.Subset.refl _) (fun _ => .inl) (fun j x hj => ?_)
      (List.subset_append_left _ _)
    rcases List.mem_append.mp hj with hj | hj
    · exact .inl (hkept j x hj)
    · obtain ⟨y,hy,heq⟩ := List.mem_map.mp hj
      cases heq
      exact .inr ⟨(mem_list h hy).1,List.mem_append_right _ (List.mem_map_of_mem hy)⟩
  | add work =>
    refine h.of_places rfl (List.Subset.refl _) (fun x hx => ?_)
      (fun j x hj => .inl (hkept j x (List.mem_of_mem_erase hj))) (List.Subset.refl _)
    rcases mem_enqueue hx with rfl | hx
    · exact .inr ⟨⟨i,hp.1⟩,hp.2⟩
    · exact .inl hx
  | pop work rest hq =>
    refine h.of_places rfl (List.Subset.refl _)
      (fun x hx => .inl (hq ▸ List.mem_cons_of_mem _ hx)) (fun j x hj => .inl ?_)
      (List.Subset.refl _)
    rcases List.mem_append.mp hj with hj | hj
    · exact hkept j x hj
    · cases List.mem_singleton.mp hj
      exact .inl (hq ▸ List.mem_cons_self)
  | nextReceived work rest hq =>
    refine h.of_places rfl (fun x hx => hq ▸ List.mem_cons_of_mem _ hx) (fun _ => .inl)
      (fun j x hj => ?_) (List.subset_append_left _ _)
    rcases List.mem_append.mp hj with hj | hj
    · exact .inl (hkept j x hj)
    · cases List.mem_singleton.mp hj
      exact .inr ⟨h.current _ (mem_outstanding.mpr (.inl (hq ▸ List.mem_cons_self))),
        List.mem_append_right _ List.mem_cons_self⟩
  | change work publish hrank => exact h.change hcalm
  | _ => exact ⟨h.uid,h.current,h.queued,h.read⟩

/-- The watchers of the first store are in the second one, with the same filters. -/
def WatchersKept (s s' : WatcherStore) : Prop :=
  ∀ (k : ℕ) (w : WorkWatcher), s.heap[k]? = some w → ∃ w' : WorkWatcher, s'.heap[k]? = some w' ∧
    w'.namespace_ = w.namespace_ ∧ w'.labelSelector = w.labelSelector ∧ (w.stopped → w'.stopped)

theorem watchersKept (he : StoreEffect selects i s c r s') : WatchersKept s s' := by
  intro k w hw
  cases he with
  | putWatcher ns labelSelector =>
    refine ⟨w,?_,rfl,rfl,id⟩
    rw [List.getElem?_append_left (List.getElem?_eq_some_iff.mp hw).1]
    exact hw
  | stop watcher f hf =>
    rw [getElem?_updateWatcher]
    split
    · exact ⟨f w,by rw [hw]; rfl,hf w⟩
    · exact ⟨w,hw,rfl,rfl,id⟩
  | _ => exact ⟨w,hw,rfl,rfl,id⟩

/-- New entries about current works. -/
theorem Logged.append (h : Logged pkg s) {entries : List WatchEntry}
    (hnew : ∀ e ∈ entries, ∀ work, entryWork e = some work → s.server work.uid = some work)
    (hdelivered : ∀ k evt, .delivered k evt ∈ entries → evt.type = eventType evt.object ∧
      .read evt.object ∈ s.journal ∧ ∃ w, s.heap[k]? = some w ∧ w.accepts pkg evt.object)
    (hserver : s'.server = s.server) (hjournal : s'.journal = s.journal ++ entries)
    (hheap : WatchersKept s s') : Logged pkg s' := by
  refine ⟨?_,?_,?_⟩
  · rw [hjournal,hserver]
    intro e he work hw
    rcases List.mem_append.mp he with he | he
    · exact h.past e he work hw
    · exact ⟨work,hnew e he work hw,.inl rfl⟩
  · rw [hjournal]
    refine List.pairwise_append.mpr ⟨h.ordered,?_,fun a ha b hb x y hx hy huid => ?_⟩
    · refine List.pairwise_of_forall_mem_list fun a ha b hb x y hx hy huid => .inl ?_
      have hserver := hnew a ha x hx
      rw [huid,hnew b hb y hy] at hserver
      exact (Option.some.inj hserver).symm
    · obtain ⟨now,hnow,hle⟩ := h.past a ha x hx
      rw [huid,hnew b hb y hy] at hnow
      exact Option.some.inj hnow ▸ hle
  · intro k evt he
    rw [hjournal] at he ⊢
    have hold : evt.type = eventType evt.object ∧ .read evt.object ∈ s.journal ∧
        ∃ w, s.heap[k]? = some w ∧ w.accepts pkg evt.object := by
      rcases List.mem_append.mp he with he | he
      · exact h.delivered k evt he
      · exact hdelivered k evt he
    obtain ⟨htype,hread,w,hw,hacc⟩ := hold
    obtain ⟨w',hw',hns,hsel,-⟩ := hheap k w hw
    exact ⟨htype,List.mem_append_left _ hread,w',hw',(accepts_congr hns hsel).trans hacc⟩

theorem Logged.step (h : Logged pkg s) (hs : Fresh s) (hp : Permitted pkg i s c)
    (he : StoreEffect selects i s c r s') : Logged pkg s' := by
  have hheap := watchersKept he
  have hhand : ∀ j work, (j,work) ∈ s.inHand → s.server work.uid = some work := fun j work hj =>
    hs.current work (mem_outstanding.mpr (.inr (.inr ⟨j,hj⟩)))
  cases he with
  | send watcher evt hrun =>
    refine h.append (fun e hmem work hw => ?_) (fun k evt' hmem => ?_) rfl rfl hheap
    · cases List.mem_singleton.mp hmem
      cases hw
      exact hhand i _ hp.1
    · cases List.mem_singleton.mp hmem
      exact ⟨hp.2.1,hs.read _ (mem_queueOrHand.mpr (.inr ⟨i,hp.1⟩)),hp.2.2⟩
  | pageList search uids =>
    refine h.append (fun e hmem work hw => ?_) (fun k evt' hmem => ?_) rfl rfl hheap
    · obtain ⟨x,hx,rfl⟩ := List.mem_map.mp hmem
      cases hw
      exact (mem_list hs hx).1
    · obtain ⟨x,-,hx⟩ := List.mem_map.mp hmem
      cases hx
  | nextReceived work rest hq =>
    refine h.append (fun e hmem x hx => ?_) (fun k evt' hmem => ?_) rfl rfl hheap
    · cases List.mem_singleton.mp hmem
      cases hx
      exact hs.current work (mem_outstanding.mpr (.inl (hq ▸ List.mem_cons_self)))
    · cases List.mem_singleton.mp hmem
  | putWatcher ns labelSelector =>
    refine h.append (fun e hmem x hx => ?_) (fun k evt' hmem => ?_) rfl rfl hheap
    · cases List.mem_singleton.mp hmem
      cases hx
    · cases List.mem_singleton.mp hmem
  | change work publish hrank =>
    refine ⟨fun e he x hx => ?_,h.ordered,h.delivered⟩
    obtain ⟨now,hnow,hle⟩ := h.past e he x hx
    dsimp only
    by_cases huid : x.uid = work.uid
    · refine ⟨work,by rw [huid,Function.update_self],hle.trans_lt (hrank now ?_)⟩
      rw [← huid]
      exact hnow
    · exact ⟨now,by rw [Function.update_of_ne huid]; exact hnow,hle⟩
  | stop watcher f hf =>
    exact h.append (fun _ hmem => by cases hmem) (fun _ _ hmem => by cases hmem) rfl
      (List.append_nil _).symm hheap
  | _ => exact ⟨h.past,h.ordered,h.delivered⟩

/-- A watcher that runs after a stop ran before it, with the same filters. -/
theorem running_before {watcher : ℕ} {f : WorkWatcher → WorkWatcher}
    (hf : ∀ w, (f w).namespace_ = w.namespace_ ∧ (f w).labelSelector = w.labelSelector ∧
      (w.stopped → (f w).stopped)) {k : ℕ} {w : WorkWatcher}
    (hw : (s.updateWatcher watcher f).heap[k]? = some w) (hrun : w.stopped = false) :
    ∃ w₀, s.heap[k]? = some w₀ ∧ w₀.stopped = false ∧ w.namespace_ = w₀.namespace_ ∧
      w.labelSelector = w₀.labelSelector := by
  rw [getElem?_updateWatcher] at hw
  split at hw
  · obtain ⟨w₀,hw₀,rfl⟩ := Option.map_eq_some_iff.mp hw
    obtain ⟨hns,hsel,hstop⟩ := hf w₀
    refine ⟨w₀,hw₀,?_,hns,hsel⟩
    by_contra hne
    rw [hstop (by simpa using hne)] at hrun
    cases hrun
  · exact ⟨w,hw,hrun,rfl,rfl⟩

theorem Mapped.append (h : Mapped s) {entries : List WatchEntry}
    (hnone : ∀ k, .registered k ∉ entries) (hheap : s'.heap = s.heap)
    (hwatchers : s'.watchers = s.watchers) (hjournal : s'.journal = s.journal ++ entries) :
    Mapped s' := by
  refine ⟨hwatchers ▸ h.keys,fun k w hw hrun => ?_,fun k hk => ?_⟩
  · rw [hheap] at hw
    rw [hwatchers]
    exact h.live k w hw hrun
  · rw [hjournal] at hk
    rw [hheap]
    exact h.registered k ((List.mem_append.mp hk).resolve_right (hnone k))

/-- A watcher takes the place of none, or of a stopped one. -/
theorem Mapped.putWatcher (h : Mapped s) {ns : String} (labelSelector : LabelSelector)
    (hplace : ∀ k, (ns,k) ∈ s.watchers → s.stopped k = true) : Mapped { s with
      heap := s.heap ++ [⟨ns,labelSelector,false,false⟩]
      watchers := s.watchers.filter (fun p => p.1 ≠ ns) ++ [(ns,s.heap.length)]
      journal := s.journal ++ [.registered s.heap.length] } := by
  refine ⟨?_,fun k w hw hrun => ?_,fun k hk => ?_⟩
  · dsimp only
    rw [List.map_append,List.map_singleton]
    refine List.Nodup.append (h.keys.sublist (List.filter_sublist.map _)) (List.nodup_singleton _)
      (List.disjoint_singleton.mpr fun hmem => ?_)
    obtain ⟨p,hp,hns⟩ := List.mem_map.mp hmem
    exact (of_decide_eq_true (List.mem_filter.mp hp).2) hns
  · dsimp only at hw ⊢
    by_cases hlt : k < s.heap.length
    · rw [List.getElem?_append_left hlt] at hw
      -- the watcher was in the map, and it is not the stopped one that is replaced
      have hmem := h.live k w hw hrun
      refine List.mem_append_left _ (List.mem_filter.mpr ⟨hmem,decide_eq_true fun hns => ?_⟩)
      have hstopped := hplace k (hns ▸ hmem)
      rw [stopped,hw] at hstopped
      exact absurd hrun (by simpa using hstopped)
    · have hk : k = s.heap.length := by
        have hlen := (List.getElem?_eq_some_iff.mp hw).1
        rw [List.length_append,List.length_singleton] at hlen
        omega
      subst hk
      rw [List.getElem?_concat_length] at hw
      cases hw
      exact List.mem_append_right _ List.mem_cons_self
  · dsimp only at hk ⊢
    rw [List.length_append,List.length_singleton]
    rcases List.mem_append.mp hk with hk | hk
    · exact (h.registered k hk).trans (Nat.lt_succ_self _)
    · cases List.mem_singleton.mp hk
      exact Nat.lt_succ_self _

theorem Mapped.step (h : Mapped s) (hp : Permitted pkg i s c)
    (he : StoreEffect selects i s c r s') : Mapped s' := by
  cases he with
  | putWatcher ns labelSelector => exact h.putWatcher labelSelector hp.2.2
  | stop watcher f hf =>
    refine ⟨h.keys,fun k w hw hrun => ?_,fun k hk => ?_⟩
    · obtain ⟨w₀,hw₀,hrun₀,hns,-⟩ := running_before hf hw hrun
      rw [hns]
      exact h.live k w₀ hw₀ hrun₀
    · rw [updateWatcher,List.length_modify]
      exact h.registered k hk
  | send watcher evt hrun => exact h.append (by simp) rfl rfl rfl
  | pageList search uids => exact h.append (by simp) rfl rfl rfl
  | nextReceived work rest hq => exact h.append (by simp) rfl rfl rfl
  | _ => exact ⟨h.keys,h.live,h.registered⟩

/-- Nothing that was read is lost: it is where it was, or the watchers got it. -/
theorem Reached.of_kept (h : Reached pkg s)
    (hheap : ∀ k w', s'.heap[k]? = some w' → w'.stopped = false →
      readsSince k s'.journal = [] ∨ ∃ w, s.heap[k]? = some w ∧ w.stopped = false ∧
        w'.namespace_ = w.namespace_ ∧ w'.labelSelector = w.labelSelector)
    (hread : ∀ k work, work ∈ readsSince k s'.journal → work ∈ readsSince k s.journal ∨
      work ∈ s'.workQueue ++ s'.inHand.map Prod.snd)
    (hjournal : s.journal ⊆ s'.journal)
    (hkept : ∀ work ∈ s.workQueue ++ s.inHand.map Prod.snd,
      work ∈ s'.workQueue ++ s'.inHand.map Prod.snd ∨
      ∀ k w, s.heap[k]? = some w → w.stopped = false → w.accepts pkg work →
        ∃ evt, .delivered k evt ∈ s'.journal ∧ evt.object = work) : Reached pkg s' := by
  intro k w' hw' hrun' work hwork hacc
  rcases hheap k w' hw' hrun' with hnil | ⟨w,hw,hrun,hns,hsel⟩
  · rw [hnil] at hwork
    cases hwork
  · rw [accepts_congr hns hsel] at hacc
    rcases hread k work hwork with hold | hnew
    · rcases h k w hw hrun work hold hacc with ⟨evt,hevt,hobj⟩ | hway
      · exact .inl ⟨evt,hjournal hevt,hobj⟩
      · rcases hkept work hway with hway | hgot
        · exact .inr hway
        · exact .inl (hgot k w hw hrun hacc)
    · exact .inr hnew

theorem Reached.of_sameHeap (h : Reached pkg s) (hheap : s'.heap = s.heap)
    (hread : ∀ k work, work ∈ readsSince k s'.journal → work ∈ readsSince k s.journal ∨
      work ∈ s'.workQueue ++ s'.inHand.map Prod.snd)
    (hjournal : s.journal ⊆ s'.journal)
    (hkept : ∀ work ∈ s.workQueue ++ s.inHand.map Prod.snd,
      work ∈ s'.workQueue ++ s'.inHand.map Prod.snd ∨
      ∀ k w, s.heap[k]? = some w → w.stopped = false → w.accepts pkg work →
        ∃ evt, .delivered k evt ∈ s'.journal ∧ evt.object = work) : Reached pkg s' :=
  h.of_kept (fun _ w hw hrun => .inr ⟨w,hheap ▸ hw,hrun,rfl,rfl⟩) hread hjournal hkept

theorem Orderly.reached_step (h : Orderly pkg s) (hp : Permitted pkg i s c)
    (he : StoreEffect selects i s c r s') : Reached pkg s' := by
  cases he with
  | rUnlock =>
    refine h.reached.of_sameHeap rfl (fun _ _ => .inl) (List.Subset.refl _) (fun work hw => ?_)
    rcases mem_queueOrHand.mp hw with hw | ⟨j,hj⟩
    · exact .inl (mem_queueOrHand.mpr (.inl hw))
    · by_cases hji : j = i
      · subst hji
        exact .inr fun k w hk hrun hacc =>
          hp work hj k w hk hrun (h.mapped.live k w hk hrun) hacc
      · exact .inl (mem_queueOrHand.mpr (.inr ⟨j,List.mem_filter.mpr ⟨hj,by simpa using hji⟩⟩))
  | putWatcher ns labelSelector =>
    have hreads : ∀ k work, work ∈ readsSince k (s.journal ++ [.registered s.heap.length]) →
        work ∈ readsSince k s.journal := fun k work hw =>
      (mem_readsSince_append hw).elim id fun hmem => by cases List.mem_singleton.mp hmem
    refine h.reached.of_kept (fun k w hw hrun => ?_) (fun k work hw => .inl (hreads k work hw))
      (List.subset_append_left _ _) (fun _ => .inl)
    dsimp only at hw ⊢
    by_cases hlt : k < s.heap.length
    · rw [List.getElem?_append_left hlt] at hw
      exact .inr ⟨w,hw,hrun,rfl,rfl⟩
    · refine .inl (List.eq_nil_iff_forall_not_mem.mpr fun work hwork => ?_)
      exact hlt (h.mapped.registered k (registered_of_readsSince (hreads k work hwork)))
  | stop watcher f hf =>
    refine h.reached.of_kept (fun k w hw hrun => .inr ?_) (fun _ _ => .inl)
      (List.Subset.refl _) (fun _ => .inl)
    exact running_before hf hw hrun
  | send watcher evt hrun =>
    refine h.reached.of_sameHeap rfl (fun k work hw => .inl ?_) (List.subset_append_left _ _)
      (fun _ => .inl)
    exact (mem_readsSince_append hw).elim id fun hmem => by cases List.mem_singleton.mp hmem
  | pageList search uids =>
    refine h.reached.of_sameHeap rfl (fun k work hw => ?_) (List.subset_append_left _ _)
      (fun work hw => .inl ?_)
    · refine (mem_readsSince_append hw).imp id fun hmem => ?_
      obtain ⟨x,hx,heq⟩ := List.mem_map.mp hmem
      cases heq
      exact mem_queueOrHand.mpr (.inr ⟨i,List.mem_append_right _ (List.mem_map_of_mem hx)⟩)
    · exact mem_queueOrHand.mpr ((mem_queueOrHand.mp hw).imp id fun ⟨j,hj⟩ =>
        ⟨j,List.mem_append_left _ hj⟩)
  | add work =>
    refine h.reached.of_sameHeap rfl (fun _ _ => .inl) (List.Subset.refl _) (fun x hx => .inl ?_)
    have hself : work ∈ enqueue work s.workQueue := self_mem_enqueue work _
    rcases mem_queueOrHand.mp hx with hx | ⟨j,hj⟩
    · -- a copy that is replaced in the queue is the current one, as the new one is
      rcases @mem_enqueue_of_mem work x _ hx with hmem | huid
      · exact mem_queueOrHand.mpr (.inl hmem)
      · have hold := h.fresh.current x (mem_outstanding.mpr (.inr (.inl hx)))
        rw [huid,h.fresh.current work (mem_outstanding.mpr (.inr (.inr ⟨i,hp.1⟩)))] at hold
        exact mem_queueOrHand.mpr (.inl (Option.some.inj hold ▸ hself))
    · by_cases hsame : (j,x) = (i,work)
      · cases hsame
        exact mem_queueOrHand.mpr (.inl hself)
      · exact mem_queueOrHand.mpr (.inr ⟨j,(List.mem_erase_of_ne hsame).mpr hj⟩)
  | pop work rest hq =>
    refine h.reached.of_sameHeap rfl (fun _ _ => .inl) (List.Subset.refl _) (fun x hx => .inl ?_)
    rcases mem_queueOrHand.mp hx with hx | ⟨j,hj⟩
    · rw [hq] at hx
      rcases List.mem_cons.mp hx with rfl | hx
      · exact mem_queueOrHand.mpr (.inr ⟨i,List.mem_append_right _ List.mem_cons_self⟩)
      · exact mem_queueOrHand.mpr (.inl hx)
    · exact mem_queueOrHand.mpr (.inr ⟨j,List.mem_append_left _ hj⟩)
  | nextReceived work rest hq =>
    refine h.reached.of_sameHeap rfl (fun k x hx => ?_) (List.subset_append_left _ _)
      (fun x hx => .inl ?_)
    · refine (mem_readsSince_append hx).imp id fun hmem => ?_
      cases List.mem_singleton.mp hmem
      exact mem_queueOrHand.mpr (.inr ⟨i,List.mem_append_right _ List.mem_cons_self⟩)
    · exact mem_queueOrHand.mpr ((mem_queueOrHand.mp hx).imp id fun ⟨j,hj⟩ =>
        ⟨j,List.mem_append_left _ hj⟩)
  | _ => exact h.reached

theorem Orderly.step (h : Orderly pkg s) (hcalm : Calm c s) (hp : Permitted pkg i s c)
    (he : StoreEffect selects i s c r s') : Orderly pkg s' :=
  ⟨h.fresh.step hcalm hp he,h.logged.step h.fresh hp he,h.mapped.step hp he,h.reached_step hp he⟩

end Steps

/-! ### What the watchers received -/

/-- The events of one work that a watcher received. -/
def eventsOf (watcher : ℕ) (uid : String) (s : WatcherStore) : List WatchEvent :=
  (received watcher s.journal).filter fun evt => evt.object.uid = uid

/-- The newest state of a work that was listed or received since the watcher was registered, of
those that pass its filters. -/
structure IsNewest (pkg : LabelsPackage) (watcher : ℕ) (w : WorkWatcher) (s : WatcherStore)
    (work : Work) : Prop where
  read : work ∈ readsSince watcher s.journal
  accepted : w.accepts pkg work
  newest : ∀ x ∈ readsSince watcher s.journal, x.uid = work.uid → w.accepts pkg x →
    x.rank ≤ work.rank

/-- The events of a work never go back, none of an incarnation follows its deletion, and when
nothing is on its way a running watcher has seen the newest state. -/
structure NeverBack (pkg : LabelsPackage) (s : WatcherStore) : Prop where
  forward : ∀ watcher uid, (eventsOf watcher uid s).Pairwise fun a b =>
    a.object.rank ≤ b.object.rank
  final : ∀ watcher uid, (eventsOf watcher uid s).Pairwise fun a b => a.type = .deleted →
    b.object.incarnation = a.object.incarnation → b.type ≠ .modified
  newest : ∀ watcher w, s.heap[watcher]? = some w → w.stopped = false → s.workQueue = [] →
    s.inHand = [] → ∀ work, IsNewest pkg watcher w s work →
    ((eventsOf watcher work.uid s).getLast?).map WatchEvent.object = some work

section Events

variable {pkg : LabelsPackage} {s : WatcherStore} {watcher : ℕ} {uid : String}

theorem mem_received {evt : WatchEvent} :
    evt ∈ received watcher s.journal ↔ .delivered watcher evt ∈ s.journal := by
  rw [received,List.mem_filterMap]
  constructor
  · rintro ⟨e,he,hevt⟩
    cases e with
    | delivered k evt' =>
      dsimp only at hevt
      split at hevt
      · next hk =>
        cases hevt
        exact hk ▸ he
      · cases hevt
    | _ => cases hevt
  · intro h
    exact ⟨_,h,by simp⟩

theorem mem_eventsOf {evt : WatchEvent} :
    evt ∈ eventsOf watcher uid s ↔ .delivered watcher evt ∈ s.journal ∧ evt.object.uid = uid := by
  rw [eventsOf,List.mem_filter,mem_received,decide_eq_true_iff]

theorem Logged.events_ordered (h : Logged pkg s) (watcher : ℕ) (uid : String) :
    (eventsOf watcher uid s).Pairwise fun a b => NotAfter a.object b.object := by
  have hreceived : (received watcher s.journal).Pairwise fun a b =>
      a.object.uid = b.object.uid → NotAfter a.object b.object := by
    refine List.pairwise_filterMap.mpr (h.ordered.imp fun {a b} hab x hx y hy huid => ?_)
    cases a with
    | delivered k evt =>
      cases b with
      | delivered k' evt' =>
        dsimp only at hx hy
        split at hx <;> cases hx
        split at hy <;> cases hy
        exact hab _ _ rfl rfl huid
      | _ => cases hy
    | _ => cases hx
  refine List.Pairwise.imp_of_mem (fun {a b} ha hb hab => hab ?_) (hreceived.filter _)
  exact (of_decide_eq_true (List.mem_filter.mp ha).2).trans
    (of_decide_eq_true (List.mem_filter.mp hb).2).symm

/-- Within an incarnation nothing comes after the deletion. -/
theorem deleted_of_rank_le {a b : Work} (h : a.rank ≤ b.rank)
    (hinc : b.incarnation = a.incarnation) (ha : a.deleted = true) : b.deleted = true := by
  rw [Work.rank,Work.rank,Prod.Lex.toLex_le_toLex] at h
  rcases h with h | ⟨-,h⟩
  · exact absurd hinc (ne_of_gt h)
  · rw [Prod.Lex.toLex_le_toLex] at h
    dsimp only at h
    rw [ha] at h
    rcases h with h | ⟨h,-⟩
    · exact absurd h (by simp)
    · exact h.symm

/-- What was read before the watcher was registered is not after what was read since. -/
theorem Logged.read_cases (h : Logged pkg s) {work : Work} (hread : .read work ∈ s.journal)
    (watcher : ℕ) : work ∈ readsSince watcher s.journal ∨
      ∀ x ∈ readsSince watcher s.journal, work.uid = x.uid → NotAfter work x := by
  have hsplit := List.takeWhile_append_dropWhile (p := fun e => e ≠ WatchEntry.registered watcher)
    (l := s.journal)
  have hordered := h.ordered
  rw [← hsplit] at hread hordered
  rcases List.mem_append.mp hread with hpre | hpost
  · refine .inr fun x hx huid => ?_
    obtain ⟨e,he,hwork⟩ := List.mem_filterMap.mp hx
    refine (List.pairwise_append.mp hordered).2.2 _ hpre e he work x rfl ?_ huid
    cases e with
    | read y => exact hwork
    | _ => cases hwork
  · exact .inl (List.mem_filterMap.mpr ⟨_,hpost,rfl⟩)

theorem Orderly.neverBack (h : Orderly pkg s) : NeverBack pkg s := by
  refine ⟨fun watcher uid => (h.logged.events_ordered watcher uid).imp NotAfter.le,
    fun watcher uid => ?_,fun watcher w hw hrun hqueue hhand work hnew => ?_⟩
  · refine List.Pairwise.imp_of_mem (fun {a b} ha hb hab hdel hinc hmod => ?_)
      (h.logged.events_ordered watcher uid)
    obtain ⟨hta,-⟩ := h.logged.delivered _ _ (mem_eventsOf.mp ha).1
    obtain ⟨htb,-⟩ := h.logged.delivered _ _ (mem_eventsOf.mp hb).1
    rw [hdel,eventType] at hta
    rw [hmod,eventType] at htb
    split at hta
    · next hdeleted =>
      rw [if_pos (deleted_of_rank_le hab.le hinc hdeleted)] at htb
      cases htb
    · cases hta
  · -- the work was delivered, so there is a last event, and it is not before the work
    obtain ⟨evt,hevt,hobj⟩ : ∃ evt, .delivered watcher evt ∈ s.journal ∧ evt.object = work := by
      rcases h.reached watcher w hw hrun work hnew.read hnew.accepted with hgot | hway
      · exact hgot
      · rw [hqueue,hhand] at hway
        cases hway
    have hmem : evt ∈ eventsOf watcher work.uid s := mem_eventsOf.mpr ⟨hevt,by rw [hobj]⟩
    obtain ⟨last,hlast⟩ : ∃ last, (eventsOf watcher work.uid s).getLast? = some last :=
      Option.isSome_iff_exists.mp (by simpa using List.ne_nil_of_mem hmem)
    obtain ⟨init,hinit⟩ := List.getLast?_eq_some_iff.mp hlast
    have hafter : NotAfter work last.object := by
      have hordered := h.logged.events_ordered watcher work.uid
      rw [hinit] at hmem hordered
      rcases List.mem_append.mp hmem with hmem | hmem
      · exact hobj ▸ (List.pairwise_append.mp hordered).2.2 evt hmem last List.mem_cons_self
      · exact .inl (by rw [← hobj,List.mem_singleton.mp hmem])
    -- the last event was read, before the registration or since
    obtain ⟨hdel,huid⟩ := mem_eventsOf.mp (List.mem_of_getLast? hlast)
    obtain ⟨-,hread,w',hw',hacc⟩ := h.logged.delivered _ _ hdel
    rw [hw] at hw'
    cases hw'
    have hbefore : NotAfter last.object work := by
      rcases h.logged.read_cases hread watcher with hsince | hpre
      · rcases hafter with heq | hlt
        · exact .inl heq.symm
        · exact absurd (hnew.newest _ hsince huid hacc) (not_le.mpr hlt)
      · exact hpre work hnew.read huid
    rw [hlast,Option.map_some,hbefore.antisymm hafter]

end Events

end WatcherStore

end Maestro
