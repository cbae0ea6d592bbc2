import Maestro.Client.WatchOrder

/-!
# Outlines of the store methods

Each method makes its calls under the conditions of `Permitted`. A thread knows which works it
has in hand, and while it has a lock nobody else changes the map of the watchers.
-/

namespace Maestro
open Data Concurrent

namespace WatcherStore

/-- The next call of a thread is permitted, unless the program has panicked. -/
def Allowed (pkg : LabelsPackage) (i : ℕ) (c : StoreCall) (s : WatcherStore) : Prop :=
  s.panicked = true ∨ Permitted pkg i s c

/-- The store is orderly and meets an assertion, unless the program has panicked. -/
def At (pkg : LabelsPackage) (L : WatcherStore → Prop) (s : WatcherStore) : Prop :=
  s.panicked = true ∨ Orderly pkg s ∧ L s

/-- An assertion of thread `i` that permitted calls of the others keep. -/
def Local (selects : String → Work → Bool) (pkg : LabelsPackage) (i : ℕ)
    (L : WatcherStore → Prop) : Prop :=
  ∀ j, j ≠ i → ∀ s c r s', Permitted pkg j s c → StoreEffect selects j s c r s' → L s → L s'

/-- A proof outline of a program of thread `i`, from one assertion to another. -/
def Outline (selects : String → Work → Bool) (pkg : LabelsPackage) (i : ℕ) {α : Type}
    (p : StoreM α) (L : WatcherStore → Prop) (L' : α → WatcherStore → Prop) : Prop :=
  Safe (restrict (exec selects) Calm) (Allowed pkg) i (fun a => At pkg (L' a)) p (At pkg L)

section Rules

variable {selects : String → Work → Bool} {pkg : LabelsPackage} {i : ℕ} {α β : Type}
  {L : WatcherStore → Prop}

theorem exec_running {j : ℕ} {o : StoreChoice} {c : StoreCall} {s s' : WatcherStore} {r : c.Resp}
    (h : exec selects j o c s = some (r,s')) : s.panicked = false := by
  rw [exec.eq_def] at h
  split at h
  · cases h
  · next hp => simpa using hp

/-- An allowed call that is executed is permitted, and an orderly store stays so. -/
theorem executed {j : ℕ} {o : StoreChoice} {c : StoreCall} {s s' : WatcherStore} {r : c.Resp}
    (ha : Allowed pkg j c s) (hx : restrict (exec selects) Calm j o c s = some (r,s')) :
    s.panicked = false ∧ Permitted pkg j s c ∧ StoreEffect selects j s c r s' ∧
      (Orderly pkg s → Orderly pkg s') := by
  obtain ⟨hcalm,hx⟩ := (restrict_eq_some _).mp hx
  have hrun := exec_running hx
  have hp : Permitted pkg j s c := ha.resolve_left (by rw [hrun]; exact Bool.false_ne_true)
  exact ⟨hrun,hp,exec_effect hx,fun ho => ho.step hcalm hp (exec_effect hx)⟩

theorem Local.stable (hL : Local selects pkg i L) :
    Stable (restrict (exec selects) Calm) (Allowed pkg) i (At pkg L) := by
  intro j hj o c s r s' ha hx hs
  obtain ⟨hrun,hp,he,hstep⟩ := executed ha hx
  obtain ⟨ho,hl⟩ := hs.resolve_left (by rw [hrun]; exact Bool.false_ne_true)
  exact .inr ⟨hstep ho,hL j hj s c r s' hp he hl⟩

theorem Local.and {L₁ L₂ : WatcherStore → Prop} (h₁ : Local selects pkg i L₁)
    (h₂ : Local selects pkg i L₂) : Local selects pkg i fun s => L₁ s ∧ L₂ s :=
  fun j hj s c r s' hp he h => ⟨h₁ j hj s c r s' hp he h.1,h₂ j hj s c r s' hp he h.2⟩

theorem Local.const (p : Prop) : Local selects pkg i fun _ => p :=
  fun _ _ _ _ _ _ _ _ h => h

/-- After a panic nothing happens. -/
theorem outline_panicked (p : StoreM α) (L' : α → WatcherStore → Prop) :
    Outline selects pkg i p (fun _ => False) L' := by
  cases p with
  | ret a => exact fun s hs => .inl (hs.resolve_right And.right)
  | call c k =>
    intro s hs
    have hp := hs.resolve_right And.right
    refine ⟨.inl hp,fun o r s' hx => ?_⟩
    have hrun := (executed (.inl hp : Allowed pkg i c s) hx).1
    rw [hp] at hrun
    cases hrun

theorem Outline.ret {a : α} {L' : α → WatcherStore → Prop} (h : ∀ s, L s → L' a s) :
    Outline selects pkg i (.ret a) L L' :=
  fun s hs => hs.imp id fun ⟨ho,hl⟩ => ⟨ho,h s hl⟩

/-- The rule of a call: it is permitted, and what it does leads to the assertion that the rest
of the program starts from. -/
theorem Outline.call {c : StoreCall} {k : c.Resp → StoreM α} {L' : α → WatcherStore → Prop}
    (h : ∀ s, Orderly pkg s → L s → Permitted pkg i s c ∧
      ∀ r s', StoreEffect selects i s c r s' → s'.panicked = true ∨
        ∃ M, Local selects pkg i M ∧ M s' ∧ Outline selects pkg i (k r) M L') :
    Outline selects pkg i (.call c k) L L' := by
  rintro s (hp | ⟨ho,hl⟩)
  · refine ⟨.inl hp,fun o r s' hx => ?_⟩
    have hrun := (executed (.inl hp : Allowed pkg i c s) hx).1
    rw [hp] at hrun
    cases hrun
  · obtain ⟨hperm,heff⟩ := h s ho hl
    refine ⟨.inr hperm,fun o r s' hx => ?_⟩
    obtain ⟨-,-,he,hstep⟩ := executed (.inr hperm) hx
    rcases heff r s' he with hpanic | ⟨M,hM,hm,hk⟩
    · exact ⟨At pkg fun _ => False,(Local.const False).stable,.inl hpanic,outline_panicked _ _⟩
    · exact ⟨At pkg M,hM.stable,.inr ⟨hstep ho,hm⟩,hk⟩

theorem Outline.bind {p : StoreM α} {f : α → StoreM β} {M : α → WatcherStore → Prop}
    {L' : β → WatcherStore → Prop} (hp : Outline selects pkg i p L M)
    (hf : ∀ a, Outline selects pkg i (f a) (M a) L') : Outline selects pkg i (p >>= f) L L' :=
  Safe.bind hp hf

end Rules

/-! ### What a thread knows -/

section Knowledge

variable {selects : String → Work → Bool} {pkg : LabelsPackage} {i j : ℕ} {c : StoreCall}
  {s s' : WatcherStore} {r : c.Resp}

theorem mem_holding {work : Work} : work ∈ holding i s ↔ (i,work) ∈ s.inHand := by
  simp only [holding,List.mem_map,List.mem_filter,decide_eq_true_eq]
  constructor
  · rintro ⟨⟨k,x⟩,⟨hmem,rfl⟩,rfl⟩
    exact hmem
  · intro h
    exact ⟨_,⟨h,rfl⟩,rfl⟩

/-- The others leave a thread what it has in hand. -/
theorem holding_other (hj : j ≠ i) (he : StoreEffect selects j s c r s') :
    holding i s' = holding i s := by
  cases he with
  | rUnlock =>
    simp only [holding,List.filter_filter]
    congr 1
    refine List.filter_congr fun p _ => ?_
    by_cases hp : p.1 = i <;> simp [hp,Ne.symm hj]
  | pageList search uids => simp [holding,List.filter_append,List.filter_map,Function.comp_def,hj]
  | add work =>
    simp only [holding,← List.erase_filter]
    rw [List.erase_of_not_mem]
    simp [hj]
  | pop work rest hq => simp [holding,List.filter_append,hj]
  | nextReceived work rest hq => simp [holding,List.filter_append,hj]
  | _ => rfl

theorem local_holding (works : List Work) :
    Local selects pkg i fun s => holding i s = works :=
  fun _ hj _ _ _ _ _ he h => (holding_other hj he).trans h

theorem holding_add {work : Work} {rest : List Work} (h : holding i s = work :: rest) :
    holding i { s with
      workQueue := enqueue work s.workQueue, inHand := s.inHand.erase (i,work) } = rest := by
  unfold holding at h ⊢
  dsimp only
  rw [← List.erase_filter]
  cases hf : s.inHand.filter fun p => p.1 = i with
  | nil => rw [hf] at h; cases h
  | cons p l =>
    have hmem : p ∈ s.inHand.filter fun p => p.1 = i := hf ▸ List.mem_cons_self
    have hp : p.1 = i := of_decide_eq_true (List.mem_filter.mp hmem).2
    rw [hf,List.map_cons] at h
    obtain ⟨hwork,hrest⟩ := List.cons.inj h
    have hpair : p = (i,work) := Prod.ext hp hwork
    rw [hpair,List.erase_cons_head]
    exact hrest

theorem holding_rUnlock (i : ℕ) (s : WatcherStore) : holding i { s with
    readers := s.readers.erase i, inHand := s.inHand.filter fun p => p.1 ≠ i } = [] := by
  simp [holding,List.filter_filter]

theorem holding_append (works : List Work) (i : ℕ) (s : WatcherStore) :
    ((s.inHand ++ works.map (i,·)).filter fun p => p.1 = i).map Prod.snd =
      holding i s ++ works := by
  simp [holding,List.filter_append,List.filter_map,Function.comp_def]

/-- After a list a thread has the listed works in hand, and none of them is deleted. -/
theorem holding_pageList (hs : Fresh s) (h : holding i s = []) {search : String}
    {listed : Except String (List Work)}
    (he : StoreEffect selects i s (.pageList search) listed s') :
    (∃ err, listed = .error err ∧ holding i s' = []) ∨
      ∃ works, listed = .ok works ∧ holding i s' = works ∧
        ∀ work ∈ works, work.deleted = false := by
  cases he with
  | listError _ err => exact .inl ⟨err,rfl,h⟩
  | pageList _ uids =>
    refine .inr ⟨_,rfl,?_,fun work hw => (mem_list hs hw).2⟩
    exact (holding_append _ i s).trans (by rw [h,List.nil_append])

/-- A reader has the read lock until it gives it back. -/
theorem reader_other (hj : j ≠ i) (he : StoreEffect selects j s c r s') (h : i ∈ s.readers) :
    i ∈ s'.readers := by
  cases he with
  | rLock hw => exact List.mem_cons_of_mem _ h
  | rUnlock => exact (List.mem_erase_of_ne (Ne.symm hj)).mpr h
  | _ => exact h

/-- The thread has the lock. -/
def Writing (i : ℕ) (s : WatcherStore) : Prop := s.writer = some i ∧ s.readers = []

theorem writing_other (hj : j ≠ i) (hp : Permitted pkg j s c)
    (he : StoreEffect selects j s c r s') (h : Writing i s) : Writing i s' := by
  cases he with
  | rLock hw => rw [h.1] at hw; cases hw
  | lock hw => rw [h.1] at hw; cases hw
  | unlock =>
    have hwriter : s.writer = some j := hp
    rw [h.1] at hwriter
    exact absurd (Option.some.inj hwriter).symm hj
  | rUnlock =>
    refine ⟨h.1,?_⟩
    dsimp only
    rw [h.2]
    rfl
  | _ => exact h

theorem local_writing : Local selects pkg i (Writing i) :=
  fun _ hj _ _ _ _ hp he h => writing_other hj hp he h

/-- Whoever has a lock keeps the others from changing the map. -/
theorem watchers_other (hj : j ≠ i) (hp : Permitted pkg j s c)
    (he : StoreEffect selects j s c r s') (hlock : Writing i s ∨ i ∈ s.readers) :
    s'.watchers = s.watchers ∧ ∀ (k : ℕ) (w' : WorkWatcher), s'.heap[k]? = some w' →
      w'.stopped = false → ∃ w : WorkWatcher, s.heap[k]? = some w ∧ w.stopped = false ∧
        w'.namespace_ = w.namespace_ ∧ w'.labelSelector = w.labelSelector := by
  cases he with
  | putWatcher ns labelSelector =>
    rcases hlock with hlock | hlock
    · exact absurd (Option.some.inj (hlock.1.symm.trans hp.1)).symm hj
    · rw [hp.2.1] at hlock
      cases hlock
  | stop watcher f hf => exact ⟨rfl,fun k w' hw' hrun => running_before hf hw' hrun⟩
  | _ => exact ⟨rfl,fun k w' hw' hrun => ⟨w',hw',hrun,rfl,rfl⟩⟩

theorem stopped_other (he : StoreEffect selects j s c r s') {k : ℕ} (h : s.stopped k = true) :
    s'.stopped k = true := by
  rw [stopped] at h ⊢
  obtain ⟨w,hw,hstop⟩ := (Option.any_eq_true _ _).mp h
  obtain ⟨w',hw',-,-,hkeep⟩ := watchersKept he k w hw
  rw [hw']
  exact hkeep hstop

theorem journal_other (he : StoreEffect selects j s c r s') : s.journal ⊆ s'.journal := by
  cases he with
  | putWatcher | send | pageList | nextReceived => exact List.subset_append_left _ _
  | _ => exact List.Subset.refl _

/-- A thread sends an event; `ws` are the watchers that are left. Every watcher of the map that
takes the event has got it or is left. -/
structure Serving (pkg : LabelsPackage) (i : ℕ) (evt : WatchEvent) (ws : List (ℕ × WorkWatcher))
    (s : WatcherStore) : Prop where
  hand : holding i s = [evt.object]
  type : evt.type = eventType evt.object
  reader : i ∈ s.readers
  known : ∀ x ∈ ws, ∃ w, s.heap[x.1]? = some w ∧ w.namespace_ = x.2.namespace_ ∧
    w.labelSelector = x.2.labelSelector
  left : ∀ k w, s.heap[k]? = some w → w.stopped = false → (w.namespace_,k) ∈ s.watchers →
    w.accepts pkg evt.object → .delivered k evt ∈ s.journal ∨ ∃ x ∈ ws, x.1 = k

theorem local_serving (evt : WatchEvent) (ws : List (ℕ × WorkWatcher)) :
    Local selects pkg i (Serving pkg i evt ws) := by
  intro j hj s c r s' hp he h
  obtain ⟨hmap,hbefore⟩ := watchers_other hj hp he (.inr h.reader)
  refine ⟨(holding_other hj he).trans h.hand,h.type,reader_other hj he h.reader,fun x hx => ?_,
    fun k w' hw' hrun hmem hacc => ?_⟩
  · obtain ⟨w,hw,hns,hsel⟩ := h.known x hx
    obtain ⟨w',hw',hns',hsel',-⟩ := watchersKept he x.1 w hw
    exact ⟨w',hw',hns'.trans hns,hsel'.trans hsel⟩
  · obtain ⟨w,hw,hrun₀,hns,hsel⟩ := hbefore k w' hw' hrun
    rw [hns,hmap] at hmem
    rw [accepts_congr hns hsel] at hacc
    exact (h.left k w hw hrun₀ hmem hacc).imp (fun hd => journal_other he hd) id

end Knowledge

/-! ### The methods -/

section Methods

variable {selects : String → Work → Bool} {pkg : LabelsPackage} {i : ℕ}

theorem outline_receive (evt : WatchEvent) (x : ℕ × WorkWatcher) (ws : List (ℕ × WorkWatcher)) :
    Outline selects pkg i (receive pkg evt x) (Serving pkg i evt (x :: ws))
      fun _ => Serving pkg i evt ws := by
  refine .call fun s _ h => ⟨trivial,fun stopped s' he => ?_⟩
  cases he
  right
  have hknown : ∀ y ∈ ws, ∃ w, s.heap[y.1]? = some w ∧ w.namespace_ = y.2.namespace_ ∧
      w.labelSelector = y.2.labelSelector := fun y hy => h.known y (List.mem_cons_of_mem _ hy)
  cases hstop : s.stopped x.1 with
  | true =>
    refine ⟨_,local_serving evt ws,⟨h.hand,h.type,h.reader,hknown,fun k w hw hrun hmem hacc => ?_⟩,
      .ret fun _ hs => hs⟩
    refine (h.left k w hw hrun hmem hacc).imp id fun ⟨y,hy,hk⟩ => ?_
    rcases List.mem_cons.mp hy with rfl | hy
    · rw [stopped,hk,hw] at hstop
      rw [show w.stopped = true from hstop] at hrun
      cases hrun
    · exact ⟨y,hy,hk⟩
  | false =>
    refine ⟨_,local_serving evt (x :: ws),h,?_⟩
    change Outline selects pkg i
      (if x.2.accepts pkg evt.object then performStore (.send x.1 evt) else Prog.ret ()) _ _
    split
    · next hacc =>
      refine .call fun s _ h => ?_
      obtain ⟨w,hw,hns,hsel⟩ := h.known x List.mem_cons_self
      refine ⟨⟨mem_holding.mp (h.hand ▸ List.mem_cons_self),h.type,w,hw,
        (accepts_congr hns hsel).trans hacc⟩,fun _ s' he => ?_⟩
      cases he with
      | sendPanic => exact .inl rfl
      | send _ _ hrun =>
        refine .inr ⟨_,local_serving evt ws,⟨h.hand,h.type,h.reader,
          fun y hy => h.known y (List.mem_cons_of_mem _ hy),fun k w hw hrun hmem hacc => ?_⟩,
          .ret fun _ hs => hs⟩
        rcases h.left k w hw hrun hmem hacc with hd | ⟨y,hy,hk⟩
        · exact .inl (List.mem_append_left _ hd)
        · rcases List.mem_cons.mp hy with rfl | hy
          · exact .inl (List.mem_append_right _ (hk ▸ List.mem_cons_self))
          · exact .inr ⟨y,hy,hk⟩
    · next hnot =>
      refine .ret fun s h => ⟨h.hand,h.type,h.reader,
        fun y hy => h.known y (List.mem_cons_of_mem _ hy),fun k w hw hrun hmem hacc => ?_⟩
      refine (h.left k w hw hrun hmem hacc).imp id fun ⟨y,hy,hk⟩ => ?_
      rcases List.mem_cons.mp hy with rfl | hy
      · obtain ⟨w',hw',hns,hsel⟩ := h.known y List.mem_cons_self
        rw [hk,hw] at hw'
        cases hw'
        exact absurd ((accepts_congr hns hsel).symm.trans hacc) hnot
      · exact ⟨y,hy,hk⟩

theorem outline_receiveEach (evt : WatchEvent) (ws : List (ℕ × WorkWatcher)) :
    Outline selects pkg i (receiveEach pkg evt ws) (Serving pkg i evt ws)
      fun _ => Serving pkg i evt [] := by
  induction ws with
  | nil => exact .ret fun _ h => h
  | cons x ws ih => exact (outline_receive evt x ws).bind fun _ => ih

theorem outline_sendWatchEvent (evt : WatchEvent) (htype : evt.type = eventType evt.object) :
    Outline selects pkg i (sendWatchEvent pkg evt) (fun s => holding i s = [evt.object])
      fun _ s => holding i s = [] := by
  refine .call fun s _ h => ⟨trivial,fun _ s' he => .inr ?_⟩
  refine ⟨fun s => holding i s = [evt.object] ∧ i ∈ s.readers,
    (local_holding _).and fun _ hj _ _ _ _ _ he h => reader_other hj he h,?_,?_⟩
  · cases he
    exact ⟨h,List.mem_cons_self⟩
  refine .call fun s _ h => ⟨trivial,fun watchers s' he => .inr ?_⟩
  cases he with
  | rangeWatchers o =>
  refine ⟨_,local_serving evt (s.range o),⟨h.1,htype,h.2,fun x hx => ?_,fun k w hw _ hmem _ => ?_⟩,
    (outline_receiveEach evt _).bind fun _ => ?_⟩
  · obtain ⟨-,-,hw⟩ := mem_range.mp hx
    exact ⟨x.2,hw,rfl,rfl⟩
  · exact .inr ⟨(k,w),mem_range.mpr ⟨_,hmem,hw⟩,rfl⟩
  · refine .call fun s _ h => ⟨fun work hwork k w hw hrun hmem hacc => ?_,fun _ s' he => .inr ?_⟩
    · have hobj : work = evt.object := by
        have hmem := mem_holding.mpr hwork
        rw [h.hand] at hmem
        exact List.mem_singleton.mp hmem
      subst hobj
      rcases h.left k w hw hrun hmem hacc with hd | ⟨x,hx,-⟩
      · exact ⟨evt,hd,rfl⟩
      · cases hx
    · cases he
      exact ⟨_,local_holding [],holding_rUnlock i s,.ret fun _ hs => hs⟩

theorem outline_addEach (works : List Work) (hlive : ∀ work ∈ works, work.deleted = false) :
    Outline selects pkg i (addEach works) (fun s => holding i s = works)
      fun _ s => holding i s = [] := by
  induction works with
  | nil => exact .ret fun _ h => h
  | cons work works ih =>
    refine .call fun s _ h => ⟨⟨mem_holding.mp (h ▸ List.mem_cons_self),
      hlive work List.mem_cons_self⟩,fun _ s' he => .inr ?_⟩
    cases he
    exact ⟨_,local_holding works,holding_add h,ih fun x hx => hlive x (List.mem_cons_of_mem _ hx)⟩

/-- A thread under the lock, when the map has no running watcher for the namespace. -/
theorem outline_put (ns : String) (labelSelector : LabelSelector) (works : List Work) :
    Outline selects pkg i (do
      let watcher ← performStore (.putWatcher ns labelSelector)
      performStore .unlock
      return watcher)
      (fun s => (holding i s = works ∧ Writing i s) ∧ ∀ k, (ns,k) ∈ s.watchers → s.stopped k = true)
      fun _ s => holding i s = works := by
  refine .call fun s _ h => ⟨⟨h.1.2.1,h.1.2.2,h.2⟩,fun watcher s' he => .inr ?_⟩
  refine ⟨_,(local_holding works).and local_writing,?_,?_⟩
  · cases he
    exact h.1
  refine .call fun s _ h => ⟨h.2.1,fun _ s' he => .inr ?_⟩
  cases he
  exact ⟨_,local_holding works,h.1,.ret fun _ hs => hs⟩

theorem outline_registerWatcher (ns : String) (labelSelector : LabelSelector)
    (works : List Work) :
    Outline selects pkg i (registerWatcher ns labelSelector) (fun s => holding i s = works)
      fun _ s => holding i s = works := by
  have hlocked : Local selects pkg i fun s => holding i s = works ∧ Writing i s :=
    (local_holding works).and local_writing
  have hmap : ∀ P : List (String × ℕ) → Prop, Local selects pkg i fun s =>
      (holding i s = works ∧ Writing i s) ∧ P s.watchers := by
    intro P j hj s c r s' hp he h
    refine ⟨hlocked j hj s c r s' hp he h.1,?_⟩
    rw [(watchers_other hj hp he (.inl h.1.2)).1]
    exact h.2
  have hfree : Local selects pkg i fun s => (holding i s = works ∧ Writing i s) ∧
      ∀ k, (ns,k) ∈ s.watchers → s.stopped k = true := by
    intro j hj s c r s' hp he h
    refine ⟨hlocked j hj s c r s' hp he h.1,fun k hk => ?_⟩
    rw [(watchers_other hj hp he (.inl h.1.2)).1] at hk
    exact stopped_other he (h.2 k hk)
  refine .call fun s _ h => ⟨trivial,fun _ s' he => .inr ⟨_,hlocked,?_,?_⟩⟩
  · cases he with
    | lock hw hr => exact ⟨h,rfl,hr⟩
  refine .call fun s ho h => ⟨trivial,fun found s' he => .inr ?_⟩
  cases he
  cases hfound : s.watchers.lookup ns with
  | none =>
    refine ⟨_,hfree,⟨h,fun k hk => ?_⟩,outline_put ns labelSelector works⟩
    rw [(lookup_eq_some_iff_mem ho.mapped.keys).mpr hk] at hfound
    cases hfound
  | some watcher =>
    refine ⟨_,hmap fun watchers => ∀ k, (ns,k) ∈ watchers → k = watcher,⟨h,fun k hk => ?_⟩,?_⟩
    · rw [(lookup_eq_some_iff_mem ho.mapped.keys).mpr hk] at hfound
      exact Option.some.inj hfound
    refine .call fun s _ h => ⟨trivial,fun stopped s' he => .inr ?_⟩
    cases he
    cases hstop : s.stopped watcher with
    | true =>
      refine ⟨_,hfree,⟨h.1,fun k hk => ?_⟩,outline_put ns labelSelector works⟩
      rw [h.2 k hk]
      exact hstop
    | false =>
      refine ⟨_,hlocked,h.1,.call fun s _ h => ⟨h.2.1,fun _ s' he => .inr ?_⟩⟩
      cases he
      exact ⟨_,local_holding works,h.1,.ret fun _ hs => hs⟩

variable (quote : String → String) (sourceID : String)

theorem outline_getWatcher (ns labelSelector : String) :
    Outline selects pkg i (getWatcher pkg quote sourceID ns labelSelector)
      (fun s => holding i s = []) fun _ _ => True := by
  rw [getWatcher]
  split
  · exact .ret fun _ _ => trivial
  next search _ =>
    refine .call fun s ho h => ⟨trivial,fun listed s' he => .inr ?_⟩
    rcases holding_pageList ho.fresh h he with ⟨err,rfl,-⟩ | ⟨works,rfl,hworks,hlive⟩
    · exact ⟨_,Local.const True,trivial,.ret fun _ _ => trivial⟩
    · exact ⟨_,local_holding works,hworks,
        (outline_registerWatcher ns search.selector works).bind fun _ =>
          (outline_addEach works hlive).bind fun _ => .ret fun _ _ => trivial⟩

theorem outline_rUnlock {α : Type} (a : α) :
    Outline selects pkg i (do
      performStore .rUnlock
      return a) (fun s => holding i s = []) fun _ _ => True := by
  refine .call fun s _ h => ⟨fun work hwork => ?_,fun _ s' _ =>
    .inr ⟨_,Local.const True,trivial,.ret fun _ _ => trivial⟩⟩
  have hmem := mem_holding.mpr hwork
  rw [h] at hmem
  cases hmem

theorem outline_sync : Outline selects pkg i (sync sourceID) (fun s => holding i s = [])
    fun _ _ => True := by
  refine .call fun s _ h => ⟨trivial,fun _ s' he => .inr ⟨_,local_holding [],?_,?_⟩⟩
  · cases he
    exact h
  refine .call fun s _ h => ⟨trivial,fun watchers s' he => .inr ⟨_,local_holding [],?_,?_⟩⟩
  · cases he
    exact h
  simp only [Prog.bind]
  split
  · exact outline_rUnlock _
  · refine .call fun s ho h => ⟨trivial,fun listed s' he => .inr ?_⟩
    rcases holding_pageList ho.fresh h he with ⟨err,rfl,hnone⟩ | ⟨works,rfl,hworks,hlive⟩
    · exact ⟨_,local_holding [],hnone,outline_rUnlock _⟩
    · exact ⟨_,local_holding works,hworks,
        (outline_addEach works hlive).bind fun _ => outline_rUnlock _⟩

theorem outline_process (n : ℕ) : Outline selects pkg i (process pkg n)
    (fun s => holding i s = []) fun _ _ => True := by
  induction n with
  | zero => exact .ret fun _ _ => trivial
  | succ n ih =>
    refine .call fun s ho h => ⟨trivial,fun work s' he => .inr ?_⟩
    cases he with
    | pop _ rest hq =>
      -- the works of the queue were listed, so none of them is deleted
      have hlive := ho.fresh.queued work (hq ▸ List.mem_cons_self)
      refine ⟨_,local_holding [work],?_,
        (outline_sendWatchEvent ⟨.modified,work⟩ (by simp [eventType,hlive])).bind fun _ => ih⟩
      exact (holding_append [work] i s).trans (by rw [h,List.nil_append])

theorem outline_subscription (n : ℕ) : Outline selects pkg i (subscription pkg n)
    (fun s => holding i s = []) fun _ _ => True := by
  induction n with
  | zero => exact .ret fun _ _ => trivial
  | succ n ih =>
    refine .call fun s ho h => ⟨trivial,fun work s' he => .inr ?_⟩
    cases he with
    | nextReceived _ rest hq =>
      refine ⟨_,local_holding [work],?_,(outline_sendWatchEvent _ rfl).bind fun _ => ih⟩
      exact (holding_append [work] i s).trans (by rw [h,List.nil_append])

theorem outline_program (activity : Activity) :
    Outline selects pkg i (activity.program pkg quote sourceID) (fun s => holding i s = [])
      fun _ _ => True := by
  cases activity with
  | getWatcher ns labelSelector =>
    exact (outline_getWatcher quote sourceID ns labelSelector).bind fun _ => .ret fun _ h => h
  | sync => exact (outline_sync sourceID).bind fun _ => .ret fun _ h => h
  | process n => exact outline_process n
  | subscription n => exact outline_subscription n
  | stop watcher | change work publish =>
    exact .call fun s _ _ => ⟨trivial,fun _ s' _ =>
      .inr ⟨_,Local.const True,trivial,.ret fun _ _ => trivial⟩⟩

end Methods

/-! ### Runs -/

section Runs

variable {selects : String → Work → Bool} {pkg : LabelsPackage} {quote : String → String}
  {sourceID : String} {works : List Work} {activities : ℕ → Activity}

theorem orderly_start : Orderly pkg (storeStart pkg quote sourceID works activities).shared where
  fresh :=
    { uid := fun uid work h => by
        have hfind : (works.find? fun work => work.uid = uid) = some work := h
        simpa using List.find?_some hfind
      current := by rintro _ ⟨⟩
      queued := by rintro _ ⟨⟩
      read := by rintro _ ⟨⟩ }
  logged :=
    { past := by rintro _ ⟨⟩
      ordered := .nil
      delivered := by rintro _ _ ⟨⟩ }
  mapped :=
    { keys := List.nodup_nil
      live := by rintro _ _ ⟨⟩
      registered := by rintro _ ⟨⟩ }
  reached := by rintro _ _ ⟨⟩

/-- In every run in which the server changes a work only while no copy of it is on its way, the
events of a work never go back. -/
theorem watch_events_never_back {cfg : StoreConfig} (hr : ReachWhen (exec selects)
    (fun cfg c => Calm c cfg.shared) (storeStart pkg quote sourceID works activities) cfg) :
    NeverBack pkg cfg.shared := by
  have hverified : Verified (restrict (exec selects) Calm) (Allowed pkg)
      (fun _ _ => At pkg fun _ => True) (storeStart pkg quote sourceID works activities) :=
    fun i => ⟨_,(local_holding []).stable,.inr ⟨orderly_start,rfl⟩,
      outline_program quote sourceID (activities i)⟩
  have horderly : Orderly pkg cfg.shared :=
    hverified.invariant (fun _ _ _ _ _ _ ha hx => (executed ha hx).2.2.2)
      ((reachWhen_iff _).mp hr) orderly_start
  exact horderly.neverBack

end Runs

/-! ### A listed work and a newer one -/

def oldWork : Work := ⟨"x","ns",[],0,1,0,false⟩
def newWork : Work := ⟨"x","ns",[],0,2,0,false⟩

/-- A watcher for all namespaces, the loop over the queue, a change of the work that is listed,
and its reception. -/
def raceActivities : ℕ → Activity
  | 0 => .getWatcher "" ""
  | 1 => .process 1
  | 2 => .change newWork true
  | _ => .subscription 1

def raceStart : StoreConfig :=
  storeStart Reference.labelsPackage id "src" [oldWork] raceActivities

/-- Steps of the threads, where a list has the page with the work. -/
def withPage (threads : List ℕ) : List (ℕ × StoreChoice) :=
  threads.map fun i => (i,{ listed := .ok ["x"] })

/-- The work changes after its copy was sent, and the watcher sees both states in order. -/
theorem watch_events_in_turn : ∃ cfg, ReachWhen (exec fun _ _ => true)
    (fun cfg c => Calm c cfg.shared) raceStart cfg ∧
    eventsOf 0 "x" cfg.shared = [⟨.modified,oldWork⟩,⟨.modified,newWork⟩] ∧
    NeverBack Reference.labelsPackage cfg.shared := by
  have hrun : (follow (restrict (exec fun _ _ => true) Calm)
      (withPage [0,0,0,0,0,0,1,1,1,1,1,1,2,3,3,3,3,3,3]) raceStart).any fun cfg =>
      eventsOf 0 "x" cfg.shared = [⟨.modified,oldWork⟩,⟨.modified,newWork⟩] := by
    decide +kernel
  obtain ⟨cfg,hcfg,hevents⟩ := (Option.any_eq_true _ _).mp hrun
  have hr := (reachWhen_iff (exec fun _ _ => true)).mpr (Reach.of_follow _ hcfg)
  exact ⟨cfg,hr,of_decide_eq_true hevents,watch_events_never_back hr⟩

/-- The work changes while its copy is in the queue: the watcher sees the new state, and then the
old one. -/
theorem watch_events_go_back : ∃ cfg, Reach (exec fun _ _ => true) raceStart cfg ∧
    cfg.shared.stopped 0 = false ∧ cfg.shared.workQueue = [] ∧ cfg.shared.inHand = [] ∧
    eventsOf 0 "x" cfg.shared = [⟨.modified,newWork⟩,⟨.modified,oldWork⟩] ∧
    newWork ∈ readsSince 0 cfg.shared.journal ∧ oldWork.rank < newWork.rank := by
  have hrun : (follow (exec fun _ _ => true)
      (withPage [0,0,0,0,0,0,2,3,3,3,3,3,3,1,1,1,1,1,1]) raceStart).any fun cfg =>
      cfg.shared.stopped 0 = false ∧ cfg.shared.workQueue = [] ∧ cfg.shared.inHand = [] ∧
      eventsOf 0 "x" cfg.shared = [⟨.modified,newWork⟩,⟨.modified,oldWork⟩] ∧
      newWork ∈ readsSince 0 cfg.shared.journal := by
    decide +kernel
  obtain ⟨cfg,hcfg,h⟩ := (Option.any_eq_true _ _).mp hrun
  obtain ⟨hlive,hqueue,hhand,hevents,hread⟩ := of_decide_eq_true h
  exact ⟨cfg,Reach.of_follow _ hcfg,hlive,hqueue,hhand,hevents,hread,by decide⟩

end WatcherStore

end Maestro
