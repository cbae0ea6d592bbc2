import Maestro.Controllers.Calls
import Maestro.Services.Locking

/-!
# Outlines of event handling

Rules for the reads of a session and for what `handleEvent` does around the handlers, in
any pool that executes statements and for any rule about its calls.
-/

namespace Maestro
open Concurrent Data

/-- The steps of the pool are statements of its sessions. -/
def Executes {n : ℕ} (pool : Fin n → Choice → (c : Call) → State → Option (c.Resp × State)) : Prop :=
  ∀ i ch c s r s', pool i ch c s = some (r,s') → exec i ch c s = some (r,s')

theorem exec_acts {t : ℕ} {ch : Choice} {c : Call} {r : c.Resp} {s s' : State}
    (h : exec t ch c s = some (r,s')) : ∃ acts : List Act,
    s'.journal = s.journal ++ acts.map (Entry.mk t) ∧
      ∀ a ∈ acts, a.recordedBy s c ∨ ¬ a.quiet := by
  cases exec_rowEffect h with
  | quiet acts _ hj hb => exact ⟨acts,hj,fun a ha => Or.inl (hb a ha)⟩
  | insert | spec | status | soft | hard =>
    exact ⟨[_],rfl,fun a ha => Or.inr (by rw [List.mem_singleton.mp ha]; exact id)⟩

/-- What is deferred releases the lock. -/
theorem deferredAction_unlocks (h : EventFilter) (id : String) :
    (h.deferredAction id).Calls Answers (fun c => ∃ owner, c = .unlock owner) fun _ => True := by
  cases h with
  | lockBased locks =>
    simp only [EventFilter.deferredAction]
    split
    · trivial
    · refine .bind (Q := fun _ => True) ?_ fun _ _ => trivial
      unfold unlock
      split
      · trivial
      · exact ⟨⟨_,rfl⟩,fun _ _ => trivial⟩
  | predicated predicate => trivial

/-- A published request is all that the call recorded. -/
theorem exec_publish {t : ℕ} {ch : Choice} {action : EventAction} {resource : Resource}
    {r : Except DbErr Unit} {s s' : State}
    (h : exec t ch (.publish action resource) s = some (r,s')) :
    s' = s ∨ s' = s.record t [.published action resource] := by
  rcases exec_cases h with ⟨-,-,-,rfl⟩ | ⟨-,hc⟩
  · exact Or.inl rfl
  · simp only [commit] at hc
    split at hc
    · cases hc
      exact Or.inr rfl
    · cases hc
      exact Or.inl rfl

namespace Executes

variable {n : ℕ} {pool : Fin n → Choice → (c : Call) → State → Option (c.Resp × State)}
    (hpool : Executes pool) {allowed : Fin n → Call → State → Prop} {i : Fin n}
    {ext : External} {α : Type} {Q : α → State → Prop} {F P R : State → Prop} {key : String}

include hpool

theorem stable_acts (A : List Act) : Stable pool allowed i fun s => s.acts i = A := by
  intro j hj ch c s r s' _ hx hA
  obtain ⟨acts,hjr,-⟩ := exec_acts (hpool j ch c s r s' hx)
  rw [← hA]
  simp [State.acts,hjr,List.filter_map,Function.comp_def,val_ne hj]

/-- Calls that are allowed wherever `F` holds. -/
theorem safe_rest (hF : Kept pool allowed F) {V : Call → Prop}
    (hV : ∀ c s, V c → F s → allowed i c s) {p : M α}
    (hp : p.Calls Answers V fun _ => True) : Safe pool allowed i (fun _ => F) p F :=
  (Safe.of_calls (fun o c s r s' hx => exec_answers (hpool i o c s r s' hx)) hF hV hp).weaken
    (fun _ h => h) fun _ _ h => h.1

theorem safe_timeNow {f : Time → M α} (hP : Stable pool allowed i P)
    (ha : ∀ s, P s → allowed i .now s) (hf : ∀ now, Safe pool allowed i Q (f now) P) :
    Safe pool allowed i Q (timeNow >>= f) P := by
  refine Safe.call fun s hs => ⟨ha s hs,fun ch r s' hx => ?_⟩
  have hx := hpool i ch _ s r s' hx
  rw [exec_now] at hx
  cases hx
  exact ⟨P,hP,hs,hf _⟩

theorem safe_getEvent {f : Except ServiceError Event → M α} (hP : Stable pool allowed i P)
    (ha : ∀ s, P s → allowed i (.takeEvent key) s)
    (herr : ∀ err, Safe pool allowed i Q (f (.error err)) P)
    (hok : ∀ e s, P s → s.events.find key = some e →
      ∃ P', Stable pool allowed i P' ∧ P' s ∧ Safe pool allowed i Q (f (.ok e)) P') :
    Safe pool allowed i Q (EventService.get key >>= f) P := by
  refine Safe.call fun s hs => ⟨ha s hs,fun ch r s' hx => ?_⟩
  rcases exec_cases (hpool i ch _ s r s' hx) with ⟨err,-,he,rfl⟩ | ⟨-,hc⟩
  · cases he
    exact ⟨P,hP,hs,herr _⟩
  · simp only [commit] at hc
    cases hrow : s.events.find key with
    | none =>
      rw [hrow] at hc
      cases hc
      exact ⟨P,hP,hs,herr _⟩
    | some e =>
      rw [hrow] at hc
      cases hc
      exact hok e s hs hrow

/-- What is kept, with the acts of the session so far. -/
theorem stable_trace (hF : Kept pool allowed F) (A : List Act) :
    Stable pool allowed i fun s => F s ∧ s.acts i = A :=
  (hF.stable i).and (hpool.stable_acts A)

/-- A read of a resource is recorded, unless the database refuses it. -/
theorem safe_getResource {f : Except ServiceError Resource → M α} {A : List Act}
    (hF : Kept pool allowed F) (ha : ∀ s, F s → allowed i (.takeResource key) s)
    (herr : ∀ err, (∃ ch s r, pool i ch (.takeResource key) s = some r ∧
        ch.fault (.takeResource key) = some err) →
      Safe pool allowed i Q (f (.error (handleGetError "Resource" "id" key err)))
        fun s => F s ∧ s.acts i = A)
    (hnone : Safe pool allowed i Q (f (.error (handleGetError "Resource" "id" key .recordNotFound)))
      fun s => F s ∧ s.acts i = A ++ [.readResource key none])
    (hok : ∀ row s, F s → s.resources.find key = some row → ∃ F', Kept pool allowed F' ∧ F' s ∧
      Safe pool allowed i Q (f (.ok (syncTimestampsFromResourceMeta ext row.scan)))
        fun s => F' s ∧ s.acts i = A ++ [.readResource key (some row)]) :
    Safe pool allowed i Q (ResourceService.get ext key >>= f) fun s => F s ∧ s.acts i = A := by
  refine Safe.call fun s ⟨hs,hA⟩ => ⟨ha s hs,fun ch r s' hx => ?_⟩
  have hstep := fun (F' : State → Prop) (hF' : Kept pool allowed F') (h : F' s) =>
    hF' i ch _ s r s' (ha s hs) hx h
  rcases exec_cases (hpool i ch _ s r s' hx) with ⟨err,hf,he,rfl⟩ | ⟨-,hc⟩
  · cases he
    exact ⟨_,hpool.stable_trace hF A,⟨hs,hA⟩,herr err ⟨ch,s',_,hx,hf⟩⟩
  · obtain ⟨rfl,⟨hrow,rfl⟩ | ⟨row,hrow,rfl⟩⟩ := commit_takeResource hc
    · rw [hrow] at hstep ⊢
      exact ⟨_,hpool.stable_trace hF _,⟨hstep F hF hs,by rw [State.acts_record,hA]⟩,hnone⟩
    · obtain ⟨F',hF',hs',hsafe⟩ := hok row s hs hrow
      rw [hrow] at hstep ⊢
      exact ⟨_,hpool.stable_trace hF' _,⟨hstep F' hF' hs',by rw [State.acts_record,hA]⟩,hsafe⟩

/-- A handler that reads a resource and then publishes it, or does not. -/
theorem safe_read_publish {f : Except ServiceError Resource → M (Except String Unit)}
    (hF : Kept pool allowed F) (ha : ∀ s, F s → allowed i (.takeResource key) s)
    (herr : ∀ err, ∃ x, f (.error err) = .ret x)
    (hok : ∀ row s, F s → s.resources.find key = some row →
      (∃ x, f (.ok (syncTimestampsFromResourceMeta ext row.scan)) = .ret x) ∨
      ∃ action, f (.ok (syncTimestampsFromResourceMeta ext row.scan)) =
          perform (.publish action (syncTimestampsFromResourceMeta ext row.scan)) >>=
            (fun sent => .ret (publishErr sent)) ∧
        ∀ s, F s → [.readResource key (some row)] <:+ s.acts i →
          allowed i (.publish action (syncTimestampsFromResourceMeta ext row.scan)) s) :
    Safe pool allowed i (fun _ => F) (ResourceService.get ext key >>= f) F := by
  have hret : ∀ (p : M (Except String Unit)) (A : List Act), (∃ x, p = .ret x) →
      Safe pool allowed i (fun _ => F) p fun s => F s ∧ s.acts i = A := by
    rintro p A ⟨x,rfl⟩
    exact Safe.ret fun s h => h.1
  have hsplit : Safe pool allowed i (fun _ => F) (ResourceService.get ext key >>= f)
      fun s => ∃ A, F s ∧ s.acts i = A := by
    refine Safe.exists fun A => hpool.safe_getResource hF ha (fun err _ => hret _ A (herr _))
      (hret _ _ (herr _)) fun row s hs hrow => ⟨F,hF,hs,?_⟩
    rcases hok row s hs hrow with hx | ⟨action,hx,hallow⟩
    · exact hret _ _ hx
    · rw [hx]
      refine Safe.call fun s₁ ⟨hs₁,hA⟩ => ?_
      have hp := hallow s₁ hs₁ ⟨A,hA.symm⟩
      exact ⟨hp,fun ch r s₂ hx => ⟨F,hF.stable i,hF i ch _ s₁ r s₂ hp hx hs₁,Safe.ret fun _ h => h⟩⟩
  exact hsplit.weaken (fun s hs => ⟨_,hs,rfl⟩) fun _ _ h => h

omit hpool in
theorem safe_runHandlers {fns : List ControllerHandlerFunc} {sourceID : String}
    (h : ∀ fn ∈ fns, Safe pool allowed i (fun _ => P) (fn sourceID) P) :
    Safe pool allowed i (fun _ => P) (runHandlers sourceID fns) P := by
  induction fns with
  | nil => exact Safe.ret fun _ h => h
  | cons fn fns ih =>
    refine Safe.bind (h fn List.mem_cons_self) fun r => ?_
    cases r with
    | error err => exact Safe.ret fun _ h => h
    | ok u => exact ih fun fn' hm => h fn' (List.mem_cons_of_mem _ hm)

/-- `processEvent`, given outlines for the handlers of an event that is pending and for the save
that follows them. -/
theorem safe_processEvent {controllers : Controllers} (hP : Stable pool allowed i P)
    (ha : ∀ s, P s → allowed i (.takeEvent key) s) (hdone : ∀ s, P s → R s)
    (hproc : ∀ e s source fns, P s → s.events.find key = some e → e.reconciledDate = none →
      controllers.lookup e.source = some source → source.lookup e.eventType = some fns →
      ∃ P₁ P₂, Stable pool allowed i P₁ ∧ P₁ s ∧ Stable pool allowed i P₂ ∧
        (∀ s, P₂ s → allowed i .now s) ∧
        Safe pool allowed i (fun r s => R s ∧ (r = .ok () → P₂ s))
          (runHandlers e.sourceID fns) P₁ ∧
        ∀ now, Safe pool allowed i (fun _ => R)
          (EventService.replace { e with reconciledDate := some now }) P₂) :
    Safe pool allowed i (fun _ => R) (processEvent controllers key) P := by
  have hret : ∀ a : Except String Bool, Safe pool allowed i (fun _ => R) (.ret a : M _) P :=
    fun _ => Safe.ret hdone
  have hend : ∀ a : Except String Bool, Safe pool allowed i (fun _ => R) (.ret a : M _) R :=
    fun _ => Safe.ret fun _ h => h
  refine hpool.safe_getEvent hP ha (fun err => ?_) fun e s hs hrow => ?_
  · dsimp only
    split <;> exact hret _
  · dsimp only
    by_cases hrec : e.reconciledDate.isSome
    · rw [if_pos hrec]
      exact ⟨P,hP,hs,hret _⟩
    rw [if_neg hrec]
    cases hsource : controllers.lookup e.source with
    | none => exact ⟨P,hP,hs,hret _⟩
    | some source =>
      dsimp only
      cases hfns : source.lookup e.eventType with
      | none => exact ⟨P,hP,hs,hret _⟩
      | some fns =>
        obtain ⟨P₁,P₂,hst₁,hs₁,hst₂,hnow,hrun,hreplace⟩ :=
          hproc e s source fns hs hrow (by simpa using hrec) hsource hfns
        refine ⟨P₁,hst₁,hs₁,Safe.bind hrun fun r => ?_⟩
        cases r with
        | error err => exact Safe.ret fun _ h => h.1
        | ok u =>
          refine Safe.weaken (hpool.safe_timeNow hst₂ hnow fun now => Safe.bind (hreplace now)
            fun r => ?_) (fun s hs => hs.2 rfl) fun _ _ h => h
          cases r <;> exact hend _

/-- `PredicateEvent`, given an outline for the save of an event whose resource was not found. -/
theorem safe_predicateEvent (hP : Stable pool allowed i P)
    (ha : ∀ s, P s → allowed i (.takeEvent key) s) (hdone : ∀ s, P s → R s)
    (hread : ∀ e s, P s → s.events.find key = some e → e.reconciledDate = none →
      ∃ F, Kept pool allowed F ∧ F s ∧ (∀ s, F s → R s ∧ allowed i .now s ∧
          allowed i (.takeResource e.sourceID) s ∧ ∀ name, allowed i (.subscribers name) s) ∧
        ∀ now, Safe pool allowed i (fun _ => R)
          (EventService.replace { e with reconciledDate := some now }) fun s => F s ∧
            ([.readResource e.sourceID none] <:+ s.acts i ∨
              ∃ ch s r, pool i ch (.takeResource e.sourceID) s = some r ∧
                ch.fault (.takeResource e.sourceID) = some .recordNotFound)) :
    Safe pool allowed i (fun _ => R) (GRPCBroker.predicateEvent ext key) P := by
  have hret : ∀ (a : Except String Bool) (P' : State → Prop), (∀ s, P' s → R s) →
      Safe pool allowed i (fun _ => R) (.ret a : M _) P' := fun _ _ h => Safe.ret h
  refine hpool.safe_getEvent hP ha (fun err => hret _ _ hdone) fun e s hs hrow => ?_
  dsimp only
  by_cases hrec : e.reconciledDate.isSome
  · rw [if_pos hrec]
    exact ⟨P,hP,hs,hret _ _ hdone⟩
  obtain ⟨F,hF,hFs,hR,hsave⟩ := hread e s hs hrow (by simpa using hrec)
  rw [if_neg hrec]
  refine ⟨_,hpool.stable_trace hF (s.acts i),⟨hFs,rfl⟩,?_⟩
  -- the resource is missing, so that the event is saved
  have hmissing : ∀ (err : ServiceError) (A : List Act)
      (answer : Except ServiceError Event → M (Except String Bool)) (a : Except String Bool),
      (∀ r, ∃ b, answer r = .ret b) →
      (err.is404 → [.readResource e.sourceID none] <:+ A ∨
        ∃ ch s r, pool i ch (.takeResource e.sourceID) s = some r ∧
          ch.fault (.takeResource e.sourceID) = some .recordNotFound) →
      Safe pool allowed i (fun _ => R) (if err.is404 then do
          let now ← timeNow
          let r ← EventService.replace { e with reconciledDate := some now }
          answer r
        else
          return a) fun s => F s ∧ s.acts i = A := by
    intro err A answer a hanswer hA
    split
    · next h404 =>
      refine hpool.safe_timeNow (hpool.stable_trace hF A) (fun s hs => (hR s hs.1).2.1)
        fun now => Safe.bind ((hsave now).weaken (fun s hs => ⟨hs.1,hs.2 ▸ hA h404⟩) fun _ _ h => h)
          fun r => ?_
      obtain ⟨b,hb⟩ := hanswer r
      rw [hb]
      exact hret _ _ fun _ h => h
    · exact hret _ _ fun s hs => (hR s hs.1).1
  refine hpool.safe_getResource hF (fun s hs => (hR s hs).2.2.1) (fun err hf => ?_) ?_
    fun row s₁ hs₁ _ => ⟨F,hF,hs₁,?_⟩
  · refine hmissing _ _ _ _ (by rintro (err | _) <;> exact ⟨_,rfl⟩) fun h404 => Or.inr ?_
    obtain ⟨ch,s₁,r,hx,hfault⟩ := hf
    cases err with
    | recordNotFound => exact ⟨ch,s₁,r,hx,hfault⟩
    | other text => cases h404
  · exact hmissing _ _ _ _ (by rintro (err | _) <;> exact ⟨_,rfl⟩)
      fun _ => Or.inl (List.suffix_append _ _)
  · refine Safe.call fun s₂ hs₂ => ⟨(hR s₂ hs₂.1).2.2.2 _,fun ch r s₃ hx => ?_⟩
    exact ⟨F,hF.stable i,hF i ch _ s₂ r s₃ ((hR s₂ hs₂.1).2.2.2 _) hx hs₂.1,
      Safe.ret fun s hs => (hR s hs).1⟩

/-- `handleEvent` around what it does with an event that passes the filter. -/
theorem safe_handleEvent {controllers : Controllers} {h : EventFilter} (hR : Kept pool allowed R)
    (hu : ∀ owner s, R s → allowed i (.unlock owner) s)
    (hfilter : Safe pool allowed i (fun _ => R) (h.filter key) P)
    (hprocess : Safe pool allowed i (fun _ => R) (processEvent controllers key) R) :
    Safe pool allowed i (fun _ => R) (handleEvent controllers h key) P := by
  refine Safe.bind hfilter fun a => ?_
  obtain ⟨r,f⟩ := a
  have hlast : ∀ result : Except String Bool, Safe pool allowed i (fun _ => R)
      (f.deferredAction key >>= fun h => (pure (result,h) : M _)) R := by
    intro result
    refine hpool.safe_rest hR (V := fun c => ∃ owner, c = .unlock owner) ?_
      ((deferredAction_unlocks f key).bind fun _ _ => trivial)
    rintro c s ⟨owner,rfl⟩ hs
    exact hu owner s hs
  match r with
  | .error err => exact hlast _
  | .ok false => exact hlast _
  | .ok true => exact Safe.bind hprocess hlast

end Executes

end Maestro
