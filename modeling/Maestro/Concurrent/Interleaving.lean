import Maestro.Concurrent.Program
import Mathlib.Data.DFinsupp.WellFounded
import Mathlib.Data.Fintype.Basic

/-!
# Interleaved programs and rely–guarantee reasoning

A pool of threads over one shared store. A step picks a thread, executes its
next call atomically and leaves the other threads alone, so the runs of a pool
are all interleavings of the calls of its programs.

A proof about a pool says in which stores a thread may make which call, and gives
for each program a chain of assertions, one before each call, that permit the
call and that the permitted calls of other threads keep. `Safe` is that chain,
`Verified.reach` its soundness, and `Verified.invariant` turns what permitted calls
keep into an invariant of the pool.

## Main definitions

- `Config`, `Step`, `Reach` — pools and their interleaved runs
- `Stable`, `Safe` — assertions kept by the other threads, proof outlines
- `Verified` — a configuration in which every thread has an outline
-/

namespace Concurrent

variable {ι σ ω C β γ : Type} {R : C → Type}

/-- A shared store and one program per thread. A finished thread is at `ret`. -/
structure Config (ι σ C : Type) (R : C → Type) (β : Type) where
  shared : σ
  threads : ι → Prog C R β

section Semantics

variable [DecidableEq ι] (exec : ι → ω → (c : C) → σ → Option (R c × σ))

/-- One thread executes its next call under some choice of the environment. -/
inductive Step : Config ι σ C R β → Config ι σ C R β → Prop
  | mk {cfg : Config ι σ C R β} (i : ι) (o : ω) {c : C} {k : R c → Prog C R β} {r : R c} {s : σ}
      (ht : cfg.threads i = .call c k) (hx : exec i o c cfg.shared = some (r,s)) :
      Step cfg ⟨s,Function.update cfg.threads i (k r)⟩

/-- The configurations that some interleaving leads to. -/
def Reach (a b : Config ι σ C R β) : Prop := Relation.ReflTransGen (Step exec) a b

/-- All threads have returned. -/
def Finished (cfg : Config ι σ C R β) : Prop := ∀ i, ∃ a, cfg.threads i = .ret a

omit [DecidableEq ι] in
theorem Finished.of_result {cfg : Config ι σ C R β} (h : ∀ i, (cfg.threads i).result.isSome) :
    Finished cfg := fun i =>
  (Option.isSome_iff_exists.mp (h i)).imp fun _ ha => Prog.result_eq_some.mp ha

/-- Follow a schedule: which thread goes next, and under which choice. -/
def follow : List (ι × ω) → Config ι σ C R β → Option (Config ι σ C R β)
  | [], cfg => some cfg
  | (i,o) :: rest, cfg =>
    match cfg.threads i with
    | .ret _ => none
    | .call c k =>
      match exec i o c cfg.shared with
      | none => none
      | some (r,s) => follow rest ⟨s,Function.update cfg.threads i (k r)⟩

theorem Reach.of_follow {schedule : List (ι × ω)} {cfg cfg' : Config ι σ C R β}
    (h : follow exec schedule cfg = some cfg') : Reach exec cfg cfg' := by
  induction schedule generalizing cfg with
  | nil => cases h; exact .refl
  | cons head rest ih =>
    obtain ⟨i,o⟩ := head
    rw [follow] at h
    split at h
    · cases h
    · next c k ht =>
      split at h
      · cases h
      · next r s hx => exact .head (.mk i o ht hx) (ih h)

theorem Step.of_follow {i : ι} {o : ω} {cfg cfg' : Config ι σ C R β}
    (h : follow exec [(i,o)] cfg = some cfg') : Step exec cfg cfg' := by
  rw [follow] at h
  split at h
  · cases h
  · next c k ht =>
    split at h
    · cases h
    · next r s hx =>
      cases h
      exact .mk i o ht hx

/-- A pool that can do more has all the runs. -/
theorem Reach.mono {exec' : ι → ω → (c : C) → σ → Option (R c × σ)}
    (h : ∀ i o c s r s', exec' i o c s = some (r,s') → exec i o c s = some (r,s'))
    {cfg cfg' : Config ι σ C R β} (hr : Reach exec' cfg cfg') : Reach exec cfg cfg' := by
  refine Relation.ReflTransGen.mono ?_ _ _ hr
  rintro a b ⟨i,o,ht,hx⟩
  exact .mk i o ht (h _ _ _ _ _ _ hx)

/-- A step whose call meets a condition in the configuration that it is made in. -/
inductive StepWhen (guard : Config ι σ C R β → C → Prop) :
    Config ι σ C R β → Config ι σ C R β → Prop
  | mk {cfg : Config ι σ C R β} (i : ι) (o : ω) {c : C} {k : R c → Prog C R β} {r : R c} {s : σ}
      (ht : cfg.threads i = .call c k) (hx : exec i o c cfg.shared = some (r,s))
      (hg : guard cfg c) : StepWhen guard cfg ⟨s,Function.update cfg.threads i (k r)⟩

/-- The configurations that an interleaving of such steps leads to. -/
def ReachWhen (guard : Config ι σ C R β → C → Prop) (a b : Config ι σ C R β) : Prop :=
  Relation.ReflTransGen (StepWhen exec guard) a b

/-- A pool that makes only calls which meet the condition. -/
theorem ReachWhen.of_reach {guard : Config ι σ C R β → C → Prop}
    {exec' : ι → ω → (c : C) → σ → Option (R c × σ)}
    (h : ∀ i o c s r s', exec' i o c s = some (r,s') → exec i o c s = some (r,s'))
    (hg : ∀ i o c s r s', exec' i o c s = some (r,s') → ∀ cfg, cfg.shared = s → guard cfg c)
    {cfg cfg' : Config ι σ C R β} (hr : Reach exec' cfg cfg') : ReachWhen exec guard cfg cfg' := by
  refine Relation.ReflTransGen.mono ?_ _ _ hr
  rintro a b ⟨i,o,ht,hx⟩
  exact .mk i o ht (h _ _ _ _ _ _ hx) (hg _ _ _ _ _ _ hx a rfl)

/-- The execution of only the calls that meet a condition on the store. -/
def restrict (guard : C → σ → Prop) [∀ c s, Decidable (guard c s)] (i : ι) (o : ω) (c : C) (s : σ) :
    Option (R c × σ) :=
  if guard c s then exec i o c s else none

omit [DecidableEq ι] in
theorem restrict_eq_some {guard : C → σ → Prop} [∀ c s, Decidable (guard c s)] {i : ι} {o : ω}
    {c : C} {s : σ} {p : R c × σ} :
    restrict exec guard i o c s = some p ↔ guard c s ∧ exec i o c s = some p := by
  unfold restrict
  split <;> simp_all

/-- The runs in which every call meets a condition on the store. -/
theorem reachWhen_iff {guard : C → σ → Prop} [∀ c s, Decidable (guard c s)]
    {cfg cfg' : Config ι σ C R β} : ReachWhen exec (fun cfg c => guard c cfg.shared) cfg cfg' ↔
      Reach (restrict exec guard) cfg cfg' := by
  constructor
  · refine Relation.ReflTransGen.mono ?_ _ _
    rintro a b ⟨i,o,ht,hx,hg⟩
    exact .mk i o ht ((restrict_eq_some exec).mpr ⟨hg,hx⟩)
  · refine Relation.ReflTransGen.mono ?_ _ _
    rintro a b ⟨i,o,ht,hx⟩
    obtain ⟨hg,hx⟩ := (restrict_eq_some exec).mp hx
    exact .mk i o ht hx hg

/-- Every step moves one thread to a smaller program, so no interleaving of
    finitely many programs goes on forever. -/
theorem step_wellFounded [LinearOrder ι] [Finite ι] :
    WellFounded fun b a : Config ι σ C R β => Step exec a b := by
  have hw : WellFounded (Pi.Lex (· < ·) fun {_ : ι} => (Prog.Next : Prog C R β → _ → Prop)) :=
    Pi.Lex.wellFounded _ fun _ => Prog.next_wellFounded
  refine Subrelation.wf ?_ (InvImage.wf (fun cfg : Config ι σ C R β => cfg.threads) hw)
  rintro b a ⟨i,o,ht,hx⟩
  refine ⟨i,fun j hj => ?_,?_⟩
  · exact Function.update_of_ne (ne_of_lt hj) _ _
  · simp only [Function.update_self]
    exact ⟨_,_,_,ht,rfl⟩

/-- Where unfinished configurations can always step, every run can be completed. -/
theorem exists_finished [LinearOrder ι] [Finite ι] {start : Config ι σ C R β}
    (hp : ∀ cfg, Reach exec start cfg → ¬ Finished cfg → ∃ cfg', Step exec cfg cfg')
    {cfg : Config ι σ C R β} (h : Reach exec start cfg) :
    ∃ cfg', Reach exec cfg cfg' ∧ Finished cfg' := by
  induction cfg using (step_wellFounded exec).induction with
  | _ cfg ih =>
    by_cases hf : Finished cfg
    · exact ⟨cfg,.refl,hf⟩
    · obtain ⟨cfg₁,h₁⟩ := hp cfg h hf
      obtain ⟨cfg₂,h₂,hf₂⟩ := ih cfg₁ h₁ (h.tail h₁)
      exact ⟨cfg₂,.head h₁ h₂,hf₂⟩

/-- The programs of some threads run one after the other, each to its end, and what they
    returned. -/
inductive SerialOrder (prog : ι → Prog C R β) (s₀ : σ) : List (ι × β) → σ → Prop
  | nil : SerialOrder prog s₀ [] s₀
  | snoc {order : List (ι × β)} {s s' : σ} {i : ι} {b : β} (h : SerialOrder prog s₀ order s)
      (env : ℕ → ω) (hx : Prog.eval (exec i) env (prog i) s = some (b,s')) :
      SerialOrder prog s₀ (order ++ [(i,b)]) s'

end Semantics

section Outlines

variable (exec : ι → ω → (c : C) → σ → Option (R c × σ)) (allowed : ι → C → σ → Prop)

/-- No allowed call of another thread falsifies the assertion. -/
def Stable (i : ι) (P : σ → Prop) : Prop :=
  ∀ j, j ≠ i → ∀ o c s r s', allowed j c s → exec j o c s = some (r,s') → P s → P s'

/-- A proof outline for the rest of a thread: from stores with `P` each call is
    allowed and leads to a stable assertion that outlines the continuation; a
    returned result meets `Q`. -/
def Safe (i : ι) (Q : β → σ → Prop) : Prog C R β → (σ → Prop) → Prop
  | .ret a, P => ∀ s, P s → Q a s
  | .call c k, P => ∀ s, P s → allowed i c s ∧ ∀ o r s', exec i o c s = some (r,s') →
      ∃ P', Stable exec allowed i P' ∧ P' s' ∧ Safe i Q (k r) P'

variable {exec allowed} {i : ι}

theorem Stable.and {P P' : σ → Prop} (h : Stable exec allowed i P)
    (h' : Stable exec allowed i P') : Stable exec allowed i fun s => P s ∧ P' s :=
  fun j hj o c s r s' ha hx hp => ⟨h j hj o c s r s' ha hx hp.1,h' j hj o c s r s' ha hx hp.2⟩

theorem Stable.const (p : Prop) : Stable exec allowed i fun _ => p :=
  fun _ _ _ _ _ _ _ _ _ h => h

/-- No allowed call of any thread falsifies the assertion. -/
def Kept (exec : ι → ω → (c : C) → σ → Option (R c × σ)) (allowed : ι → C → σ → Prop)
    (P : σ → Prop) : Prop :=
  ∀ j o c s r s', allowed j c s → exec j o c s = some (r,s') → P s → P s'

theorem Kept.stable {P : σ → Prop} (h : Kept exec allowed P) (i : ι) : Stable exec allowed i P :=
  fun j _ o c s r s' ha hx hp => h j o c s r s' ha hx hp

theorem Kept.and {P P' : σ → Prop} (h : Kept exec allowed P) (h' : Kept exec allowed P') :
    Kept exec allowed fun s => P s ∧ P' s :=
  fun j o c s r s' ha hx hp => ⟨h j o c s r s' ha hx hp.1,h' j o c s r s' ha hx hp.2⟩

theorem Safe.ret {Q : β → σ → Prop} {a : β} {P : σ → Prop} (h : ∀ s, P s → Q a s) :
    Safe exec allowed i Q (.ret a : Prog C R β) P := h

theorem Safe.call {Q : β → σ → Prop} {c : C} {k : R c → Prog C R β} {P : σ → Prop}
    (h : ∀ s, P s → allowed i c s ∧ ∀ o r s', exec i o c s = some (r,s') →
      ∃ P', Stable exec allowed i P' ∧ P' s' ∧ Safe exec allowed i Q (k r) P') :
    Safe exec allowed i Q (.call c k) P := h

theorem Safe.weaken {Q Q' : β → σ → Prop} {p : Prog C R β} {P P' : σ → Prop}
    (h : Safe exec allowed i Q p P) (hP : ∀ s, P' s → P s) (hQ : ∀ a s, Q a s → Q' a s) :
    Safe exec allowed i Q' p P' := by
  induction p generalizing P P' with
  | ret a => exact fun s hp => hQ a s (h s (hP s hp))
  | call c k ih =>
    intro s hp
    obtain ⟨ha,hx⟩ := h s (hP s hp)
    refine ⟨ha,fun o r s' he => ?_⟩
    obtain ⟨P₁,hst,hp₁,hk⟩ := hx o r s' he
    exact ⟨P₁,hst,hp₁,ih r hk (fun _ h => h)⟩

/-- An assertion may be split into cases. -/
theorem Safe.exists {κ : Type} {Q : β → σ → Prop} {p : Prog C R β} {P : κ → σ → Prop}
    (h : ∀ a, Safe exec allowed i Q p (P a)) :
    Safe exec allowed i Q p fun s => ∃ a, P a s := by
  cases p with
  | ret b => exact fun s ⟨a,hs⟩ => h a s hs
  | call c k => exact fun s ⟨a,hs⟩ => h a s hs

/-- What does not depend on the store may be assumed. -/
theorem Safe.of_fact {φ : Prop} {Q : β → σ → Prop} {p : Prog C R β} {P : σ → Prop}
    (h : φ → Safe exec allowed i Q p P) : Safe exec allowed i Q p fun s => φ ∧ P s := by
  cases p with
  | ret b => exact fun s ⟨hφ,hs⟩ => h hφ s hs
  | call c k => exact fun s ⟨hφ,hs⟩ => h hφ s hs

/-- The sequence rule. -/
theorem Safe.bind {p : Prog C R β} {f : β → Prog C R γ} {P : σ → Prop}
    {Q : β → σ → Prop} {Q' : γ → σ → Prop} (hp : Safe exec allowed i Q p P)
    (hf : ∀ a, Safe exec allowed i Q' (f a) (Q a)) : Safe exec allowed i Q' (p >>= f) P := by
  induction p generalizing P with
  | ret a => exact (hf a).weaken hp (fun _ _ h => h)
  | call c k ih =>
    intro s hP
    obtain ⟨ha,hx⟩ := hp s hP
    refine ⟨ha,fun o r s' he => ?_⟩
    obtain ⟨P₁,hst,hp₁,hk⟩ := hx o r s' he
    exact ⟨P₁,hst,hp₁,ih r hk⟩

theorem Safe.map {p : Prog C R β} {f : β → γ} {P : σ → Prop} {Q : β → σ → Prop}
    {Q' : γ → σ → Prop} (hp : Safe exec allowed i Q p P) (hf : ∀ a s, Q a s → Q' (f a) s) :
    Safe exec allowed i Q' (f <$> p) P := by
  rw [← bind_pure_comp]
  exact hp.bind fun a => Safe.ret (hf a)

/-- A program that makes only calls which an assertion allows, where the others keep the
    assertion and its own calls do as well. -/
theorem Safe.of_own {V : (c : C) → R c → Prop} {A : C → Prop} {S : β → Prop}
    (hV : ∀ o c s r s', exec i o c s = some (r,s') → V c r) {P : σ → Prop}
    (hP : Stable exec allowed i P) (hA : ∀ c s, A c → P s → allowed i c s)
    (hown : ∀ o c s r s', A c → exec i o c s = some (r,s') → P s → P s') {p : Prog C R β}
    (hp : p.Calls V A S) : Safe exec allowed i (fun a s => P s ∧ S a) p P := by
  induction p with
  | ret a => exact fun s hs => ⟨hs,hp⟩
  | call c k ih =>
    intro s hs
    refine ⟨hA c s hp.1 hs,fun o r s' hx => ⟨P,hP,hown o c s r s' hp.1 hx hs,?_⟩⟩
    exact ih r (hp.2 r (hV o c s r s' hx))

/-- A program that makes only calls which an assertion allows, where allowed calls keep
    the assertion. -/
theorem Safe.of_calls {V : (c : C) → R c → Prop} {A : C → Prop} {S : β → Prop}
    (hV : ∀ o c s r s', exec i o c s = some (r,s') → V c r) {P : σ → Prop}
    (hP : Kept exec allowed P) (hA : ∀ c s, A c → P s → allowed i c s) {p : Prog C R β}
    (hp : p.Calls V A S) : Safe exec allowed i (fun a s => P s ∧ S a) p P :=
  .of_own hV (hP.stable i) hA (fun o c s r s' hc hx hs => hP i o c s r s' (hA c s hc hs) hx hs) hp

/-- What the threads can call at all may be added to what they are allowed to call. -/
theorem Safe.and_calls {V : (c : C) → R c → Prop} {A : ι → C → Prop} {S : β → Prop}
    (hV : ∀ j o c s r s', exec j o c s = some (r,s') → V c r) {Q : β → σ → Prop}
    {p : Prog C R β} {P : σ → Prop} (h : Safe exec allowed i Q p P) (hp : p.Calls V (A i) S) :
    Safe exec (fun j c s => allowed j c s ∧ A j c) i (fun a s => Q a s ∧ S a) p P := by
  induction p generalizing P with
  | ret a => exact fun s hP => ⟨h s hP,hp⟩
  | call c k ih =>
    intro s hP
    obtain ⟨ha,hx⟩ := h s hP
    refine ⟨⟨ha,hp.1⟩,fun o r s' he => ?_⟩
    obtain ⟨P₁,hst,hp₁,hk⟩ := hx o r s' he
    exact ⟨P₁,fun j hj o c s r s' ha => hst j hj o c s r s' ha.1,hp₁,
      ih r hk (hp.2 r (hV _ _ _ _ _ _ he))⟩

/-- Two outlines of one program under two rules are an outline under both. -/
theorem Safe.and {allowed' : ι → C → σ → Prop} {Q Q' : β → σ → Prop} {p : Prog C R β}
    {P P' : σ → Prop} (h : Safe exec allowed i Q p P) (h' : Safe exec allowed' i Q' p P') :
    Safe exec (fun j c s => allowed j c s ∧ allowed' j c s) i (fun a s => Q a s ∧ Q' a s) p
      fun s => P s ∧ P' s := by
  induction p generalizing P P' with
  | ret a => exact fun s hP => ⟨h s hP.1,h' s hP.2⟩
  | call c k ih =>
    intro s hP
    obtain ⟨ha,hx⟩ := h s hP.1
    obtain ⟨ha',hx'⟩ := h' s hP.2
    refine ⟨⟨ha,ha'⟩,fun o r s' he => ?_⟩
    obtain ⟨P₁,hst,hp,hk⟩ := hx o r s' he
    obtain ⟨P₂,hst',hp',hk'⟩ := hx' o r s' he
    refine ⟨fun s => P₁ s ∧ P₂ s,fun j hj o c s r s' ha hx hs => ?_,⟨hp,hp'⟩,ih r hk hk'⟩
    exact ⟨hst j hj o c s r s' ha.1 hx hs.1,hst' j hj o c s r s' ha.2 hx hs.2⟩

/-- An outline over what `view` shows of a store is an outline over the store. -/
theorem Safe.lift {σ' : Type} {exec' : ι → ω → (c : C) → σ' → Option (R c × σ')}
    {allowed' : ι → C → σ' → Prop} {view : σ' → σ}
    (hexec : ∀ j o c s r s', exec' j o c s = some (r,s') → exec j o c (view s) = some (r,view s'))
    (hdown : ∀ j c s, allowed' j c s → allowed j c (view s))
    (hup : ∀ c s, allowed i c (view s) → allowed' i c s) {Q : β → σ → Prop} {p : Prog C R β}
    {P : σ → Prop} (h : Safe exec allowed i Q p P) :
    Safe exec' allowed' i (fun a s => Q a (view s)) p fun s => P (view s) := by
  induction p generalizing P with
  | ret a => exact fun s hs => h (view s) hs
  | call c k ih =>
    intro s hs
    obtain ⟨ha,hx⟩ := h (view s) hs
    refine ⟨hup c s ha,fun o r s' he => ?_⟩
    obtain ⟨P',hst,hs',hk⟩ := hx o r (view s') (hexec i o c s r s' he)
    refine ⟨_,fun j hj o c s r s' ha' hx' => ?_,hs',ih r hk⟩
    exact hst j hj o c (view s) r (view s') (hdown j c s ha') (hexec j o c s r s' hx')

/-- A program that runs alone ends with its postcondition. -/
theorem Safe.eval {Q : β → σ → Prop} {p : Prog C R β} {P : σ → Prop}
    (h : Safe exec allowed i Q p P) {env : ℕ → ω} {s s' : σ} {a : β} (hs : P s)
    (he : Prog.eval (exec i) env p s = some (a,s')) : Q a s' := by
  induction p generalizing P env s with
  | ret b => cases he; exact h _ hs
  | call c k ih =>
    obtain ⟨r,s₁,hx,hk⟩ := Prog.eval_call.mp he
    obtain ⟨P',-,hs₁,hsafe⟩ := (h s hs).2 _ r s₁ hx
    exact ih r hsafe hs₁ hk

/-- Every thread has an outline whose current assertion holds. -/
def Verified (exec : ι → ω → (c : C) → σ → Option (R c × σ)) (allowed : ι → C → σ → Prop)
    (Q : ι → β → σ → Prop) (cfg : Config ι σ C R β) : Prop :=
  ∀ i, ∃ P, Stable exec allowed i P ∧ P cfg.shared ∧
    Safe exec allowed i (Q i) (cfg.threads i) P

variable {Q : ι → β → σ → Prop} {cfg cfg' : Config ι σ C R β}

theorem Verified.and_calls {V : (c : C) → R c → Prop} {A : ι → C → Prop}
    (hV : ∀ j o c s r s', exec j o c s = some (r,s') → V c r) (h : Verified exec allowed Q cfg)
    (hp : ∀ i, (cfg.threads i).Calls V (A i) fun _ => True) :
    Verified exec (fun j c s => allowed j c s ∧ A j c) Q cfg := by
  intro i
  obtain ⟨P,hst,hP,hs⟩ := h i
  refine ⟨P,fun j hj o c s r s' ha => hst j hj o c s r s' ha.1,hP,?_⟩
  exact (hs.and_calls hV (hp i)).weaken (fun _ h => h) (fun _ _ h => h.1)

theorem Verified.and {allowed' : ι → C → σ → Prop} {Q' : ι → β → σ → Prop}
    (h : Verified exec allowed Q cfg) (h' : Verified exec allowed' Q' cfg) :
    Verified exec (fun j c s => allowed j c s ∧ allowed' j c s) (fun i a s => Q i a s ∧ Q' i a s)
      cfg := by
  intro i
  obtain ⟨P,hst,hP,hs⟩ := h i
  obtain ⟨P',hst',hP',hs'⟩ := h' i
  refine ⟨fun s => P s ∧ P' s,fun j hj o c s r s' ha hx hs => ?_,⟨hP,hP'⟩,hs.and hs'⟩
  exact ⟨hst j hj o c s r s' ha.1 hx hs.1,hst' j hj o c s r s' ha.2 hx hs.2⟩

/-- The next call of a thread is allowed, whether or not it can be executed now. -/
theorem Verified.next (h : Verified exec allowed Q cfg) {c : C} {k : R c → Prog C R β}
    (ht : cfg.threads i = .call c k) : allowed i c cfg.shared := by
  obtain ⟨P,-,hp,hs⟩ := h i
  rw [ht] at hs
  exact (hs _ hp).1

/-- A finished thread's result meets its postcondition, now and later. -/
theorem Verified.result (h : Verified exec allowed Q cfg) {a : β}
    (ha : cfg.threads i = .ret a) : Q i a cfg.shared := by
  obtain ⟨P,-,hp,hs⟩ := h i
  rw [ha] at hs
  exact hs _ hp

variable [DecidableEq ι]

theorem Verified.step (h : Verified exec allowed Q cfg) (hs : Step exec cfg cfg') :
    Verified exec allowed Q cfg' := by
  obtain ⟨i,o,ht,hx⟩ := hs
  have ha := h.next ht
  intro j
  by_cases hj : j = i
  · subst j
    obtain ⟨P,-,hp,hsafe⟩ := h i
    rw [ht] at hsafe
    obtain ⟨P',hst',hp',hk⟩ := (hsafe _ hp).2 o _ _ hx
    exact ⟨P',hst',hp',by simpa only [Function.update_self] using hk⟩
  · obtain ⟨P,hst,hp,hsafe⟩ := h j
    refine ⟨P,hst,hst i (Ne.symm hj) o _ _ _ _ ha hx hp,?_⟩
    simpa only [Function.update_of_ne hj] using hsafe

theorem Verified.reach (h : Verified exec allowed Q cfg) (hr : Reach exec cfg cfg') :
    Verified exec allowed Q cfg' := by
  induction hr with
  | refl => exact h
  | tail _ hs ih => exact ih.step hs

/-- What allowed calls keep holds in every configuration that is reached. -/
theorem Verified.invariant (h : Verified exec allowed Q cfg) {K : σ → Prop}
    (hK : ∀ i o c s r s', allowed i c s → exec i o c s = some (r,s') → K s → K s')
    (hr : Reach exec cfg cfg') (h₀ : K cfg.shared) : K cfg'.shared := by
  induction hr with
  | refl => exact h₀
  | tail hr hs ih =>
    obtain ⟨i,o,ht,hx⟩ := hs
    exact hK i o _ _ _ _ ((h.reach hr).next ht) hx ih

end Outlines

end Concurrent
