import Mathlib.Logic.Relation
import Mathlib.Order.WellFounded

/-!
# Programs over an interface of calls

A program is a finite tree of calls to a shared store: each node names one
call and continues with its response. One tree has two readings. `Prog.eval`
runs it alone, from a stream of environment choices; the interleaved reading is
in `Maestro.Concurrent.Interleaving`, where every call is one atomic step.

## Main definitions

- `Prog` — call trees, a monad
- `Prog.eval` — the sequential run under a stream of choices
- `Prog.Calls` — what a program can call and return
- `Serial` — jobs run one after the other
-/

namespace Concurrent

/-- A program that makes calls of type `C`, call `c` answered in `R c`, and returns an `α`. -/
inductive Prog (C : Type) (R : C → Type) (α : Type) : Type
  | ret (a : α)
  | call (c : C) (k : R c → Prog C R α)

namespace Prog

variable {C : Type} {R : C → Type} {α β γ : Type}

/-- Sequencing: graft `f` on every leaf. -/
def bind : Prog C R α → (α → Prog C R β) → Prog C R β
  | ret a, f => f a
  | call c k, f => call c fun r => (k r).bind f

instance : Monad (Prog C R) where
  pure := ret
  bind := bind

/-- The program that makes one call and returns its response. -/
def lift (c : C) : Prog C R (R c) := call c ret

/-- Run `last` after `body` on every path and keep the result of `body`. -/
def deferring (last : Prog C R Unit) (body : Prog C R α) : Prog C R α := do
  let a ← body
  last
  return a

@[simp] theorem pure_eq (a : α) : (pure a : Prog C R α) = ret a := rfl

@[simp] theorem ret_bind (a : α) (f : α → Prog C R β) : (ret a : Prog C R α) >>= f = f a := rfl

@[simp] theorem call_bind (c : C) (k : R c → Prog C R α) (f : α → Prog C R β) :
    call c k >>= f = call c fun r => k r >>= f := rfl

@[simp] theorem lift_bind (c : C) (f : R c → Prog C R β) :
    (lift c : Prog C R (R c)) >>= f = call c f := rfl

theorem bind_ret (p : Prog C R α) : p >>= ret = p := by
  induction p with
  | ret a => rfl
  | call c k ih => rw [call_bind]; exact congrArg (call c) (funext ih)

theorem bind_assoc (p : Prog C R α) (f : α → Prog C R β) (g : β → Prog C R γ) :
    p >>= f >>= g = p >>= fun a => f a >>= g := by
  induction p with
  | ret a => rfl
  | call c k ih => rw [call_bind,call_bind,call_bind]; exact congrArg (call c) (funext ih)

instance : LawfulMonad (Prog C R) :=
  LawfulMonad.mk' (Prog C R) bind_ret (fun _ _ => rfl) bind_assoc

@[simp] theorem deferring_ret (last : Prog C R Unit) (a : α) :
    deferring last (ret a) = last >>= fun _ => ret a := rfl

@[simp] theorem deferring_call (last : Prog C R Unit) (c : C) (k : R c → Prog C R α) :
    deferring last (call c k) = call c fun r => deferring last (k r) := rfl

@[simp] theorem map_ret (f : α → β) (a : α) : f <$> (ret a : Prog C R α) = ret (f a) := rfl

@[simp] theorem map_call (f : α → β) (c : C) (k : R c → Prog C R α) :
    f <$> call c k = call c fun r => f <$> k r := rfl

/-- The program makes only calls with `P` and returns only results with `Q`, as long
    as every call `c` is answered within `V c`. -/
def Calls (V : (c : C) → R c → Prop) (P : C → Prop) (Q : α → Prop) : Prog C R α → Prop
  | ret a => Q a
  | call c k => P c ∧ ∀ r, V c r → (k r).Calls V P Q

section Calls

variable {V : (c : C) → R c → Prop} {P P' : C → Prop} {Q Q' : α → Prop}

theorem Calls.bind {S : β → Prop} {p : Prog C R α} {f : α → Prog C R β} (hp : p.Calls V P Q)
    (hf : ∀ a, Q a → (f a).Calls V P S) : (p >>= f).Calls V P S := by
  induction p with
  | ret a => exact hf a hp
  | call c k ih => exact ⟨hp.1,fun r hr => ih r (hp.2 r hr)⟩

theorem Calls.map {S : β → Prop} {p : Prog C R α} {f : α → β} (hp : p.Calls V P Q)
    (hf : ∀ a, Q a → S (f a)) : (f <$> p).Calls V P S := by
  rw [← bind_pure_comp]
  exact hp.bind hf

theorem Calls.mono {p : Prog C R α} (hp : p.Calls V P Q) (h : ∀ c, P c → P' c)
    (hQ : ∀ a, Q a → Q' a) : p.Calls V P' Q' := by
  induction p with
  | ret a => exact hQ a hp
  | call c k ih => exact ⟨h c hp.1,fun r hr => ih r (hp.2 r hr)⟩

theorem Calls.trivial (p : Prog C R α) : p.Calls V (fun _ => True) fun _ => True := by
  induction p with
  | ret a => exact True.intro
  | call c k ih => exact ⟨True.intro,fun r _ => ih r⟩

theorem Calls.deferring {last : Prog C R Unit} {p : Prog C R α} (hp : p.Calls V P Q)
    (hl : last.Calls V P fun _ => True) : (Prog.deferring last p).Calls V P Q :=
  hp.bind fun _ ha => hl.bind fun _ _ => ha

theorem Calls.lift {c : C} {Q : R c → Prop} (hc : P c) (h : ∀ r, V c r → Q r) :
    (Prog.lift c : Prog C R (R c)).Calls V P Q :=
  ⟨hc,h⟩

theorem Calls.lift_bind {c : C} {f : R c → Prog C R α} (hc : P c)
    (hf : ∀ r, V c r → (f r).Calls V P Q) : (Prog.lift c >>= f).Calls V P Q :=
  ⟨hc,hf⟩

end Calls

/-- The result of a program that has returned. -/
def result : Prog C R α → Option α
  | ret a => some a
  | call _ _ => none

theorem result_eq_some {p : Prog C R α} {a : α} : p.result = some a ↔ p = ret a := by
  cases p <;> simp [result]

/-- The call that a program makes next. -/
def pending : Prog C R α → Option C
  | ret _ => none
  | call c _ => some c

theorem pending_eq_some {p : Prog C R α} {c : C} : p.pending = some c ↔ ∃ k, p = call c k := by
  cases p with
  | ret a => simp [pending]
  | call c' k =>
    simp only [pending,Option.some.injEq]
    refine ⟨fun h => ?_,fun ⟨k',h⟩ => (call.inj h).1⟩
    subst h
    exact ⟨k,rfl⟩

/-- One call of a program away: the continuation after some response. -/
def Next (q p : Prog C R α) : Prop := ∃ c k r, p = call c k ∧ q = k r

/-- Programs are finite trees, so no program can be continued forever. -/
theorem next_wellFounded : WellFounded (Next : Prog C R α → Prog C R α → Prop) := by
  refine ⟨fun p => ?_⟩
  induction p with
  | ret a => exact ⟨_,fun q ⟨c,k,r,he,_⟩ => by cases he⟩
  | call c k ih =>
    refine ⟨_,?_⟩
    rintro q ⟨c',k',r,he,rfl⟩
    cases he
    exact ih r

section Sequential

variable {σ ω : Type} (exec : ω → (c : C) → σ → Option (R c × σ))

/-- Run a program alone: the `n`-th call is executed under the `n`-th choice of
    the environment. `none` is a call that cannot be executed. -/
def eval : (ℕ → ω) → Prog C R α → σ → Option (α × σ)
  | _, ret a, s => some (a,s)
  | env, call c k, s =>
    match exec (env 0) c s with
    | none => none
    | some (r,s') => eval (fun n => env (n+1)) (k r) s'

/-- The calls that a program makes when it runs alone. -/
def trace : (ℕ → ω) → Prog C R α → σ → List C
  | _, ret _, _ => []
  | env, call c k, s => c :: match exec (env 0) c s with
    | none => []
    | some (r,s') => trace (fun n => env (n+1)) (k r) s'

variable {exec}

theorem eval_ret {a b : α} {env : ℕ → ω} {s s' : σ} :
    eval exec env (ret a) s = some (b,s') ↔ b = a ∧ s' = s := by
  constructor
  · intro h
    cases h
    exact ⟨rfl,rfl⟩
  · rintro ⟨rfl,rfl⟩
    rfl

theorem eval_call {c : C} {k : R c → Prog C R α} {env : ℕ → ω} {s s' : σ} {a : α} :
    eval exec env (call c k) s = some (a,s') ↔ ∃ r s₁, exec (env 0) c s = some (r,s₁) ∧
      eval exec (fun n => env (n+1)) (k r) s₁ = some (a,s') := by
  rw [eval]
  cases exec (env 0) c s with
  | none => simp
  | some p => obtain ⟨r,s₁⟩ := p; simp

theorem eval_lift {c : C} {env : ℕ → ω} {s s' : σ} {r : R c} :
    eval exec env (lift c) s = some (r,s') ↔ exec (env 0) c s = some (r,s') := by
  refine eval_call.trans ⟨?_,fun hx => ⟨r,s',hx,rfl⟩⟩
  rintro ⟨r',s₁,hx,hr⟩
  obtain ⟨rfl,rfl⟩ := eval_ret.mp hr
  exact hx

theorem eval_lift_bind {c : C} {f : R c → Prog C R α} {env : ℕ → ω} {s s' : σ} {a : α} :
    eval exec env (lift c >>= f) s = some (a,s') ↔ ∃ r s₁, exec (env 0) c s = some (r,s₁) ∧
      eval exec (fun n => env (n+1)) (f r) s₁ = some (a,s') :=
  eval_call

/-- The program can make the call, where every call `c` is answered within `V c`. -/
inductive Makes (V : (c : C) → R c → Prop) (c : C) : Prog C R α → Prop
  | here (k : R c → Prog C R α) : Makes V c (call c k)
  | later {c' : C} {k : R c' → Prog C R α} (r : R c') : V c' r → Makes V c (k r) →
    Makes V c (call c' k)

theorem Makes.of_calls {V : (c : C) → R c → Prop} {P : C → Prop} {Q : α → Prop} {c : C}
    {p : Prog C R α} (h : p.Makes V c) (hp : p.Calls V P Q) : P c := by
  induction h with
  | here k => exact hp.1
  | later r hr _ ih => exact ih (hp.2 r hr)

theorem makes_of_mem_trace {V : (c : C) → R c → Prop}
    (hV : ∀ ch c s r s', exec ch c s = some (r,s') → V c r) {c : C} {p : Prog C R α}
    {env : ℕ → ω} {s : σ} (h : c ∈ trace exec env p s) : p.Makes V c := by
  induction p generalizing env s with
  | ret a => cases h
  | call c' k ih =>
    rw [trace] at h
    rcases List.mem_cons.mp h with rfl | h
    · exact .here k
    · split at h
      · cases h
      · next r s' hr => exact .later r (hV _ _ _ _ _ hr) (ih r h)

/-- The rest of a sequence is evaluated under the choices that its first part left. -/
theorem eval_bind {p : Prog C R α} {f : α → Prog C R β} {env : ℕ → ω} {s s' : σ} {b : β}
    (h : eval exec env (p >>= f) s = some (b,s')) : ∃ a s₁ m, eval exec env p s = some (a,s₁) ∧
      eval exec (fun n => env (n+m)) (f a) s₁ = some (b,s') := by
  induction p generalizing env s with
  | ret a => exact ⟨a,s,0,rfl,h⟩
  | call c k ih =>
    obtain ⟨r,s₁,hx,hk⟩ := eval_call.mp h
    obtain ⟨a,s₂,m,hp,hf⟩ := ih r hk
    refine ⟨a,s₂,m+1,eval_call.mpr ⟨r,s₁,hx,hp⟩,?_⟩
    simpa only [Nat.add_assoc,Nat.add_comm m] using hf

/-- The counterpart of `eval_bind` for a first part that is known. -/
theorem eval_bind_of {p : Prog C R α} {env : ℕ → ω} {s s₁ : σ} {a : α}
    (h : eval exec env p s = some (a,s₁)) : ∃ m, ∀ {β : Type} (f : α → Prog C R β),
      eval exec env (p >>= f) s = eval exec (fun n => env (n+m)) (f a) s₁ := by
  induction p generalizing env s with
  | ret b =>
    obtain ⟨rfl,rfl⟩ := eval_ret.mp h
    exact ⟨0,fun f => rfl⟩
  | call c k ih =>
    obtain ⟨r,s₂,hx,hk⟩ := eval_call.mp h
    obtain ⟨m,hm⟩ := ih r hk
    refine ⟨m+1,fun f => ?_⟩
    simpa only [call_bind,eval,hx,Nat.add_assoc,Nat.add_comm m] using hm f

theorem eval_map {p : Prog C R α} {f : α → β} {env : ℕ → ω} {s s' : σ} {b : β}
    (h : eval exec env (f <$> p) s = some (b,s')) :
    ∃ a, eval exec env p s = some (a,s') ∧ b = f a := by
  rw [← bind_pure_comp] at h
  obtain ⟨a,s₁,m,hp,hr⟩ := eval_bind h
  obtain ⟨rfl,rfl⟩ := eval_ret.mp hr
  exact ⟨a,hp,rfl⟩

/-- `last` is evaluated after the body, which gives the result. -/
theorem eval_deferring {last : Prog C R Unit} {p : Prog C R α} {env : ℕ → ω} {s s' : σ} {a : α}
    (h : eval exec env (deferring last p) s = some (a,s')) :
    ∃ s₁ m, eval exec env p s = some (a,s₁) ∧
      eval exec (fun n => env (n+m)) last s₁ = some ((),s') := by
  obtain ⟨b,s₁,m,hb,hl⟩ := eval_bind h
  obtain ⟨u,s₂,m',hu,hr⟩ := eval_bind hl
  obtain ⟨rfl,rfl⟩ := eval_ret.mp hr
  exact ⟨s₁,m,hb,hu⟩

/-- An invariant that every call of the program keeps holds after each of its evaluations. -/
theorem eval_invariant {V : (c : C) → R c → Prop} {P : C → Prop} {S : α → Prop} {I : σ → Prop}
    (hstep : ∀ o c s r s', P c → exec o c s = some (r,s') → I s → V c r ∧ I s')
    {p : Prog C R α} (hp : p.Calls V P S) {env : ℕ → ω} {s s' : σ} {a : α} (hI : I s)
    (h : eval exec env p s = some (a,s')) : S a ∧ I s' := by
  induction p generalizing env s with
  | ret b => cases h; exact ⟨hp,hI⟩
  | call c k ih =>
    obtain ⟨r,s₁,hx,hk⟩ := eval_call.mp h
    obtain ⟨hv,hI₁⟩ := hstep _ _ _ _ _ hp.1 hx hI
    exact ih r (hp.2 r hv) hI₁ hk

/-- Two stores that every call of the program keeps related, with equal
    responses, are kept related by its evaluations under equal choices. -/
theorem eval_rel {exec' : ω → (c : C) → σ → Option (R c × σ)} {V : (c : C) → R c → Prop}
    {P : C → Prop} {S : α → Prop} {B : σ → σ → Prop}
    (hstep : ∀ o c s t r r' s' t', P c → B s t → exec o c s = some (r,s') →
      exec' o c t = some (r',t') → V c r ∧ r = r' ∧ B s' t')
    {p : Prog C R α} (hp : p.Calls V P S) {env : ℕ → ω} {s t s' t' : σ}
    {a b : α} (hB : B s t) (hs : eval exec env p s = some (a,s'))
    (ht : eval exec' env p t = some (b,t')) : a = b ∧ B s' t' := by
  induction p generalizing env s t with
  | ret x => cases hs; cases ht; exact ⟨rfl,hB⟩
  | call c k ih =>
    obtain ⟨r,s₁,hx,hk⟩ := eval_call.mp hs
    obtain ⟨r',t₁,hy,hk'⟩ := eval_call.mp ht
    obtain ⟨hv,rfl,hB'⟩ := hstep _ _ _ _ _ _ _ _ hp.1 hB hx hy
    exact ih r (hp.2 r hv) hB' hk hk'

end Sequential

end Prog

section Serial

variable {C : Type} {R : C → Type} {σ ω τ ρ : Type}

/-- Jobs run one after the other from `s₀`, each admitted by `ok` in the store that
    it finds. The `n`-th job runs in session `n`. -/
inductive Serial (exec : ℕ → ω → (c : C) → σ → Option (R c × σ)) (prog : τ → Prog C R ρ)
    (env : τ → ℕ → ω) (ok : σ → τ → Prop) (s₀ : σ) : List τ → σ → Prop
  | nil : Serial exec prog env ok s₀ [] s₀
  | snoc {jobs : List τ} {s s' : σ} {job : τ} {r : ρ} (hs : Serial exec prog env ok s₀ jobs s)
      (hok : ok s job)
      (hx : Prog.eval (exec jobs.length) (env job) (prog job) s = some (r,s')) :
      Serial exec prog env ok s₀ (jobs ++ [job]) s'

/-- Run a list of jobs as far as each is admitted and can be executed. -/
def serialRun (exec : ℕ → ω → (c : C) → σ → Option (R c × σ)) (prog : τ → Prog C R ρ)
    (env : τ → ℕ → ω) (ok : σ → τ → Bool) : ℕ → List τ → σ → Option σ
  | _, [], s => some s
  | n, job :: jobs, s =>
    if ok s job then
      match Prog.eval (exec n) (env job) (prog job) s with
      | none => none
      | some (_,s') => serialRun exec prog env ok (n+1) jobs s'
    else none

theorem Serial.of_run {exec : ℕ → ω → (c : C) → σ → Option (R c × σ)} {prog : τ → Prog C R ρ}
    {env : τ → ℕ → ω} {ok : σ → τ → Bool} {s₀ s s' : σ} {done jobs : List τ}
    (hs : Serial exec prog env (fun s job => ok s job) s₀ done s)
    (h : serialRun exec prog env ok done.length jobs s = some s') :
    Serial exec prog env (fun s job => ok s job) s₀ (done ++ jobs) s' := by
  induction jobs generalizing done s with
  | nil => cases h; simpa using hs
  | cons job jobs ih =>
    rw [serialRun] at h
    split at h
    · next hok =>
      split at h
      · cases h
      · next r s₁ hx =>
        have hl : (done ++ [job]).length = done.length + 1 := by simp
        simpa using ih (hs.snoc hok hx) (hl ▸ h)
    · cases h

/-- Two runs that differ only in hidden jobs stay related when a hidden job of either
    side keeps the stores related, and so does a visible job run on both sides. -/
theorem Serial.rel {exec : ℕ → ω → (c : C) → σ → Option (R c × σ)} {prog : τ → Prog C R ρ}
    {env : τ → ℕ → ω} {ok : σ → τ → Prop} {hidden : τ → Bool} {B : σ → σ → Prop}
    (hsymm : ∀ s t, B s t → B t s)
    (hhidden : ∀ n job s t r s', hidden job → ok s job → B s t →
      Prog.eval (exec n) (env job) (prog job) s = some (r,s') → B s' t)
    (hvisible : ∀ n m job s t r r' s' t', hidden job = false → ok s job → ok t job → B s t →
      Prog.eval (exec n) (env job) (prog job) s = some (r,s') →
      Prog.eval (exec m) (env job) (prog job) t = some (r',t') → B s' t')
    {s₀ s s' : σ} {jobs jobs' : List τ} (h₀ : B s₀ s₀)
    (h : Serial exec prog env ok s₀ jobs s) (h' : Serial exec prog env ok s₀ jobs' s')
    (he : jobs.filter (!hidden ·) = jobs'.filter (!hidden ·)) : B s s' := by
  induction h generalizing jobs' s' with
  | nil =>
    induction h' with
    | nil => exact h₀
    | @snoc jobs' t t' job r _ hok hx ih =>
      simp only [List.filter_nil,List.filter_append,List.nil_eq,List.append_eq_nil_iff] at he ih
      have hj : hidden job := by simpa using he.2
      exact hsymm _ _ (hhidden _ _ _ _ _ _ hj hok (hsymm _ _ (ih he.1)) hx)
  | @snoc jobs s s₁ job r hs hok hx ih =>
    by_cases hj : hidden job
    · exact hhidden _ _ _ _ _ _ hj hok (ih h' (by simpa [hj] using he)) hx
    · -- a visible job: the other run has it too, perhaps followed by hidden ones
      have hj : hidden job = false := by simpa using hj
      induction h' with
      | nil => simp [hj] at he
      | @snoc jobs' t t' job' r' ht hok' hx' ih' =>
        by_cases hj' : hidden job'
        · have hB := ih' (by simpa [hj'] using he)
          exact hsymm _ _ (hhidden _ _ _ _ _ _ hj' hok' (hsymm _ _ hB) hx')
        · have hj' : hidden job' = false := by simpa using hj'
          simp only [List.filter_append,List.filter_cons,hj,hj',Bool.not_false,if_true,
            List.filter_nil] at he
          obtain ⟨hpre,hlast⟩ := List.append_inj' he rfl
          cases hlast
          exact hvisible _ _ _ _ _ _ _ _ _ hj hok hok' (ih ht hpre) hx hx'

end Serial

end Concurrent
