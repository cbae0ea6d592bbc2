import Maestro.Concurrent.Interleaving

/-!
# Programs over an extended interface

A program over the calls `C` is a program over the calls `C ⊕ D` that makes none of the
new ones. What it can call is what it could call before.
-/

namespace Concurrent.Prog

variable {C D : Type} {R : C → Type} {S : D → Type} {α β : Type}

/-- The program with its calls as calls of the sum. -/
def inl : Prog C R α → Prog (C ⊕ D) (Sum.elim R S) α
  | ret a => ret a
  | call c k => call (.inl c) fun r => (k r).inl

@[simp] theorem inl_ret (a : α) : (ret a : Prog C R α).inl (S := S) = ret a := rfl

@[simp] theorem inl_call (c : C) (k : R c → Prog C R α) :
    (call c k).inl (S := S) = call (.inl c) fun r => (k r).inl := rfl

theorem inl_bind (p : Prog C R α) (f : α → Prog C R β) :
    (p >>= f).inl (S := S) = p.inl >>= fun a => (f a).inl := by
  induction p with
  | ret a => rfl
  | call c k ih => rw [call_bind,inl_call,inl_call,call_bind]; exact congrArg _ (funext ih)

theorem Calls.inl {V : (c : C) → R c → Prop} {P : C → Prop} {Q : α → Prop}
    {W : (c : C ⊕ D) → Sum.elim R S c → Prop} {P' : C ⊕ D → Prop} {p : Prog C R α}
    (hp : p.Calls V P Q) (hW : ∀ c (r : R c), W (.inl c) r → V c r)
    (hP : ∀ c, P c → P' (.inl c)) : (p.inl (S := S)).Calls W P' Q := by
  induction p with
  | ret a => exact hp
  | call c k ih => exact ⟨hP c hp.1,fun r hr => ih r (hp.2 r (hW c r hr))⟩

end Concurrent.Prog

namespace Concurrent

variable {ι σ σ' ω ω' C D β : Type} {R : C → Type} {S : D → Type}

/-- An outline over what `view` shows of a store, which the new calls leave alone. -/
theorem Safe.inl {exec : ι → ω → (c : C) → σ → Option (R c × σ)} {allowed : ι → C → σ → Prop}
    {exec' : ι → ω' → (c : C ⊕ D) → σ' → Option (Sum.elim R S c × σ')}
    {allowed' : ι → C ⊕ D → σ' → Prop} (view : σ' → σ) {i : ι}
    (hexec : ∀ j o c s (r : R c) s', exec' j o (.inl c) s = some (r,s') →
      ∃ o', exec j o' c (view s) = some (r,view s'))
    (hquiet : ∀ j o d s (r : S d) s', exec' j o (.inr d) s = some (r,s') → view s' = view s)
    (hdown : ∀ j c s, allowed' j (.inl c) s → allowed j c (view s))
    (hup : ∀ c s, allowed i c (view s) → allowed' i (.inl c) s) {Q : β → σ → Prop}
    {p : Prog C R β} {P : σ → Prop} (h : Safe exec allowed i Q p P) :
    Safe exec' allowed' i (fun a s => Q a (view s)) (p.inl : Prog (C ⊕ D) (Sum.elim R S) β)
      fun s => P (view s) := by
  induction p generalizing P with
  | ret a => exact fun s hs => h (view s) hs
  | call c k ih =>
    intro s hs
    obtain ⟨ha,hx⟩ := h (view s) hs
    refine ⟨hup c s ha,fun o r s' he => ?_⟩
    obtain ⟨o',he⟩ := hexec i o c s r s' he
    obtain ⟨P',hst,hs',hk⟩ := hx o' r (view s') he
    refine ⟨_,fun j hj o c s r s' ha' hx' hp => ?_,hs',ih r hk⟩
    cases c with
    | inl c =>
      obtain ⟨o',hx'⟩ := hexec j o c s r s' hx'
      exact hst j hj o' c (view s) r (view s') (hdown j c s ha') hx' hp
    | inr d => exact (hquiet j o d s r s' hx').symm ▸ hp

end Concurrent
