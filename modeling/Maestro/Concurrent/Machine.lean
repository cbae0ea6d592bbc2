import Mathlib.Data.List.Basic

/-!
# Machines

A system whose actions are enabled in some of its states. Where the parties of a system loop for
ever, their control points are part of the state and one action is one step of one party, so that a
run is a list of actions and every interleaving is a run.
-/

namespace Concurrent

/-- `step a s` is the state after the action, `none` where the action is not enabled. -/
structure Machine (σ α : Type) where
  step : α → σ → Option σ

namespace Machine

variable {σ α : Type} (m : Machine σ α)

def run : List α → σ → Option σ
  | [],s => some s
  | a :: acts,s => (m.step a s).bind (run acts)

variable {m}

theorem run_cons {a : α} {acts : List α} {s s' : σ} :
    m.run (a :: acts) s = some s' ↔ ∃ s₁, m.step a s = some s₁ ∧ m.run acts s₁ = some s' :=
  Option.bind_eq_some_iff

theorem run_append {acts acts' : List α} {s s₁ : σ} (h : m.run acts s = some s₁) :
    m.run (acts ++ acts') s = m.run acts' s₁ := by
  induction acts generalizing s with
  | nil => cases h; rfl
  | cons a acts ih =>
    obtain ⟨s₂,hs,hr⟩ := run_cons.mp h
    rw [List.cons_append,run,hs]
    exact ih hr

/-- What every step keeps, a run keeps. -/
theorem invariant {P : σ → Prop} (hstep : ∀ a s s', m.step a s = some s' → P s → P s')
    {acts : List α} {s s' : σ} (h : m.run acts s = some s') (hs : P s) : P s' := by
  induction acts generalizing s with
  | nil => cases h; exact hs
  | cons a acts ih =>
    obtain ⟨s₁,hs₁,hr⟩ := run_cons.mp h
    exact ih hr (hstep a s s₁ hs₁ hs)

/-- Some run of the actions in `A` ends in a state with `Q`. -/
def CanReach (m : Machine σ α) (A : α → Prop) (Q : σ → Prop) (s : σ) : Prop :=
  ∃ acts s', (∀ a ∈ acts, A a) ∧ m.run acts s = some s' ∧ Q s'

variable {A : α → Prop} {P Q : σ → Prop} {s : σ}

theorem CanReach.here (h : Q s) : m.CanReach A Q s := ⟨[],s,by simp,rfl,h⟩

theorem CanReach.after {a : α} {s₁ : σ} (ha : A a) (hs : m.step a s = some s₁)
    (h : m.CanReach A Q s₁) : m.CanReach A Q s := by
  obtain ⟨acts,s',hacts,hr,hq⟩ := h
  refine ⟨a :: acts,s',?_,run_cons.mpr ⟨s₁,hs,hr⟩,hq⟩
  exact List.forall_mem_cons.mpr ⟨ha,hacts⟩

theorem CanReach.trans (h : m.CanReach A P s) (h' : ∀ s₁, P s₁ → m.CanReach A Q s₁) :
    m.CanReach A Q s := by
  obtain ⟨acts,s₁,hacts,hr,hp⟩ := h
  obtain ⟨acts',s',hacts',hr',hq⟩ := h' s₁ hp
  refine ⟨acts ++ acts',s',?_,(run_append hr).trans hr',hq⟩
  exact List.forall_mem_append.mpr ⟨hacts,hacts'⟩

end Machine

end Concurrent
