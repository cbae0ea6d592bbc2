import Mathlib.Algebra.BigOperators.Intervals
import Mathlib.Data.Int.GCD
import Mathlib.Data.Nat.Find
import Mathlib.Tactic.Ring

/-!
# Loops

A loop is a step that goes on with a new state or leaves with a result. Where the states of the
loop are known in advance as a sequence, its result is that of the first step that leaves.
`int32` is the arithmetic of the counters that such a loop keeps; a counter that goes round visits
the same values in every cycle.
-/

namespace Data

variable {σ ρ : Type}

/-- The loop, for at most so many steps. -/
def loop (step : σ → σ ⊕ ρ) : ℕ → σ → Option ρ
  | 0,_ => none
  | n+1,s =>
    match step s with
    | .inl s => loop step n s
    | .inr r => some r

/-- The states of a loop and what its steps leave with. -/
structure Trajectory (step : σ → σ ⊕ ρ) (s : ℕ → σ) (out : ℕ → Option ρ) : Prop where
  goes : ∀ k, out k = none → step (s k) = .inl (s (k+1))
  leaves : ∀ k r, out k = some r → step (s k) = .inr r

namespace Trajectory

variable {step : σ → σ ⊕ ρ} {s : ℕ → σ} {out : ℕ → Option ρ}

theorem shift (h : Trajectory step s out) :
    Trajectory step (fun k => s (k+1)) (fun k => out (k+1)) :=
  ⟨fun k => h.goes (k+1),fun k => h.leaves (k+1)⟩

theorem loop_eq_some (h : Trajectory step s out) {n : ℕ} {r : ρ} :
    loop step n (s 0) = some r ↔ ∃ k < n, out k = some r ∧ ∀ j < k, out j = none := by
  induction n generalizing s out with
  | zero => simp [loop]
  | succ n ih =>
    cases h₀ : out 0 with
    | some r₀ =>
      simp only [loop,h.leaves 0 r₀ h₀,Option.some.injEq]
      constructor
      · rintro rfl
        exact ⟨0,Nat.succ_pos n,h₀,by simp⟩
      · rintro ⟨k,-,hk,hbefore⟩
        cases k with
        | zero => exact Option.some.inj (h₀.symm.trans hk)
        | succ k => simp [hbefore 0 (Nat.succ_pos k)] at h₀
    | none =>
      simp only [loop,h.goes 0 h₀]
      rw [ih h.shift]
      constructor
      · rintro ⟨k,hk,hr,hbefore⟩
        refine ⟨k+1,Nat.succ_lt_succ hk,hr,fun j hj => ?_⟩
        cases j with
        | zero => exact h₀
        | succ j => exact hbefore j (Nat.lt_of_succ_lt_succ hj)
      · rintro ⟨k,hk,hr,hbefore⟩
        cases k with
        | zero => simp [h₀] at hr
        | succ k =>
          exact ⟨k,Nat.lt_of_succ_lt_succ hk,hr,fun j hj => hbefore (j+1) (Nat.succ_lt_succ hj)⟩

/-- The loop ends if and only if some step leaves. -/
theorem loop_ends (h : Trajectory step s out) :
    (∃ n, (loop step n (s 0)).isSome) ↔ ∃ k, (out k).isSome := by
  simp only [Option.isSome_iff_exists,h.loop_eq_some]
  constructor
  · rintro ⟨n,r,k,-,hr,-⟩
    exact ⟨k,r,hr⟩
  · intro hex
    classical
    obtain ⟨r,hr⟩ := Nat.find_spec hex
    refine ⟨Nat.find hex+1,r,Nat.find hex,Nat.lt_succ_self _,hr,fun j hj => ?_⟩
    have hj := Nat.find_min hex hj
    exact Option.eq_none_iff_forall_ne_some.mpr fun r hr => hj ⟨r,hr⟩

end Trajectory

/-- Conversion to a signed number of 32 bits. -/
@[irreducible] def int32 (n : ℤ) : ℤ := (n + 2147483648) % 4294967296 - 2147483648

@[simp] theorem int32_zero : int32 0 = 0 := by simp [int32]

theorem int32_of_range {n : ℤ} (h₁ : -2147483648 ≤ n) (h₂ : n < 2147483648) : int32 n = n := by
  rw [int32]
  omega

theorem int32_natCast {n : ℕ} (h : n < 2147483648) : int32 n = n :=
  int32_of_range (by omega) (by omega)

theorem int32_range (n : ℤ) : -2147483648 ≤ int32 n ∧ int32 n < 2147483648 := by
  rw [int32]
  omega

theorem int32_eq_iff {a b : ℤ} : int32 a = int32 b ↔ (4294967296 : ℤ) ∣ a - b := by
  rw [int32,int32]
  omega

@[simp] theorem int32_add_int32 (a b : ℤ) : int32 (a + int32 b) = int32 (a + b) := by
  simp only [int32]
  omega

@[simp] theorem int32_int32_add (a b : ℤ) : int32 (int32 a + b) = int32 (a + b) := by
  simp only [int32]
  omega

@[simp] theorem int32_int32 (a : ℤ) : int32 (int32 a) = int32 a := by
  simp only [int32]
  omega

/-- The multiples of `a` reach, however far out, every residue that the divisors allow. -/
theorem exists_mul_residue {a N : ℕ} (hN : 0 < N) {m : ℤ} (h : (Nat.gcd a N : ℤ) ∣ m) (b : ℕ) :
    ∃ j, b ≤ j ∧ (N : ℤ) ∣ a * j - m := by
  obtain ⟨c,rfl⟩ := h
  rw [Nat.gcd_eq_gcd_ab]
  generalize Nat.gcdA a N = x, Nat.gcdB a N = y
  have hpos : 0 ≤ x * c % N := Int.emod_nonneg _ (by omega)
  have hdiv := Int.emod_add_mul_ediv (x * c) N
  refine ⟨(x * c % N).toNat + N * b,?_,?_⟩
  · exact (Nat.le_mul_of_pos_left b hN).trans (Nat.le_add_left _ _)
  · refine ⟨a * b - a * (x * c / N) - y * c,?_⟩
    push_cast
    rw [Int.toNat_of_nonneg hpos,eq_sub_of_add_eq hdiv]
    ring

/-- The sum over some cycles and the even beginning of the next one. -/
theorem sum_cycles {f : ℕ → ℕ} {M R s : ℕ} (hf : ∀ i, f (i + M) = f i) (hR : ∀ i < R, f i = s)
    (c : ℕ) {j : ℕ} (hj : j ≤ R) :
    ∑ i ∈ Finset.range (c * M + j), f i = c * ∑ i ∈ Finset.range M, f i + j * s := by
  have hcycle : ∀ c i, f (c * M + i) = f i := by
    intro c
    induction c with
    | zero => simp
    | succ c ih =>
      intro i
      rw [show (c+1) * M + i = c * M + i + M by ring,hf,ih]
  have hcycles : ∀ c, ∑ i ∈ Finset.range (c * M), f i = c * ∑ i ∈ Finset.range M, f i := by
    intro c
    induction c with
    | zero => simp
    | succ c ih =>
      rw [Nat.succ_mul,Finset.sum_range_add,ih]
      simp only [hcycle]
      ring
  have hstart : ∑ i ∈ Finset.range j, f i = j * s := by
    rw [Finset.sum_congr rfl fun i hi => hR i ((Finset.mem_range.mp hi).trans_le hj)]
    simp
  rw [Finset.sum_range_add,hcycles]
  simp only [hcycle,hstart]

end Data
