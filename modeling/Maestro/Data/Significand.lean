import Mathlib.Algebra.Order.Ring.Abs
import Mathlib.Algebra.Order.Ring.Int
import Mathlib.Data.Nat.Log
import Mathlib.Tactic.Linarith
import Mathlib.Tactic.Ring

/-!
# Integers with a bounded number of significant bits

The integers that a floating-point format with `p` bits of significand holds, and the rounding
of an integer to the nearest of them. Of two that are equally near, the rounding takes the one
that is an even multiple of their distance.
-/

namespace Data

/-- The integer has at most `p` significant bits. -/
def Fits (p : ℕ) (n : ℤ) : Prop := ∃ (m : ℤ) (k : ℕ), n = m * 2 ^ k ∧ |m| < 2 ^ p

/-- `r` is the nearest integer to `n` with at most `p` significant bits, ties to even. -/
structure RoundsTo (p : ℕ) (n r : ℤ) : Prop where
  fits : Fits p r
  nearest : ∀ m, Fits p m → |n - r| ≤ |n - m|
  even : ∀ m, Fits p m → m ≠ r → |n - m| = |n - r| → 2 * |r - m| ∣ r

section Spec

variable {p : ℕ} {n r : ℤ}

/-- What has few enough bits is kept, and nothing else. -/
theorem RoundsTo.eq_iff (h : RoundsTo p n r) : r = n ↔ Fits p n := by
  refine ⟨fun he => he ▸ h.fits,fun hn => ?_⟩
  have hle := h.nearest n hn
  rw [sub_self,abs_zero] at hle
  have hzero : n - r = 0 := abs_eq_zero.mp (le_antisymm hle (abs_nonneg _))
  omega

/-- Rounding does not leave a symmetric range whose end has few enough bits. -/
theorem RoundsTo.bounded (h : RoundsTo p n r) {b : ℤ} (hb : Fits p b) (hn : |n| ≤ b) :
    |r| ≤ b := by
  have hneg : Fits p (-b) := by
    obtain ⟨m,k,rfl,hm⟩ := hb
    exact ⟨-m,k,by ring,by rwa [abs_neg]⟩
  obtain ⟨hlow,hhigh⟩ := abs_le.mp hn
  have habove := h.nearest b hb
  have hbelow := h.nearest (-b) hneg
  rw [abs_of_nonpos (by omega : n - b ≤ 0)] at habove
  rw [abs_of_nonneg (by omega : 0 ≤ n - -b)] at hbelow
  have h₁ := (abs_le.mp habove).1
  have h₂ := (abs_le.mp hbelow).2
  exact abs_le.mpr ⟨by omega,by omega⟩

end Spec

/-- The factor of the multiple of `d` next to `n`; of two that are equally near, the even one. -/
def nearestFactor (n d : ℤ) : ℤ :=
  if 2 * (n % d) < d ∨ 2 * (n % d) = d ∧ n / d % 2 = 0 then n / d else n / d + 1

/-- The distance between two integers with `p` significant bits near `n`. -/
def spacing (p : ℕ) (n : ℤ) : ℤ := 2 ^ (n.natAbs.log2 + 1 - p)

/-- The nearest integer with at most `p` significant bits, ties to even. -/
def roundBits (p : ℕ) (n : ℤ) : ℤ := nearestFactor n (spacing p n) * spacing p n

section Multiples

variable {n d c b : ℤ}

theorem nearestFactor_cases (n d : ℤ) :
    (2 * (n % d) ≤ d ∧ n - nearestFactor n d * d = n % d ∧
        (2 * (n % d) = d → nearestFactor n d % 2 = 0)) ∨
      (d ≤ 2 * (n % d) ∧ n - nearestFactor n d * d = n % d - d ∧
        (2 * (n % d) = d → nearestFactor n d % 2 = 0)) := by
  have hdiv : n / d * d + n % d = n := Int.ediv_mul_add_emod n d
  unfold nearestFactor
  split
  · next h => exact Or.inl ⟨by omega,by omega,fun he => by omega⟩
  · next h =>
    refine Or.inr ⟨by omega,?_,fun he => by omega⟩
    rw [add_mul]
    omega

theorem nearestFactor_near (hd : 0 < d) : 2 * |n - nearestFactor n d * d| ≤ d := by
  have hpos := Int.emod_nonneg n hd.ne'
  have hlt := Int.emod_lt_of_pos n hd
  rcases nearestFactor_cases n d with ⟨hle,he,-⟩ | ⟨hge,he,-⟩
  · rw [he,abs_of_nonneg hpos]
    exact hle
  · rw [he,abs_of_nonpos (by omega)]
    omega

theorem nearestFactor_even (hd : 0 < d) (h : 2 * |n - nearestFactor n d * d| = d) :
    nearestFactor n d % 2 = 0 := by
  have hpos := Int.emod_nonneg n hd.ne'
  have hlt := Int.emod_lt_of_pos n hd
  rcases nearestFactor_cases n d with ⟨-,he,heven⟩ | ⟨-,he,heven⟩
  · rw [he,abs_of_nonneg hpos] at h
    exact heven h
  · rw [he,abs_of_nonpos (by omega)] at h
    exact heven (by omega)

/-- Two multiples are at least one spacing apart, so a multiple within half of it is nearest. -/
theorem gap_le (hd : 0 < d) (h : b ≠ c) : d ≤ |n - c * d| + |n - b * d| := by
  have hone : 1 ≤ |b - c| := Int.one_le_abs (sub_ne_zero.mpr h)
  calc d ≤ |b - c| * d := le_mul_of_one_le_left hd.le hone
    _ = |(n - c * d) - (n - b * d)| := by
      rw [← abs_of_pos hd,← abs_mul,abs_of_pos hd]
      congr 1
      ring
    _ ≤ |n - c * d| + |n - b * d| := abs_sub _ _

theorem multiple_nearest (hd : 0 < d) (hc : 2 * |n - c * d| ≤ d) (b : ℤ) :
    |n - c * d| ≤ |n - b * d| := by
  by_cases h : b = c
  · rw [h]
  · have hgap := @gap_le n d c b hd h
    omega

/-- Two multiples that are equally near are neighbours, on both sides of the middle. -/
theorem multiple_tie (hd : 0 < d) (hc : 2 * |n - c * d| ≤ d) (hne : b ≠ c)
    (h : |n - b * d| = |n - c * d|) : 2 * |n - c * d| = d ∧ |c * d - b * d| = d := by
  have hgap := @gap_le n d c b hd hne
  have hhalf : 2 * |n - c * d| = d := by omega
  refine ⟨hhalf,?_⟩
  rcases abs_eq_abs.mp h with he | he
  · have hmul : b * d = c * d := by omega
    exact absurd (mul_right_cancel₀ hd.ne' hmul) hne
  · have hdouble : c * d - b * d = -(2 * (n - c * d)) := by omega
    rw [hdouble,abs_neg,abs_mul,abs_two]
    exact hhalf

end Multiples

section Round

variable {p : ℕ} {n m : ℤ}

theorem spacing_pos (p : ℕ) (n : ℤ) : 0 < spacing p n := by
  unfold spacing
  positivity

theorem abs_lt_spacing (p : ℕ) (n : ℤ) : |n| < 2 ^ p * spacing p n := by
  have hlt : n.natAbs < 2 ^ (n.natAbs.log2 + 1) := Nat.lt_log2_self
  have hle : 2 ^ (n.natAbs.log2 + 1) ≤ 2 ^ (p + (n.natAbs.log2 + 1 - p)) :=
    Nat.pow_le_pow_right (by decide) (by omega)
  rw [Int.abs_eq_natAbs,spacing,← pow_add]
  exact_mod_cast hlt.trans_le hle

/-- Numbers that are no multiples of the spacing are nearer to zero than every number with the
leading bit of `n`. -/
theorem Fits.dvd_or (hp : 0 < p) (h : Fits p m) :
    spacing p n ∣ m ∨ |m| < 2 ^ (p - 1) * spacing p n ∧ 2 ^ (p - 1) * spacing p n ≤ |n| := by
  obtain ⟨a,j,rfl,ha⟩ := h
  unfold spacing
  by_cases hj : n.natAbs.log2 + 1 - p ≤ j
  · exact Or.inl (Dvd.dvd.mul_left (pow_dvd_pow 2 hj) a)
  · right
    constructor
    · calc |a * 2 ^ j| = |a| * 2 ^ j := by rw [abs_mul,abs_of_pos (by positivity : (0 : ℤ) < 2 ^ j)]
        _ < 2 ^ p * 2 ^ j := by gcongr
        _ = 2 ^ (p + j) := (pow_add 2 p j).symm
        _ ≤ 2 ^ (p - 1 + (n.natAbs.log2 + 1 - p)) := pow_le_pow_right₀ (by decide) (by omega)
        _ = 2 ^ (p - 1) * 2 ^ (n.natAbs.log2 + 1 - p) := pow_add _ _ _
    · have hne : n.natAbs ≠ 0 := by
        intro hz
        rw [hz] at hj
        have hlog : Nat.log2 0 = 0 := by decide
        omega
      have hexp : p - 1 + (n.natAbs.log2 + 1 - p) = n.natAbs.log2 := by omega
      rw [← pow_add,hexp,Int.abs_eq_natAbs]
      exact_mod_cast Nat.log2_self_le hne

theorem roundBits_fits (hp : 0 < p) (n : ℤ) : Fits p (roundBits p n) := by
  have hd := spacing_pos p n
  have hnear := nearestFactor_near (n := n) hd
  have hlt := abs_lt_spacing p n
  unfold roundBits
  generalize nearestFactor n (spacing p n) = c at hnear ⊢
  have hc : |c| ≤ 2 ^ p := by
    by_contra hgt
    have hmul : (2 ^ p + 1) * spacing p n ≤ |c| * spacing p n :=
      mul_le_mul_of_nonneg_right (by omega) hd.le
    have htri : |c * spacing p n| ≤ |n| + |n - c * spacing p n| := by
      have h := abs_sub n (n - c * spacing p n)
      rwa [sub_sub_cancel] at h
    rw [abs_mul,abs_of_pos hd] at htri
    rw [add_mul,one_mul] at hmul
    omega
  rcases hc.lt_or_eq with hlt | heq
  · exact ⟨c,_,rfl,hlt⟩
  · -- the carry into the next binade
    have hone : (1 : ℤ) < 2 ^ p := one_lt_pow₀ (by decide) (by omega)
    have hpos : |(2 : ℤ) ^ p| = 2 ^ p := abs_of_pos (by positivity)
    rcases abs_eq_abs.mp (heq.trans hpos.symm) with rfl | rfl
    · exact ⟨1,p + (n.natAbs.log2 + 1 - p),by rw [spacing,pow_add,one_mul],by simpa using hone⟩
    · exact ⟨-1,p + (n.natAbs.log2 + 1 - p),by rw [spacing,pow_add]; ring,by simpa using hone⟩

/-- What is no multiple of the spacing is farther than the rounded number. -/
theorem roundBits_lt (hm : |m| < 2 ^ (p - 1) * spacing p n)
    (hn : 2 ^ (p - 1) * spacing p n ≤ |n|) : |n - roundBits p n| < |n - m| := by
  have hd := spacing_pos p n
  have hnear := multiple_nearest hd (nearestFactor_near (n := n) hd)
  have hsub : |n| - |m| ≤ |n - m| := abs_sub_abs_le_abs_sub n m
  rcases le_total 0 n with hpos | hneg
  · have h := hnear (2 ^ (p - 1))
    rw [abs_of_nonneg hpos] at hn hsub
    rw [abs_of_nonneg (a := n - 2 ^ (p - 1) * spacing p n) (by omega)] at h
    exact h.trans_lt (by omega)
  · have h := hnear (-2 ^ (p - 1))
    rw [abs_of_nonpos hneg] at hn hsub
    rw [neg_mul,sub_neg_eq_add,abs_of_nonpos (a := n + 2 ^ (p - 1) * spacing p n) (by omega)] at h
    exact h.trans_lt (by omega)

theorem roundBits_roundsTo (hp : 0 < p) (n : ℤ) : RoundsTo p n (roundBits p n) := by
  have hd := spacing_pos p n
  have hnear := nearestFactor_near (n := n) hd
  refine ⟨roundBits_fits hp n,fun m hm => ?_,fun m hm hne he => ?_⟩
  · rcases hm.dvd_or (n := n) hp with ⟨b,rfl⟩ | ⟨hlt,hle⟩
    · rw [mul_comm]
      exact multiple_nearest hd hnear b
    · exact (roundBits_lt hlt hle).le
  · rcases hm.dvd_or (n := n) hp with ⟨b,rfl⟩ | ⟨hlt,hle⟩
    · rw [mul_comm (spacing p n) b] at hne he ⊢
      have hbc : b ≠ nearestFactor n (spacing p n) := fun h => hne (by rw [h,roundBits])
      obtain ⟨hhalf,hgap⟩ := multiple_tie hd hnear hbc he
      have heven : 2 ∣ nearestFactor n (spacing p n) :=
        Int.dvd_of_emod_eq_zero (nearestFactor_even hd hhalf)
      rw [roundBits,hgap]
      exact mul_dvd_mul_right heven _
    · exact absurd he (roundBits_lt hlt hle).ne'

end Round

/-- The first integer with 54 significant bits is half way between two with 53. -/
example : roundBits 53 (2 ^ 53 + 1) = 2 ^ 53 ∧ roundBits 53 (2 ^ 53 + 3) = 2 ^ 53 + 4 := by
  decide +kernel

end Data
