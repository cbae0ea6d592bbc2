import Mathlib.Tactic.Ring

/-!
# Bit fields of 64-bit IDs

An ID holds a time in its upper 42 bits, a node in the next 10 and a step in the
lower 12. Read as integers the fields are quotients and remainders, so IDs of one
node are ordered by time and then by step.
-/

namespace Data

theorem toInt_timeField (a : Int64) : (a >>> 22).toInt = a.toInt / 4194304 := by
  change (a >>> 22).toBitVec.toInt = a.toBitVec.toInt / _
  rw [Int64.toBitVec_shiftRight,BitVec.sshiftRight',BitVec.toInt_sshiftRight,
    Int.shiftRight_eq_div_pow]
  rfl

theorem toInt_stepField (a : Int64) : (a &&& 4095).toInt = a.toInt % 4096 := by
  change (a &&& 4095).toBitVec.toInt = a.toBitVec.toInt % _
  rw [Int64.toBitVec_and]
  have h : (a.toBitVec &&& (4095 : Int64).toBitVec).toNat = a.toBitVec.toNat % 4096 := by
    rw [BitVec.toNat_and]
    exact Nat.and_two_pow_sub_one_eq_mod _ 12
  have hlt := a.toBitVec.isLt
  rw [BitVec.toInt_eq_toNat_cond,BitVec.toInt_eq_toNat_cond,h]
  split <;> split <;> omega

theorem toInt_nodeField (a : Int64) :
    ((a &&& 4190208) >>> 12).toInt = a.toInt / 4096 % 1024 := by
  change ((a &&& 4190208) >>> 12).toBitVec.toInt = a.toBitVec.toInt / _ % _
  rw [Int64.toBitVec_shiftRight,BitVec.sshiftRight',BitVec.toInt_sshiftRight,Int64.toBitVec_and]
  have hmask : (a.toBitVec &&& (4190208 : Int64).toBitVec).toNat ≤ 4190208 := by
    rw [BitVec.toNat_and]
    exact Nat.and_le_right
  have hfield : (a.toBitVec &&& (4190208 : Int64).toBitVec).toNat >>> 12 =
      a.toBitVec.toNat / 4096 % 1024 := by
    rw [BitVec.toNat_and,Nat.shiftRight_and_distrib,Nat.shiftRight_eq_div_pow]
    exact Nat.and_two_pow_sub_one_eq_mod _ 10
  have hlt := a.toBitVec.isLt
  rw [BitVec.toInt_eq_toNat_cond (a.toBitVec &&& _),if_pos (by omega)]
  change ((_ >>> 12 : ℕ) : ℤ) = _
  rw [hfield,BitVec.toInt_eq_toNat_cond]
  split <;> omega

/-- IDs of one node are ordered by time, then by step. -/
theorem lt_iff_fields {a b : Int64}
    (hnode : (a &&& 4190208) >>> 12 = (b &&& 4190208) >>> 12) :
    a < b ↔ a >>> 22 < b >>> 22 ∨ a >>> 22 = b >>> 22 ∧ a &&& 4095 < b &&& 4095 := by
  have hn := congrArg Int64.toInt hnode
  rw [toInt_nodeField,toInt_nodeField] at hn
  rw [Int64.lt_iff_toInt_lt,Int64.lt_iff_toInt_lt,Int64.lt_iff_toInt_lt,← Int64.toInt_inj,
    toInt_timeField,toInt_timeField,toInt_stepField,toInt_stepField]
  omega

/-- A shift of all times by an epoch keeps their order. -/
theorem timeField_add_lt {a b epoch : Int64} (h₀ : 0 ≤ epoch.toInt)
    (h : epoch.toInt < 2^62) :
    (a >>> 22) + epoch < (b >>> 22) + epoch ↔ a >>> 22 < b >>> 22 := by
  have hbound : ∀ x : Int64, ((x >>> 22) + epoch).toInt = (x >>> 22).toInt + epoch.toInt := by
    intro x
    have hlow := x.le_toInt
    have hhigh := x.toInt_lt
    rw [Int64.toInt_add,toInt_timeField]
    exact Int.bmod_eq_of_le (by omega) (by omega)
  rw [Int64.lt_iff_toInt_lt,Int64.lt_iff_toInt_lt,hbound,hbound]
  omega

end Data
