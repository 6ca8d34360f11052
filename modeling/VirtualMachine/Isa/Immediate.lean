import VirtualMachine.Isa.Encoding

namespace VirtualMachine

/-- The immediate as the handlers of the registry widen it. -/
def signedField (imm : BitVec 16) : Word := ((imm.setWidth 12).signExtend 16).signExtend 32

/-- The immediate as `CALL` widens it, by a cast to `std::uint16_t`. -/
def unsignedField (imm : BitVec 16) : Word := ((imm.setWidth 12).signExtend 16).setWidth 32

/-- The twelve low bits of the immediate, as a 16-bit number in two's complement. -/
theorem signExtend_field_toNat (imm : BitVec 16) :
    ((imm.setWidth 12).signExtend 16).toNat =
      if imm.toNat % 4096 < 2048 then imm.toNat % 4096 else imm.toNat % 4096 + 61440 := by
  have bounded : imm.toNat % 4096 < 4096 := Nat.mod_lt _ (by decide)
  have sign : (imm.setWidth 12).msb = decide (2048 ≤ imm.toNat % 4096) := by
    rw [BitVec.msb_eq_decide, BitVec.toNat_setWidth]
  rw [BitVec.toNat_signExtend, sign, BitVec.toNat_setWidth, BitVec.toNat_setWidth]
  by_cases low : imm.toNat % 4096 < 2048
  · have positive : ¬ 2048 ≤ imm.toNat % 4096 := by omega
    simp only [low, positive, decide_false, if_true, Bool.false_eq_true, if_false]
    omega
  · have negative : 2048 ≤ imm.toNat % 4096 := by omega
    simp only [low, negative, decide_true, if_true, if_false]
    omega

/-- Widened with their sign, the upper half of the twelve-bit numbers comes out just
below 2 to the power of 32, -/
theorem signedField_toNat (imm : BitVec 16) :
    (signedField imm).toNat =
      if imm.toNat % 4096 < 2048 then imm.toNat % 4096 else imm.toNat % 4096 + 4294963200 := by
  have field := signExtend_field_toNat imm
  have sign : ((imm.setWidth 12).signExtend 16).msb = decide (2 ^ 15 ≤ ((imm.setWidth 12).signExtend 16).toNat) :=
    BitVec.msb_eq_decide _
  rw [signedField, BitVec.toNat_signExtend, sign, BitVec.toNat_setWidth]
  by_cases low : imm.toNat % 4096 < 2048
  · rw [if_pos low] at field ⊢
    have positive : ¬ 2 ^ 15 ≤ ((imm.setWidth 12).signExtend 16).toNat := by omega
    rw [decide_eq_false positive, if_neg Bool.false_ne_true, field]
    omega
  · rw [if_neg low] at field ⊢
    have negative : 2 ^ 15 ≤ ((imm.setWidth 12).signExtend 16).toNat := by omega
    rw [decide_eq_true negative, field, if_pos rfl]
    omega

/-- and just below 2 to the power of 16 for `CALL`. -/
theorem unsignedField_toNat (imm : BitVec 16) :
    (unsignedField imm).toNat =
      if imm.toNat % 4096 < 2048 then imm.toNat % 4096 else imm.toNat % 4096 + 61440 := by
  have field := signExtend_field_toNat imm
  have bounded := ((imm.setWidth 12).signExtend 16).isLt
  rw [unsignedField, BitVec.toNat_setWidth, Nat.mod_eq_of_lt (by omega), field]

variable {value target : Address}

/-- An address comes back as a target with its low twelve bits, if the target
is the sign extension of any. -/
theorem signedField_eq_iff :
    signedField (value.setWidth 16) = target ↔
      target.toNat % 4096 = value.toNat % 4096 ∧ (target.toNat < 2048 ∨ 4294965248 ≤ target.toNat) := by
  have bounded := target.isLt
  have low : (value.setWidth 16).toNat % 4096 = value.toNat % 4096 := by
    rw [BitVec.toNat_setWidth]
    omega
  rw [← BitVec.toNat_inj, signedField_toNat, low]
  by_cases small : value.toNat % 4096 < 2048
  · rw [if_pos small]
    omega
  · rw [if_neg small]
    omega

/-- The same for `CALL`, where the upper half lies elsewhere. -/
theorem unsignedField_eq_iff :
    unsignedField (value.setWidth 16) = target ↔
      target.toNat % 4096 = value.toNat % 4096 ∧ (target.toNat < 2048 ∨ 63488 ≤ target.toNat ∧
        target.toNat < 65536) := by
  have low : (value.setWidth 16).toNat % 4096 = value.toNat % 4096 := by
    rw [BitVec.toNat_setWidth]
    omega
  rw [← BitVec.toNat_inj, unsignedField_toNat, low]
  by_cases small : value.toNat % 4096 < 2048
  · rw [if_pos small]
    omega
  · rw [if_neg small]
    omega

variable {n : Int}

theorem toNat_ofInt_mod (n : Int) : ((BitVec.ofInt 16 n).toNat % 4096 : Int) = n % 4096 := by
  rw [BitVec.toNat_ofInt]
  omega

/-- A number comes back as itself from the field if it has twelve bits. -/
theorem toInt_signedField_iff : (signedField (BitVec.ofInt 16 n)).toInt = n ↔ -2048 ≤ n ∧ n ≤ 2047 := by
  have low := toNat_ofInt_mod n
  have value := signedField_toNat (BitVec.ofInt 16 n)
  rw [BitVec.toInt_eq_toNat_cond]
  by_cases small : (BitVec.ofInt 16 n).toNat % 4096 < 2048
  · rw [if_pos small] at value
    rw [if_pos (by omega)]
    omega
  · rw [if_neg small] at value
    rw [if_neg (by omega)]
    omega

/-- An offset comes back as itself if it is below 2048, or one of the highest 2048
addresses. -/
theorem toNat_signedField_iff : ((signedField (BitVec.ofInt 16 n)).toNat : Int) = n ↔
    0 ≤ n ∧ n < 2048 ∨ 4294965248 ≤ n ∧ n < 4294967296 := by
  have low := toNat_ofInt_mod n
  have value := signedField_toNat (BitVec.ofInt 16 n)
  by_cases small : (BitVec.ofInt 16 n).toNat % 4096 < 2048
  · rw [if_pos small] at value
    omega
  · rw [if_neg small] at value
    omega

theorem toNat_unsignedField_iff : ((unsignedField (BitVec.ofInt 16 n)).toNat : Int) = n ↔
    0 ≤ n ∧ n < 2048 ∨ 63488 ≤ n ∧ n < 65536 := by
  have low := toNat_ofInt_mod n
  have value := unsignedField_toNat (BitVec.ofInt 16 n)
  by_cases small : (BitVec.ofInt 16 n).toNat % 4096 < 2048
  · rw [if_pos small] at value
    omega
  · rw [if_neg small] at value
    omega

end VirtualMachine
