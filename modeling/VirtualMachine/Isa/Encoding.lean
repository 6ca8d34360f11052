import VirtualMachine.Types

namespace VirtualMachine

theorem getLsbD_shiftedByte (byte : Byte) (shift i : Nat) (bound : i < 32) :
    ((byte.setWidth 32 : Word) <<< shift).getLsbD i = (decide (shift ≤ i) && byte.getLsbD (i - shift)) := by
  have inside : i - shift < 32 := by omega
  rw [BitVec.getLsbD_shiftLeft, BitVec.getLsbD_setWidth]
  by_cases below : i < shift
  · simp [below, Nat.not_le.mpr below]
  · simp [below, Nat.le_of_not_lt below, bound, inside]

theorem getLsbD_nibble (field : Byte) (i : Nat) :
    (field &&& 0x0F).getLsbD i = (decide (i < 4) && field.getLsbD i) := by
  have low : ∀ i, i < 8 → (0x0F : Byte).getLsbD i = decide (i < 4) := by decide
  rw [BitVec.getLsbD_and]
  by_cases inByte : i < 8
  · rw [low i inByte, Bool.and_comm]
  · rw [BitVec.getLsbD_of_ge field i (by omega)]
    simp

/-- Every bit of an encoded word, by the field it belongs to. -/
theorem getLsbD_encodeInstruction (opcode rd rs1 rs2 : Byte) (imm : BitVec 16) (i : Nat) (bound : i < 32) :
    (encodeInstruction opcode rd rs1 rs2 imm).getLsbD i =
      ((decide (24 ≤ i) && opcode.getLsbD (i - 24)) ||
        (decide (20 ≤ i) && (decide (i - 20 < 4) && rd.getLsbD (i - 20))) ||
        (decide (16 ≤ i) && (decide (i - 16 < 4) && rs1.getLsbD (i - 16))) ||
        (decide (12 ≤ i) && (decide (i - 12 < 4) && rs2.getLsbD (i - 12))) ||
        ((imm.signExtend 32).getLsbD i && decide (i < 12))) := by
  have low : ∀ i, i < 32 → (0x0FFF : Word).getLsbD i = decide (i < 12) := by decide
  simp only [encodeInstruction, BitVec.getLsbD_or, getLsbD_shiftedByte _ _ i bound, getLsbD_nibble]
  rw [BitVec.getLsbD_and, low i bound]

section Fields

variable (opcode rd rs1 rs2 : Byte) (imm : BitVec 16)

@[simp] theorem decode_encode_opcode :
    (decodeInstruction (encodeInstruction opcode rd rs1 rs2 imm)).opcode = opcode := by
  rw [decodeInstruction_opcode]
  apply BitVec.eq_of_getLsbD_eq
  intro i bound
  rw [BitVec.getLsbD_extractLsb', getLsbD_encodeInstruction _ _ _ _ _ _ (by omega)]
  simp [show ¬ 24 + i < 12 by omega, show ¬ 24 + i - 20 < 4 by omega, show ¬ 24 + i - 16 < 4 by omega,
    show ¬ 24 + i - 12 < 4 by omega, bound]

@[simp] theorem decode_encode_rd :
    (decodeInstruction (encodeInstruction opcode rd rs1 rs2 imm)).rd = rd.setWidth 4 := by
  rw [decodeInstruction_rd]
  apply BitVec.eq_of_getLsbD_eq
  intro i bound
  rw [BitVec.getLsbD_extractLsb', getLsbD_encodeInstruction _ _ _ _ _ _ (by omega), BitVec.getLsbD_setWidth]
  simp [show ¬ 20 + i < 12 by omega, show ¬ 24 ≤ 20 + i by omega, show ¬ 20 + i - 16 < 4 by omega,
    show ¬ 20 + i - 12 < 4 by omega, bound]

@[simp] theorem decode_encode_rs1 :
    (decodeInstruction (encodeInstruction opcode rd rs1 rs2 imm)).rs1 = rs1.setWidth 4 := by
  rw [decodeInstruction_rs1]
  apply BitVec.eq_of_getLsbD_eq
  intro i bound
  rw [BitVec.getLsbD_extractLsb', getLsbD_encodeInstruction _ _ _ _ _ _ (by omega), BitVec.getLsbD_setWidth]
  simp [show ¬ 16 + i < 12 by omega, show ¬ 24 ≤ 16 + i by omega, show ¬ 20 ≤ 16 + i by omega,
    show ¬ 16 + i - 12 < 4 by omega, bound]

@[simp] theorem decode_encode_rs2 :
    (decodeInstruction (encodeInstruction opcode rd rs1 rs2 imm)).rs2 = rs2.setWidth 4 := by
  rw [decodeInstruction_rs2]
  apply BitVec.eq_of_getLsbD_eq
  intro i bound
  rw [BitVec.getLsbD_extractLsb', getLsbD_encodeInstruction _ _ _ _ _ _ (by omega), BitVec.getLsbD_setWidth]
  simp [show ¬ 12 + i < 12 by omega, show ¬ 24 ≤ 12 + i by omega, show ¬ 20 ≤ 12 + i by omega,
    show ¬ 16 ≤ 12 + i by omega, bound]

/-- The immediate comes back as the sign extension of its twelve low bits. -/
@[simp] theorem decode_encode_imm :
    (decodeInstruction (encodeInstruction opcode rd rs1 rs2 imm)).imm = (imm.setWidth 12).signExtend 16 := by
  have field : (encodeInstruction opcode rd rs1 rs2 imm).extractLsb' 0 12 = imm.setWidth 12 := by
    apply BitVec.eq_of_getLsbD_eq
    intro i bound
    rw [BitVec.getLsbD_extractLsb', getLsbD_encodeInstruction _ _ _ _ _ _ (by omega), BitVec.getLsbD_setWidth,
      BitVec.getLsbD_signExtend]
    simp [show ¬ 24 ≤ i by omega, show ¬ 20 ≤ i by omega, show ¬ 16 ≤ i by omega, show ¬ 12 ≤ i by omega,
      show i < 16 by omega, show i < 32 by omega, bound]
  rw [decodeInstruction_imm, field]

end Fields

/-- A field that fits four bits loses nothing in a decoded instruction. -/
theorem setWidth_nibble {field : Byte} (fits : field.toNat < 16) : (field.setWidth 4).setWidth 8 = field := by
  apply BitVec.eq_of_toNat_eq
  rw [BitVec.toNat_setWidth, BitVec.toNat_setWidth]
  omega

/-- An immediate of the documented range is the sign extension of its twelve low bits. -/
theorem signExtend_low_imm {imm : BitVec 16} (low : -2048 ≤ imm.toInt) (high : imm.toInt ≤ 2047) :
    (imm.setWidth 12).signExtend 16 = imm := by
  have value : (imm.setWidth 12).toInt = imm.toInt := by
    have unsigned := BitVec.toInt_eq_toNat_bmod imm
    have bounded := imm.isLt
    rw [BitVec.toInt_eq_toNat_bmod, BitVec.toNat_setWidth, Int.bmod_def]
    rw [Int.bmod_def] at unsigned
    omega
  apply BitVec.eq_of_toInt_eq
  rw [BitVec.toInt_signExtend_of_le (by decide), value]

/-- A decoded instruction, encoded again. -/
def DecodedInstruction.encode (instruction : DecodedInstruction) : Word :=
  encodeInstruction instruction.opcode (instruction.rd.setWidth 8) (instruction.rs1.setWidth 8)
    (instruction.rs2.setWidth 8) instruction.imm

theorem encode_decodeInstruction (raw : Word) : (decodeInstruction raw).encode = raw := by
  apply BitVec.eq_of_getLsbD_eq
  intro i bound
  simp only [DecodedInstruction.encode, getLsbD_encodeInstruction _ _ _ _ _ i bound, decodeInstruction_opcode,
    decodeInstruction_rd, decodeInstruction_rs1, decodeInstruction_rs2, decodeInstruction_imm, BitVec.getLsbD_setWidth,
    BitVec.getLsbD_extractLsb', BitVec.getLsbD_signExtend, bound, decide_true, Bool.true_and]
  -- Each bit comes from the one field it belongs to.
  rcases (by omega : i < 12 ∨ 12 ≤ i ∧ i < 16 ∨ 16 ≤ i ∧ i < 20 ∨ 20 ≤ i ∧ i < 24 ∨ 24 ≤ i) with
    imm | rs2 | rs1 | rd | opcode
  · simp [imm, show ¬ 12 ≤ i by omega, show ¬ 16 ≤ i by omega, show ¬ 20 ≤ i by omega, show ¬ 24 ≤ i by omega,
      show i < 16 by omega]
  · simp [rs2.1, show 12 + (i - 12) = i by omega, show ¬ i < 12 by omega, show i - 12 < 4 by omega,
      show ¬ 16 ≤ i by omega, show ¬ 20 ≤ i by omega, show ¬ 24 ≤ i by omega, show i - 12 < 8 by omega]
  · simp [rs1.1, show 16 + (i - 16) = i by omega, show ¬ i < 12 by omega, show ¬ i - 12 < 4 by omega,
      show i - 16 < 4 by omega, show ¬ 20 ≤ i by omega, show ¬ 24 ≤ i by omega, show i - 16 < 8 by omega]
  · simp [rd.1, show 20 + (i - 20) = i by omega, show ¬ i < 12 by omega, show ¬ i - 12 < 4 by omega,
      show ¬ i - 16 < 4 by omega, show i - 20 < 4 by omega, show ¬ 24 ≤ i by omega, show i - 20 < 8 by omega]
  · simp [opcode, show 24 + (i - 24) = i by omega, show ¬ i < 12 by omega, show ¬ i - 12 < 4 by omega,
      show ¬ i - 16 < 4 by omega, show ¬ i - 20 < 4 by omega, show i - 24 < 8 by omega]

/-- Encoding and decoding are inverse to each other on the fields of the
instruction format, and no two words decode to the same instruction. -/
theorem encoding_bijective :
    (∀ (opcode rd rs1 rs2 : Byte) (imm : BitVec 16), rd.toNat < 16 → rs1.toNat < 16 → rs2.toNat < 16 →
        -2048 ≤ imm.toInt → imm.toInt ≤ 2047 →
        (decodeInstruction (encodeInstruction opcode rd rs1 rs2 imm)).opcode = opcode ∧
          (decodeInstruction (encodeInstruction opcode rd rs1 rs2 imm)).rd.setWidth 8 = rd ∧
          (decodeInstruction (encodeInstruction opcode rd rs1 rs2 imm)).rs1.setWidth 8 = rs1 ∧
          (decodeInstruction (encodeInstruction opcode rd rs1 rs2 imm)).rs2.setWidth 8 = rs2 ∧
          (decodeInstruction (encodeInstruction opcode rd rs1 rs2 imm)).imm = imm) ∧
      (∀ raw : Word, (decodeInstruction raw).encode = raw) ∧ Function.Injective decodeInstruction := by
  refine ⟨?_, encode_decodeInstruction, ?_⟩
  · intro opcode rd rs1 rs2 imm rdFits rs1Fits rs2Fits low high
    rw [decode_encode_opcode, decode_encode_rd, decode_encode_rs1, decode_encode_rs2, decode_encode_imm]
    exact ⟨rfl, setWidth_nibble rdFits, setWidth_nibble rs1Fits, setWidth_nibble rs2Fits, signExtend_low_imm low high⟩
  · intro left right same
    have encoded := congrArg DecodedInstruction.encode same
    rwa [encode_decodeInstruction, encode_decodeInstruction] at encoded

/-- `jl` to -7, with all fields in use. -/
theorem encoding_bijective_jump :
    (decodeInstruction (encodeInstruction 18 1 2 3 (-7))).opcode = 18 ∧
      (decodeInstruction (encodeInstruction 18 1 2 3 (-7))).rd.setWidth 8 = (1 : Byte) ∧
      (decodeInstruction (encodeInstruction 18 1 2 3 (-7))).rs1.setWidth 8 = (2 : Byte) ∧
      (decodeInstruction (encodeInstruction 18 1 2 3 (-7))).rs2.setWidth 8 = (3 : Byte) ∧
      (decodeInstruction (encodeInstruction 18 1 2 3 (-7))).imm = -7 :=
  encoding_bijective.1 18 1 2 3 (-7) (by decide) (by decide) (by decide) (by decide) (by decide)

end VirtualMachine
