import VirtualMachine.Isa.Branching

namespace VirtualMachine

namespace ExecutionContext

/-- The two words that `SUB`, `CMP` and `DEC` subtract. -/
def subtraction? (ctx : ExecutionContext) (instruction : DecodedInstruction) : Option (Word × Word) :=
  match Opcode.ofByte? instruction.opcode with
  | some .SUB => some (ctx.registers.get instruction.rs1, readOperand instruction ctx)
  | some .CMP => some (ctx.registers.get instruction.rs1, readOperand instruction ctx)
  | some .DEC => some (ctx.registers.get instruction.rd, 1)
  | _ => none

end ExecutionContext

/-- The flags tell of the exact difference of two words. -/
structure CpuFlags.Subtracted (flags : CpuFlags) (lhs rhs : Word) : Prop where
  zero : flags.zero = true ↔ lhs = rhs
  sign : flags.sign = true ↔ (lhs - rhs).getLsbD 31 = true
  carry : flags.carry = true ↔ lhs.toNat < rhs.toNat
  overflow : flags.overflow = true ↔ ¬ (-2 ^ 31 ≤ lhs.toInt - rhs.toInt ∧ lhs.toInt - rhs.toInt ≤ 2 ^ 31 - 1)

namespace RegisterFile

variable (registers : RegisterFile) (lhs rhs : Word)

theorem negative_iff_lt (value : Word) : negative value = true ↔ value.toInt < 0 := by
  rw [negative, BitVec.slt_eq_decide, decide_eq_true_eq]
  rfl

theorem negative_eq_getLsbD (value : Word) : negative value = value.getLsbD 31 := by
  exact BitVec.slt_zero_eq_msb.trans (BitVec.msb_eq_getLsbD_last value)

/-- Only operands of different signs can overflow, and they do when the result
does not have the sign of the first one. -/
theorem overflow_iff :
    ((negative lhs != negative rhs) && (negative lhs != negative (lhs - rhs))) = true ↔
      ¬ ExecutionContext.DifferenceFits lhs rhs := by
  have differ : ∀ a b : Bool, (a != b) = true ↔ ¬ (a = true ↔ b = true) := by decide
  have resultSign := ExecutionContext.negative_iff (a := lhs) (b := rhs)
  have lhsLow := BitVec.le_toInt lhs
  have lhsHigh := BitVec.toInt_lt (x := lhs)
  have rhsLow := BitVec.le_toInt rhs
  have rhsHigh := BitVec.toInt_lt (x := rhs)
  have bounds : ExecutionContext.DifferenceFits lhs rhs ↔
      -2 ^ 31 ≤ lhs.toInt - rhs.toInt ∧ lhs.toInt - rhs.toInt < 2 ^ 31 := Iff.rfl
  rw [Bool.and_eq_true, differ, differ, negative_iff_lt, negative_iff_lt, resultSign, bounds]
  omega

theorem subtracted_updateFlagsSub : (registers.updateFlagsSub lhs rhs (lhs - rhs)).flags.Subtracted lhs rhs := by
  refine ⟨?_, ?_, ?_, ?_⟩
  · exact ExecutionContext.zero_iff.trans BitVec.toInt_inj
  · exact Bool.eq_iff_iff.mp (negative_eq_getLsbD (lhs - rhs))
  · exact BitVec.ult_iff_lt.trans BitVec.lt_def
  · refine (overflow_iff lhs rhs).trans (not_congr ?_)
    rw [ExecutionContext.DifferenceFits]
    omega

end RegisterFile

namespace ExecutionContext

variable {ctx : ExecutionContext} {instruction : DecodedInstruction} {lhs rhs : Word}

/-- `SUB`, `CMP` and `DEC` set the flags of the subtraction of their operands,
whichever registers these are and whatever the flags were. -/
theorem subtraction_flags_exact (subtracts : ctx.subtraction? instruction = some (lhs, rhs)) :
    (InstructionRegistry.execute instruction ctx).1 = .ok .Continue ∧
      (InstructionRegistry.execute instruction ctx).2.registers.flags.Subtracted lhs rhs := by
  unfold subtraction? at subtracts
  unfold InstructionRegistry.execute
  split at subtracts
  · rename_i sub
    cases subtracts
    rw [sub]
    exact ⟨rfl, RegisterFile.subtracted_updateFlagsSub _ _ _⟩
  · rename_i cmp
    cases subtracts
    rw [cmp]
    exact ⟨rfl, RegisterFile.subtracted_updateFlagsSub _ _ _⟩
  · rename_i dec
    cases subtracts
    rw [dec]
    exact ⟨rfl, RegisterFile.subtracted_updateFlagsSub _ _ _⟩
  · cases subtracts

/-- `sub r2, 5` on a context where `r2` is one. -/
theorem subtraction_flags_exact_subtractFive :
    extremeOperands.subtraction? subtractFive = some (1, 5) ∧
      (InstructionRegistry.execute subtractFive extremeOperands).2.registers.flags.Subtracted 1 5 :=
  ⟨by decide, (subtraction_flags_exact (by decide)).2⟩

end ExecutionContext

end VirtualMachine
