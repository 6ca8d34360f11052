import VirtualMachine.Isa.Encoding
import VirtualMachine.Isa.Effect

namespace VirtualMachine

namespace ExecutionContext

/-- The instruction subtracts and sets all four flags. -/
def Compares (instruction : DecodedInstruction) : Prop :=
  Opcode.ofByte? instruction.opcode = some .CMP ∨ Opcode.ofByte? instruction.opcode = some .SUB

instance (instruction : DecodedInstruction) : Decidable (Compares instruction) := inferInstanceAs (Decidable (_ ∨ _))

/-- The handler of the jump takes it. -/
def Takes (ctx : ExecutionContext) (jump : DecodedInstruction) : Prop :=
  InstructionRegistry.execute jump ctx = (.ok .Jump, ctx.withRegisters (ctx.registers.setPc (jump.imm.signExtend 32)))

/-- Every conditional jump decides as its name says, about two words taken as
signed integers. -/
structure BranchesSigned (ctx : ExecutionContext) (a b : Word) : Prop where
  je : ∀ jump, Opcode.ofByte? jump.opcode = some .JE → (ctx.Takes jump ↔ a.toInt = b.toInt)
  jne : ∀ jump, Opcode.ofByte? jump.opcode = some .JNE → (ctx.Takes jump ↔ a.toInt ≠ b.toInt)
  jl : ∀ jump, Opcode.ofByte? jump.opcode = some .JL → (ctx.Takes jump ↔ a.toInt < b.toInt)
  jle : ∀ jump, Opcode.ofByte? jump.opcode = some .JLE → (ctx.Takes jump ↔ a.toInt ≤ b.toInt)
  jg : ∀ jump, Opcode.ofByte? jump.opcode = some .JG → (ctx.Takes jump ↔ b.toInt < a.toInt)
  jge : ∀ jump, Opcode.ofByte? jump.opcode = some .JGE → (ctx.Takes jump ↔ b.toInt ≤ a.toInt)

/-- The difference of two words is a signed 32-bit integer. -/
def DifferenceFits (a b : Word) : Prop := -2 ^ 31 ≤ a.toInt - b.toInt ∧ a.toInt - b.toInt < 2 ^ 31

instance (a b : Word) : Decidable (DifferenceFits a b) := inferInstanceAs (Decidable (_ ∧ _))

variable {ctx : ExecutionContext} {instruction jump : DecodedInstruction} {a b : Word}

theorem takes_iff (conditional : (Opcode.ofByte? jump.opcode).bind InstructionRegistry.handlers =
    some conditionalJumpHandler) :
    ctx.Takes jump ↔ takeJump ctx.registers.flags jump.opcode = true := by
  unfold Takes InstructionRegistry.execute
  rw [conditional]
  dsimp only [conditionalJumpHandler]
  constructor
  · intro taken
    by_contra refused
    rw [if_neg refused] at taken
    cases taken
  · intro taken
    rw [if_pos taken]

/-- Flags of the difference of two words. -/
theorem flags_of_compares (ctx : ExecutionContext) (compares : Compares instruction) :
    (InstructionRegistry.execute instruction ctx).2.registers.flags.zero =
        (ctx.registers.get instruction.rs1 - readOperand instruction ctx == 0) ∧
      (InstructionRegistry.execute instruction ctx).2.registers.flags.sign =
        RegisterFile.negative (ctx.registers.get instruction.rs1 - readOperand instruction ctx) := by
  unfold InstructionRegistry.execute
  rcases compares with cmp | sub
  · rw [cmp]
    exact ⟨rfl, rfl⟩
  · rw [sub]
    exact ⟨rfl, rfl⟩

theorem zero_iff : (a - b == 0) = true ↔ a.toInt = b.toInt := by
  rw [beq_iff_eq, BitVec.toInt_inj]
  constructor
  · intro none
    exact BitVec.sub_eq_iff_eq_add.mp none |>.trans (BitVec.zero_add b)
  · rintro rfl
    exact BitVec.sub_self a

/-- The sign of a wrapped difference is the sign of the difference, or the
opposite when that does not fit. -/
theorem negative_iff : RegisterFile.negative (a - b) = true ↔ (a.toInt < b.toInt ↔ DifferenceFits a b) := by
  have aLow := BitVec.le_toInt a
  have aHigh := BitVec.toInt_lt (x := a)
  have bLow := BitVec.le_toInt b
  have bHigh := BitVec.toInt_lt (x := b)
  have zero : (0 : Word).toInt = 0 := rfl
  rw [RegisterFile.negative, BitVec.slt_eq_decide, decide_eq_true_eq, BitVec.toInt_sub, zero, DifferenceFits,
    Int.bmod_def]
  omega

/-- What a jump decides on the flags of a difference. -/
def FlagDecision (a b : Word) : Opcode → Prop
  | .JE => a.toInt = b.toInt
  | .JNE => a.toInt ≠ b.toInt
  | .JG => a.toInt ≠ b.toInt ∧ ¬ (a.toInt < b.toInt ↔ DifferenceFits a b)
  | .JGE => ¬ (a.toInt < b.toInt ↔ DifferenceFits a b)
  | .JL => a.toInt < b.toInt ↔ DifferenceFits a b
  | .JLE => a.toInt = b.toInt ∨ (a.toInt < b.toInt ↔ DifferenceFits a b)
  | _ => False

theorem takeJump_iff {flags : CpuFlags} {opcode : Opcode} (known : Opcode.ofByte? jump.opcode = some opcode)
    (zero : flags.zero = (a - b == 0)) (sign : flags.sign = RegisterFile.negative (a - b)) :
    takeJump flags jump.opcode = true ↔ FlagDecision a b opcode := by
  unfold takeJump
  rw [known, zero, sign]
  cases opcode <;>
    simp only [FlagDecision, Bool.and_eq_true, Bool.or_eq_true, Bool.not_eq_true', ← Bool.not_eq_true,
      Bool.false_eq_true, ne_eq, zero_iff, negative_iff]

/-- After `CMP` or `SUB` the jumps decide as signed comparisons exactly when the
difference of the operands does not overflow: `takeJump` reads the sign flag
without the overflow flag that `updateFlagsSub` has set beside it. -/
theorem branchesSigned_iff (compares : Compares instruction) :
    (InstructionRegistry.execute instruction ctx).2.BranchesSigned (ctx.registers.get instruction.rs1)
        (readOperand instruction ctx) ↔
      DifferenceFits (ctx.registers.get instruction.rs1) (readOperand instruction ctx) := by
  obtain ⟨zero, sign⟩ := flags_of_compares ctx compares
  generalize ctx.registers.get instruction.rs1 = a at *
  generalize readOperand instruction ctx = b at *
  generalize (InstructionRegistry.execute instruction ctx).2 = after at *
  have decides : ∀ (jump : DecodedInstruction) (opcode : Opcode), Opcode.ofByte? jump.opcode = some opcode →
      InstructionRegistry.handlers opcode = some conditionalJumpHandler →
      (after.Takes jump ↔ takeJump after.registers.flags jump.opcode = true) := by
    intro jump opcode known registered
    exact takes_iff (by rw [known]; exact registered)
  constructor
  · intro signed
    have jump : Opcode.ofByte? (decodeInstruction (encodeInstruction Opcode.JL.toByte 0 0 0 0)).opcode = some .JL := by
      rw [decode_encode_opcode]
      rfl
    have below := signed.jl _ jump
    rw [decides _ _ jump rfl, takeJump_iff jump zero sign] at below
    dsimp only [FlagDecision] at below
    by_cases less : a.toInt < b.toInt
    · exact (below.mpr less).mp less
    · by_contra overflows
      exact less (below.mp ⟨fun less' => absurd less' less, fun fits => absurd fits overflows⟩)
  · intro fits
    have ordered : (a.toInt < b.toInt ↔ DifferenceFits a b) ↔ a.toInt < b.toInt := by
      constructor
      · exact fun same => same.mpr fits
      · exact fun less => ⟨fun _ => fits, fun _ => less⟩
    refine ⟨?_, ?_, ?_, ?_, ?_, ?_⟩ <;>
      intro jump known <;>
      rw [decides _ _ known rfl, takeJump_iff known zero sign] <;>
      dsimp only [FlagDecision] <;>
      (try rw [ordered]) <;>
      omega

/-- The smallest integer in `r1`, one in `r2`. -/
def extremeOperands : ExecutionContext :=
  { process :=
      { id := 1
        layout := {}
        context :=
          { registers := { gpr := fun index => if index = 1 then 0x80000000 else if index = 2 then 1 else 0 } } }
    physical := {} }

/-- `cmp r1, r2`. -/
def compareOperands : DecodedInstruction := { opcode := Opcode.CMP.toByte, rd := 0, rs1 := 1, rs2 := 2, imm := 0 }

/-- `sub r2, 5`. -/
def subtractFive : DecodedInstruction := { opcode := Opcode.SUB.toByte, rd := 2, rs1 := 2, rs2 := 15, imm := 5 }

/-- `jl` to the start. -/
def jumpIfLess : DecodedInstruction := { opcode := Opcode.JL.toByte, rd := 0, rs1 := 0, rs2 := 0, imm := 0 }

theorem branchesSigned_subtractFive :
    (InstructionRegistry.execute subtractFive extremeOperands).2.BranchesSigned 1 5 := by
  have fits : DifferenceFits 1 5 := by decide
  exact (@branchesSigned_iff extremeOperands subtractFive (by decide)).mpr fits

/-- `jl` is not taken after comparing the smallest integer with one. -/
theorem branchesSigned_fails_on_overflow :
    ¬ ∀ (ctx : ExecutionContext) (instruction : DecodedInstruction), Compares instruction →
      (InstructionRegistry.execute instruction ctx).2.BranchesSigned (ctx.registers.get instruction.rs1)
        (readOperand instruction ctx) := by
  intro signed
  have compared := signed extremeOperands compareOperands (by decide)
  have taken := (compared.jl jumpIfLess rfl).mpr (by decide)
  have result := congrArg Prod.fst taken
  have refused : (InstructionRegistry.execute jumpIfLess
      (InstructionRegistry.execute compareOperands extremeOperands).2).1 = .ok .Continue := rfl
  rw [refused] at result
  cases result

end ExecutionContext

end VirtualMachine
