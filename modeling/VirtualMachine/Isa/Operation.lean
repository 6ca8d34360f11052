import VirtualMachine.Isa.Effect
import VirtualMachine.Isa.Immediate
import VirtualMachine.Cpu.Instruction

namespace VirtualMachine

/-- `mov`, the arithmetic and logic instructions with two operands, `cmp` and `push`. -/
def Opcode.isOperation : Opcode → Bool
  | .MOV | .ADD | .SUB | .MUL | .DIV | .MOD | .AND | .OR | .XOR | .CMP | .PUSH => true
  | _ => false

/-- The effect of an operation on the values of its operands, for the register `rd`. -/
def operation (opcode : Opcode) (rd : RegisterIndex) (lhs rhs : Word) (ctx : ExecutionContext) : Effect :=
  let result (value : Word) (flags : RegisterFile → RegisterFile) : Effect :=
    .registers (flags (ctx.registers.set rd value)).advancePc .Continue
  match opcode with
  | .MOV => result rhs id
  | .ADD => result (lhs + rhs) (·.updateFlags (lhs + rhs))
  | .SUB => result (lhs - rhs) (·.updateFlagsSub lhs rhs (lhs - rhs))
  | .MUL => result (lhs * rhs) (·.updateFlags (lhs * rhs))
  | .DIV =>
    if rhs = 0 then .fail "division by zero" ctx.registers.sp else result (lhs / rhs) (·.updateFlags (lhs / rhs))
  | .MOD =>
    if rhs = 0 then .fail "modulo by zero" ctx.registers.sp else result (lhs % rhs) (·.updateFlags (lhs % rhs))
  | .AND => result (lhs &&& rhs) (·.updateFlags (lhs &&& rhs))
  | .OR => result (lhs ||| rhs) (·.updateFlags (lhs ||| rhs))
  | .XOR => result (lhs ^^^ rhs) (·.updateFlags (lhs ^^^ rhs))
  | .CMP => .registers (ctx.registers.updateFlagsSub lhs rhs (lhs - rhs)).advancePc .Continue
  | .PUSH => ctx.pushEffect rhs
  | _ => .throw (.vmException "unknown opcode")

/-- The whole instruction, on these values. -/
def performOperation (opcode : Opcode) (rd : RegisterIndex) (lhs rhs : Word) (ctx : ExecutionContext) :
    Except Exception Progress × ExecutionContext :=
  finishExecute ((operation opcode rd lhs rhs ctx).apply ctx)

variable {ctx : ExecutionContext} {instruction : DecodedInstruction} {opcode : Opcode} {rd : RegisterIndex}

theorem beginInstruction_operation (operates : opcode.isOperation = true) (is : instruction.opcode = opcode.toByte)
    (fetched : ctx.fetch? = some instruction) :
    beginInstruction ctx = performOperation opcode instruction.rd (ctx.registers.get instruction.rs1)
      (readOperand instruction ctx) ctx := by
  have registered : instruction.opcode ≠ Opcode.CALL.toByte := by
    rw [is]
    intro same
    rw [Opcode.toByte_injective same] at operates
    cases operates
  rw [beginInstruction_of_fetch fetched, if_neg registered, execute_eq, performOperation]
  congr 2
  unfold effect
  rw [is, Opcode.ofByte?_toByte]
  cases opcode <;> first | rfl | cases operates

/-- A context with these registers, room for a push, and a word to execute. -/
def operandProbe (word : Word) (gpr : RegisterIndex → Word) : ExecutionContext :=
  ExecutionContext.facing
    { process := { id := 0, layout := { codeOffset := 8 }, context := { registers := { gpr := gpr, sp := 4 } } }
      physical := {} } word

section Probe

variable {word lhs rhs other : Word} {gpr : RegisterIndex → Word}

theorem operandProbe_fetch : (operandProbe word gpr).fetch? = some (decodeInstruction word) := by
  refine ExecutionContext.fetch?_facing word ?_
  change 12 ≤ 1048576
  decide

theorem pushEffect_operandProbe (value : Word) :
    (operandProbe word gpr).pushEffect value =
      .store 0 value ((operandProbe word gpr).registers.setSp 0).advancePc := by
  have room : (operandProbe word gpr).memory.canPush (operandProbe word gpr).registers.sp = true := rfl
  have inMemory : (operandProbe word gpr).registers.sp.toNat ≤ (operandProbe word gpr).physical.size := by
    change 4 ≤ 1048576
    decide
  have lower : (operandProbe word gpr).registers.sp - 4 = 0 := by
    change (4 : Address) - 4 = 0
    decide
  rw [ExecutionContext.pushEffect, if_pos room, if_pos inMemory, lower]

/-- The word that a push has pushed. -/
theorem pushed_operandProbe (value : Word) :
    (performOperation .PUSH rd lhs value (operandProbe word gpr)).2.physical.wordAt 0 = value := by
  have effect : operation .PUSH rd lhs value (operandProbe word gpr) = _ := pushEffect_operandProbe value
  rw [performOperation, effect]
  exact PhysicalMemory.wordAt_putWord_same value

theorem division_zero (operation : opcode = .DIV ∨ opcode = .MOD) :
    (performOperation opcode rd lhs 0 ctx).1 = .ok (.finished .Error) := by
  rcases operation with rfl | rfl <;> rfl

theorem division_nonzero (operates : opcode = .DIV ∨ opcode = .MOD) (nonzero : rhs ≠ 0) :
    (performOperation opcode rd lhs rhs ctx).1 = .ok (.finished .Continue) := by
  rcases operates with rfl | rfl
  · rw [performOperation, operation, if_neg nonzero]
    rfl
  · rw [performOperation, operation, if_neg nonzero]
    rfl

/-- A division shows whether its divisor is zero. -/
theorem zero_iff_of_division (operates : opcode = .DIV ∨ opcode = .MOD)
    (same : performOperation opcode rd lhs rhs ctx = performOperation opcode rd lhs other ctx) :
    rhs = 0 ↔ other = 0 := by
  have apart : ∀ {left right : Word}, performOperation opcode rd lhs left ctx =
    performOperation opcode rd lhs right ctx →
      left = 0 → right = 0 := by
    intro left right same zero
    by_contra nonzero
    have failed : (performOperation opcode rd lhs left ctx).1 = .ok (.finished .Error) := by
      rw [zero]
      exact division_zero operates
    rw [same, division_nonzero operates nonzero] at failed
    cases failed
  exact ⟨apart same, apart same.symm⟩

theorem quotient_seen (nonzero : rhs ≠ 0) : (performOperation .DIV rd lhs rhs ctx).2.registers.gpr rd = lhs / rhs := by
  rw [performOperation, operation, if_neg nonzero]
  exact Function.update_self _ _ _

theorem remainder_seen (nonzero : rhs ≠ 0) : (performOperation .MOD rd lhs rhs ctx).2.registers.gpr rd = lhs % rhs := by
  rw [performOperation, operation, if_neg nonzero]
  exact Function.update_self _ _ _

/-- No two divisors give the same quotients, or the same remainders. -/
theorem eq_of_quotients (nonzero : rhs ≠ 0) (nonzero' : other ≠ 0) (same : ∀ lhs : Word, lhs / rhs = lhs / other) :
    rhs = other := by
  have least : ∀ {left right : Word}, left ≠ 0 → (∀ lhs : Word, lhs / left = lhs / right) →
    right.toNat ≤ left.toNat := by
    intro left right nonzero same
    by_contra below
    have positive : 0 < left.toNat := Nat.pos_of_ne_zero (fun zero => nonzero (BitVec.eq_of_toNat_eq zero))
    have quotient := congrArg BitVec.toNat (same left)
    rw [BitVec.toNat_udiv, BitVec.toNat_udiv, Nat.div_self positive,
      Nat.div_eq_of_lt (Nat.lt_of_not_le below)] at quotient
    cases quotient
  exact BitVec.eq_of_toNat_eq (Nat.le_antisymm (least nonzero' (fun lhs => (same lhs).symm)) (least nonzero same))

theorem eq_of_remainders (nonzero : rhs ≠ 0) (nonzero' : other ≠ 0) (same : ∀ lhs : Word, lhs % rhs = lhs % other) :
    rhs = other := by
  have least : ∀ {left right : Word}, left ≠ 0 → (∀ lhs : Word, lhs % left = lhs % right) →
    right.toNat ≤ left.toNat := by
    intro left right nonzero same
    by_contra below
    have remainder := congrArg BitVec.toNat (same left)
    rw [BitVec.toNat_umod, BitVec.toNat_umod, Nat.mod_self, Nat.mod_eq_of_lt (Nat.lt_of_not_le below)] at remainder
    exact nonzero (BitVec.eq_of_toNat_eq remainder.symm)
  exact BitVec.eq_of_toNat_eq (Nat.le_antisymm (least nonzero' (fun lhs => (same lhs).symm)) (least nonzero same))

/-- For every operation some first operand tells two second operands apart. -/
theorem rhs_of_performOperation (operates : opcode.isOperation = true)
    (same : ∀ lhs : Word, ∃ gpr, performOperation opcode rd lhs rhs (operandProbe word gpr) =
      performOperation opcode rd lhs other (operandProbe word gpr)) : rhs = other := by
  have results : ∀ (lhs : Word) {value : Word → Word}, (∀ (rhs : Word) (ctx : ExecutionContext),
      (performOperation opcode rd lhs rhs ctx).2.registers.gpr rd = value rhs) → value rhs = value other := by
    intro lhs value seen
    obtain ⟨gpr, same⟩ := same lhs
    rw [← seen rhs (operandProbe word gpr), same, seen]
  cases opcode
  case MOV => exact results 0 (fun _ _ => Function.update_self _ _ _)
  case ADD =>
    have sums : 0 + rhs = 0 + other := results 0 (fun _ _ => Function.update_self _ _ _)
    simpa using sums
  case SUB =>
    have differences : 0 - rhs = 0 - other := results 0 (fun _ _ => Function.update_self _ _ _)
    simpa using differences
  case MUL =>
    have products : 1 * rhs = 1 * other := results 1 (fun _ _ => Function.update_self _ _ _)
    simpa using products
  case AND =>
    have parts : BitVec.allOnes 32 &&& rhs = BitVec.allOnes 32 &&& other :=
      results (BitVec.allOnes 32) (fun _ _ => Function.update_self _ _ _)
    rwa [BitVec.allOnes_and, BitVec.allOnes_and] at parts
  case OR =>
    have parts : 0 ||| rhs = 0 ||| other := results 0 (fun _ _ => Function.update_self _ _ _)
    simpa using parts
  case XOR =>
    have parts : 0 ^^^ rhs = 0 ^^^ other := results 0 (fun _ _ => Function.update_self _ _ _)
    simpa using parts
  case CMP =>
    obtain ⟨gpr, same⟩ := same rhs
    have seen : ∀ value : Word, (performOperation .CMP rd rhs value (operandProbe word gpr)).2.registers.flags.zero =
        (rhs - value == 0) := fun _ => rfl
    have equal : (rhs - other == 0) = (rhs - rhs == 0) := by rw [← seen, ← same, seen]
    have difference : rhs - other = 0 := by
      rw [BitVec.sub_self] at equal
      exact beq_iff_eq.mp equal
    exact (BitVec.sub_eq_iff_eq_add.mp difference).trans (BitVec.zero_add other)
  case PUSH =>
    obtain ⟨gpr, same⟩ := same 0
    have pushed : (performOperation .PUSH rd 0 rhs (operandProbe word gpr)).2.physical.wordAt 0 = rhs :=
      pushed_operandProbe rhs
    rw [← pushed, same, pushed_operandProbe]
  case DIV =>
    by_cases zero : rhs = 0
    · obtain ⟨gpr, same⟩ := same 0
      rw [zero, (zero_iff_of_division (.inl rfl) same).mp zero]
    · have nonzero : other ≠ 0 := by
        obtain ⟨gpr, same⟩ := same 0
        exact fun zero' => zero ((zero_iff_of_division (.inl rfl) same).mpr zero')
      refine eq_of_quotients zero nonzero (fun lhs => ?_)
      obtain ⟨gpr, same⟩ := same lhs
      rw [← quotient_seen zero, same, quotient_seen nonzero]
  case MOD =>
    by_cases zero : rhs = 0
    · obtain ⟨gpr, same⟩ := same 0
      rw [zero, (zero_iff_of_division (.inr rfl) same).mp zero]
    · have nonzero : other ≠ 0 := by
        obtain ⟨gpr, same⟩ := same 0
        exact fun zero' => zero ((zero_iff_of_division (.inr rfl) same).mpr zero')
      refine eq_of_remainders zero nonzero (fun lhs => ?_)
      obtain ⟨gpr, same⟩ := same lhs
      rw [← remainder_seen zero, same, remainder_seen nonzero]
  all_goals cases operates

/-- Where both operands are 1, only `or` does not show that the second is not 0. -/
theorem performOperation_one_ne (operates : opcode.isOperation = true) (different : opcode ≠ .OR) :
    performOperation opcode rd 1 0 (operandProbe word gpr) ≠
      performOperation opcode rd 1 1 (operandProbe word gpr) := by
  intro same
  have results : ∀ {value : Word → Word}, (∀ (rhs : Word) (ctx : ExecutionContext),
      (performOperation opcode rd 1 rhs ctx).2.registers.gpr rd = value rhs) → value 0 = value 1 := by
    intro value seen
    rw [← seen 0 (operandProbe word gpr), same, seen]
  cases opcode
  case MOV => exact absurd (results (fun _ _ => Function.update_self _ _ _)) (by decide)
  case ADD =>
    have sums : (1 : Word) + 0 = 1 + 1 := results (fun _ _ => Function.update_self _ _ _)
    exact absurd sums (by decide)
  case SUB =>
    have differences : (1 : Word) - 0 = 1 - 1 := results (fun _ _ => Function.update_self _ _ _)
    exact absurd differences (by decide)
  case MUL =>
    have products : (1 : Word) * 0 = 1 * 1 := results (fun _ _ => Function.update_self _ _ _)
    exact absurd products (by decide)
  case AND =>
    have parts : (1 : Word) &&& 0 = 1 &&& 1 := results (fun _ _ => Function.update_self _ _ _)
    exact absurd parts (by decide)
  case XOR =>
    have parts : (1 : Word) ^^^ 0 = 1 ^^^ 1 := results (fun _ _ => Function.update_self _ _ _)
    exact absurd parts (by decide)
  case CMP =>
    have flags := congrArg (fun outcome => outcome.2.registers.flags.zero) same
    have apart : ((1 : Word) - 0 == 0) = (1 - 1 == 0) := flags
    exact absurd apart (by decide)
  case PUSH =>
    have pushed : (performOperation .PUSH rd 1 0 (operandProbe word gpr)).2.physical.wordAt 0 = 0 :=
      pushed_operandProbe 0
    rw [same, pushed_operandProbe] at pushed
    exact absurd pushed (by decide)
  case DIV => exact absurd ((zero_iff_of_division (.inl rfl) same).mp rfl) (by decide)
  case MOD => exact absurd ((zero_iff_of_division (.inr rfl) same).mp rfl) (by decide)
  case OR => exact different rfl
  all_goals cases operates

end Probe

end VirtualMachine
