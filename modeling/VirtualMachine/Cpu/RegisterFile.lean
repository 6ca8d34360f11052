import VirtualMachine.Types

namespace VirtualMachine

/-- The registers of one process: sixteen general ones, the program counter, which
counts words of the code segment, and the stack pointer, which is an address of the
physical memory. -/
@[ext]
structure RegisterFile where
  gpr : RegisterIndex → Word := fun _ => 0
  pc : Address := 0
  sp : Address := 0
  flags : CpuFlags := {}

namespace RegisterFile

def get (registers : RegisterFile) (index : RegisterIndex) : Word := registers.gpr index

def set (registers : RegisterFile) (index : RegisterIndex) (value : Word) : RegisterFile :=
  { registers with gpr := Function.update registers.gpr index value }

def setPc (registers : RegisterFile) (pc : Address) : RegisterFile := { registers with pc := pc }

def advancePc (registers : RegisterFile) : RegisterFile := { registers with pc := registers.pc + 1 }

def setSp (registers : RegisterFile) (sp : Address) : RegisterFile := { registers with sp := sp }

/-- `static_cast<std::int32_t>(value) < 0`. -/
def negative (value : Word) : Bool := value.slt 0

/-- The two flags every result sets. Carry and overflow keep their values, so a later
conditional jump sees those of the last subtraction. -/
def updateFlags (registers : RegisterFile) (result : Word) : RegisterFile :=
  { registers with flags := { registers.flags with zero := result == 0, sign := negative result } }

/-- The flags of a subtraction: carry is the borrow of the unsigned difference,
overflow says that the signed one does not fit. -/
def updateFlagsSub (registers : RegisterFile) (lhs rhs result : Word) : RegisterFile :=
  let registers := registers.updateFlags result
  let lhsSign := negative lhs
  let rhsSign := negative rhs
  let resultSign := negative result
  { registers with
    flags := { registers.flags with
      carry := lhs.ult rhs
      overflow := (lhsSign != rhsSign) && (lhsSign != resultSign) } }

section Projections

variable (registers : RegisterFile) (index : RegisterIndex) (value lhs rhs : Word) (address : Address)

/-- The frame lemmas of the register file say for each update which part it writes, so
that nothing above this module unfolds one. -/
@[simp] theorem get_set_same : (registers.set index value).get index = value := by
  simp [get, set]

@[simp] theorem pc_set : (registers.set index value).pc = registers.pc := rfl
@[simp] theorem sp_set : (registers.set index value).sp = registers.sp := rfl
@[simp] theorem flags_set : (registers.set index value).flags = registers.flags := rfl

@[simp] theorem gpr_setPc : (registers.setPc address).gpr = registers.gpr := rfl
@[simp] theorem pc_setPc : (registers.setPc address).pc = address := rfl
@[simp] theorem sp_setPc : (registers.setPc address).sp = registers.sp := rfl
@[simp] theorem flags_setPc : (registers.setPc address).flags = registers.flags := rfl

@[simp] theorem gpr_advancePc : registers.advancePc.gpr = registers.gpr := rfl
@[simp] theorem pc_advancePc : registers.advancePc.pc = registers.pc + 1 := rfl
@[simp] theorem sp_advancePc : registers.advancePc.sp = registers.sp := rfl
@[simp] theorem flags_advancePc : registers.advancePc.flags = registers.flags := rfl

@[simp] theorem gpr_setSp : (registers.setSp address).gpr = registers.gpr := rfl
@[simp] theorem pc_setSp : (registers.setSp address).pc = registers.pc := rfl
@[simp] theorem sp_setSp : (registers.setSp address).sp = address := rfl
@[simp] theorem flags_setSp : (registers.setSp address).flags = registers.flags := rfl

@[simp] theorem gpr_updateFlags : (registers.updateFlags value).gpr = registers.gpr := rfl
@[simp] theorem pc_updateFlags : (registers.updateFlags value).pc = registers.pc := rfl
@[simp] theorem sp_updateFlags : (registers.updateFlags value).sp = registers.sp := rfl

@[simp] theorem gpr_updateFlagsSub : (registers.updateFlagsSub lhs rhs value).gpr = registers.gpr := rfl
@[simp] theorem pc_updateFlagsSub : (registers.updateFlagsSub lhs rhs value).pc = registers.pc := rfl
@[simp] theorem sp_updateFlagsSub : (registers.updateFlagsSub lhs rhs value).sp = registers.sp := rfl

end Projections

end RegisterFile

def kDefaultTimeSlice : Nat := 100

/-- The context of a process. The cores work on it in place, so a context
switch copies nothing. -/
@[ext]
structure CpuContext where
  registers : RegisterFile := {}
  timeSliceLeft : Nat := kDefaultTimeSlice
  halted : Bool := false
  shouldYield : Bool := false

end VirtualMachine
