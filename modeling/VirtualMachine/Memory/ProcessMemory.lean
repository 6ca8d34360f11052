import VirtualMachine.Memory.PhysicalMemory

namespace VirtualMachine

/-- Where the region of a process lies and where its three segments begin in it. -/
@[ext]
structure MemoryRegionLayout where
  base : Address := 0
  codeOffset : Address := 0
  dataOffset : Address := 0
  stackOffset : Address := 0
  codeSize : Nat := 0
  dataSize : Nat := 0
  stackSize : Nat := kStackSize
  totalSize : Nat := kDefaultProcessMemorySize
  deriving DecidableEq, Repr

namespace MemoryRegionLayout

def codeAddress (layout : MemoryRegionLayout) : Address := layout.base + layout.codeOffset
def dataAddress (layout : MemoryRegionLayout) : Address := layout.base + layout.dataOffset
def stackAddress (layout : MemoryRegionLayout) : Address := layout.base + layout.stackOffset

end MemoryRegionLayout

/-- The view one process has of the shared memory. -/
structure ProcessMemory where
  physical : PhysicalMemory
  layout : MemoryRegionLayout

namespace ProcessMemory

def segmentError (segment : String) (address : Address) : Exception :=
  .vmException (segment ++ " segment access out of bounds at offset " ++ toString address.toNat)

/-- Data offsets are checked against the size of the segment, code addresses are not
checked at all. -/
def validateDataOffset (memory : ProcessMemory) (offset : Address) (size : Nat) : Except Exception Unit :=
  if offset.toNat + size > memory.layout.dataSize then .error (segmentError "data" offset) else .ok ()

def validateStackAccess (memory : ProcessMemory) (sp : Address) (size : Nat) : Except Exception Unit :=
  let stackBase := memory.layout.stackAddress
  if sp < stackBase ∨ (sp - stackBase).toNat + size > memory.layout.stackSize then
    .error (segmentError "stack" sp)
  else .ok ()

/-- `codeAddress() + pc * sizeof(Word)` is a 64-bit sum that the parameter
truncates to an `Address`. -/
def codeWordAddress (layout : MemoryRegionLayout) (pc : Address) : Address :=
  BitVec.ofNat 32 (layout.codeAddress.toNat + pc.toNat * wordSize)

def readCodeWord (memory : ProcessMemory) (pc : Address) : Except Exception Word :=
  memory.physical.readWord (codeWordAddress memory.layout pc)

def writeCodeWord (memory : ProcessMemory) (pc : Address) (value : Word) : Except Exception PhysicalMemory :=
  memory.physical.writeWord (codeWordAddress memory.layout pc) value

def readDataWord (memory : ProcessMemory) (offset : Address) : Except Exception Word := do
  memory.validateDataOffset offset wordSize
  memory.physical.readWord (memory.layout.dataAddress + offset)

def writeDataWord (memory : ProcessMemory) (offset : Address) (value : Word) :
    Except Exception PhysicalMemory := do
  memory.validateDataOffset offset wordSize
  memory.physical.writeWord (memory.layout.dataAddress + offset) value

def readDataByte (memory : ProcessMemory) (offset : Address) : Except Exception Byte := do
  memory.validateDataOffset offset 1
  memory.physical.readByte (memory.layout.dataAddress + offset)

def writeDataByte (memory : ProcessMemory) (offset : Address) (value : Byte) : Except Exception PhysicalMemory := do
  memory.validateDataOffset offset 1
  memory.physical.writeByte (memory.layout.dataAddress + offset) value

/-- The constructor: the initial data, if there is any, goes to the data segment. -/
def create (memory : ProcessMemory) (initialData : List Byte) : Except Exception PhysicalMemory :=
  if initialData.isEmpty then .ok memory.physical
  else do
    memory.validateDataOffset 0 initialData.length
    memory.physical.writeBytes memory.layout.dataAddress initialData

/-- The words written before a failing write stay in memory. -/
def loadCodeFrom (layout : MemoryRegionLayout) :
    Nat → List Word → PhysicalMemory → Except Exception Unit × PhysicalMemory
  | _, [], physical => (.ok (), physical)
  | i, word :: rest, physical =>
    match (ProcessMemory.mk physical layout).writeCodeWord (BitVec.ofNat 32 i) word with
    | .error e => (.error e, physical)
    | .ok physical => loadCodeFrom layout (i + 1) rest physical

def loadCode (memory : ProcessMemory) (code : List Word) : Except Exception Unit × PhysicalMemory :=
  loadCodeFrom memory.layout 0 code memory.physical

def canPush (memory : ProcessMemory) (sp : Address) : Bool :=
  decide (sp.toNat ≥ memory.layout.stackAddress.toNat + wordSize) &&
    decide (sp.toNat ≤ memory.layout.stackAddress.toNat + memory.layout.stackSize)

def canPop (memory : ProcessMemory) (sp : Address) : Bool :=
  decide (sp.toNat + wordSize ≤ memory.layout.stackAddress.toNat + memory.layout.stackSize) &&
    decide (sp ≥ memory.layout.stackAddress)

/-- `sp` is a reference: the second component is its value afterwards, also
when the push throws. -/
def pushWord (memory : ProcessMemory) (value : Word) (sp : Address) :
    Except Exception PhysicalMemory × Address :=
  if !memory.canPush sp then (.error (.vmException "stack overflow"), sp)
  else
    let sp := sp - 4
    (do memory.validateStackAccess sp wordSize; memory.physical.writeWord sp value, sp)

def popWord (memory : ProcessMemory) (sp : Address) : Except Exception (Word × Address) :=
  if !memory.canPop sp then .error (.vmException "stack underflow")
  else do
    memory.validateStackAccess sp wordSize
    let value ← memory.physical.readWord sp
    return (value, sp + 4)

/-- A word access at `offset` stays in the data segment and in memory. -/
def DataAccess (memory : ProcessMemory) (offset : Address) : Prop :=
  offset.toNat + 4 ≤ memory.layout.dataSize ∧
    (memory.layout.dataAddress + offset).toNat + 4 ≤ memory.physical.size

instance (memory : ProcessMemory) (offset : Address) : Decidable (memory.DataAccess offset) :=
  inferInstanceAs (Decidable (_ ∧ _))

variable {memory : ProcessMemory} {offset sp : Address}

/-- An access within the data segment passes its check. -/
theorem validateDataOffset_ok {size : Nat} (fits : offset.toNat + size ≤ memory.layout.dataSize) :
    memory.validateDataOffset offset size = .ok () := by
  rw [validateDataOffset, if_neg (by omega)]

theorem validateDataOffset_error {size : Nat} (outside : memory.layout.dataSize < offset.toNat + size) :
    memory.validateDataOffset offset size = .error (segmentError "data" offset) := by
  rw [validateDataOffset, if_pos outside]

/-- `DataAccess` is what a word access needs: it stays in the segment, and the
segment in the memory. -/
theorem readDataWord_ok (access : memory.DataAccess offset) :
    memory.readDataWord offset = .ok (memory.physical.wordAt (memory.layout.dataAddress + offset)) := by
  rw [readDataWord, validateDataOffset_ok access.1]
  exact PhysicalMemory.readWord_ok access.2

/-- Without it the access throws, and which of the two checks throws does not matter
to a program. -/
theorem readDataWord_error (refused : ¬ memory.DataAccess offset) :
    ∃ message, memory.readDataWord offset = .error (.vmException message) := by
  by_cases inSegment : offset.toNat + 4 ≤ memory.layout.dataSize
  · have outside : memory.physical.size < (memory.layout.dataAddress + offset).toNat + 4 :=
      Nat.lt_of_not_le (fun inMemory => refused ⟨inSegment, inMemory⟩)
    rw [readDataWord, validateDataOffset_ok inSegment]
    exact ⟨_, PhysicalMemory.readWord_error outside⟩
  · rw [readDataWord, validateDataOffset_error (Nat.lt_of_not_le inSegment)]
    exact ⟨_, rfl⟩

theorem writeDataWord_ok (value : Word) (access : memory.DataAccess offset) :
    memory.writeDataWord offset value =
      .ok (memory.physical.putWord (memory.layout.dataAddress + offset) value) := by
  rw [writeDataWord, validateDataOffset_ok access.1]
  exact PhysicalMemory.writeWord_ok value access.2

/-- The same two checks guard a write, so that a refused one has no effect. -/
theorem writeDataWord_error (value : Word) (refused : ¬ memory.DataAccess offset) :
    ∃ message, memory.writeDataWord offset value = .error (.vmException message) := by
  by_cases inSegment : offset.toNat + 4 ≤ memory.layout.dataSize
  · have outside : memory.physical.size < (memory.layout.dataAddress + offset).toNat + 4 :=
      Nat.lt_of_not_le (fun inMemory => refused ⟨inSegment, inMemory⟩)
    rw [writeDataWord, validateDataOffset_ok inSegment]
    exact ⟨_, PhysicalMemory.writeWord_error value outside⟩
  · rw [writeDataWord, validateDataOffset_error (Nat.lt_of_not_le inSegment)]
    exact ⟨_, rfl⟩

theorem readDataByte_ok (inside : offset.toNat + 1 ≤ memory.layout.dataSize)
    (inMemory : (memory.layout.dataAddress + offset).toNat + 1 ≤ memory.physical.size) :
    memory.readDataByte offset = .ok (memory.physical.memory (memory.layout.dataAddress + offset).toNat) := by
  rw [readDataByte, validateDataOffset_ok inside]
  change memory.physical.readByte _ = _
  rw [PhysicalMemory.readByte, PhysicalMemory.validateRange_ok inMemory]
  rfl

/-- The two stack tests in terms of the ends of the segment. The sums are 64-bit
ones, so neither wraps. -/
theorem canPush_iff : memory.canPush sp = true ↔
    memory.layout.stackAddress.toNat + 4 ≤ sp.toNat ∧
      sp.toNat ≤ memory.layout.stackAddress.toNat + memory.layout.stackSize := by
  simp [canPush]

theorem canPop_iff : memory.canPop sp = true ↔
    memory.layout.stackAddress.toNat ≤ sp.toNat ∧
      sp.toNat + 4 ≤ memory.layout.stackAddress.toNat + memory.layout.stackSize := by
  simp only [canPop, Bool.and_eq_true, decide_eq_true_eq, ge_iff_le, BitVec.le_def]
  exact and_comm

/-- The second bounds check of `pushWord` and `popWord` repeats the first one. -/
theorem validateStackAccess_ok (above : memory.layout.stackAddress.toNat ≤ sp.toNat)
    (below : sp.toNat + 4 ≤ memory.layout.stackAddress.toNat + memory.layout.stackSize) :
    memory.validateStackAccess sp wordSize = .ok () := by
  have ordered : memory.layout.stackAddress ≤ sp := BitVec.le_def.mpr above
  have distance := BitVec.toNat_sub_of_le ordered
  have notBefore : ¬ sp < memory.layout.stackAddress := by
    rw [BitVec.lt_def]
    omega
  have notBeyond : ¬ (sp - memory.layout.stackAddress).toNat + 4 > memory.layout.stackSize := by
    omega
  rw [validateStackAccess, if_neg (not_or.mpr ⟨notBefore, notBeyond⟩)]

/-- Moving the stack pointer down does not wrap where there is room for a word. -/
theorem toNat_sub_four {address : Address} (room : 4 ≤ address.toNat) :
    (address - 4).toNat = address.toNat - 4 :=
  BitVec.toNat_sub_of_le (BitVec.le_def.mpr room)

/-- A push without room throws and leaves SP where it was. -/
theorem pushWord_overflow (value : Word) (full : memory.canPush sp = false) :
    memory.pushWord value sp = (.error (.vmException "stack overflow"), sp) := by
  simp [pushWord, full]

/-- Past `canPush` only the end of the physical memory can stop a push. -/
theorem pushWord_of_canPush (value : Word) (room : memory.canPush sp = true) :
    memory.pushWord value sp = (memory.physical.writeWord (sp - 4) value, sp - 4) := by
  obtain ⟨low, high⟩ := canPush_iff.mp room
  have lower : (sp - 4).toNat = sp.toNat - 4 := toNat_sub_four (by omega)
  have checked : memory.validateStackAccess (sp - 4) wordSize = .ok () :=
    validateStackAccess_ok (by omega) (by omega)
  simp only [pushWord, room, checked]
  rfl

/-- A pop without a word throws. -/
theorem popWord_underflow (empty : memory.canPop sp = false) :
    memory.popWord sp = .error (.vmException "stack underflow") := by
  simp [popWord, empty]

/-- Past `canPop` only the end of the physical memory can stop a pop. -/
theorem popWord_of_canPop (room : memory.canPop sp = true) :
    memory.popWord sp = (memory.physical.readWord sp).map (fun value => (value, sp + 4)) := by
  obtain ⟨low, high⟩ := canPop_iff.mp room
  have checked : memory.validateStackAccess sp wordSize = .ok () := validateStackAccess_ok low high
  simp only [popWord, room, checked]
  cases memory.physical.readWord sp <;> rfl

end ProcessMemory

end VirtualMachine
