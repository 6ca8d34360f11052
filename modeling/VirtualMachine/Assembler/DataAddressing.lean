import VirtualMachine.Assembler.Translation
import VirtualMachine.Assembler.Rendering
import VirtualMachine.Isa.Immediate
import VirtualMachine.Isa.Effect
import VirtualMachine.Cpu.Instruction
import VirtualMachine.Os.LoadedImage

namespace VirtualMachine

open VirtualMachine.Parser

/-- The ways of an instruction into the data segment. -/
inductive DataAccess
  | load (rd : Byte)
  | store (rd : Byte)
  | print
  | scan
  | path
  deriving DecidableEq, Repr

namespace DataAccess

def readWord (offset : Address) (rd : RegisterIndex) (ctx : ExecutionContext) :
    Except Exception ExecutionResult × ExecutionContext :=
  match ctx.memory.readDataWord offset with
  | .error e => (.error e, ctx)
  | .ok value => (.ok .Continue, ctx.withRegisters (ctx.registers.set rd value).advancePc)

def writeWord (offset : Address) (rd : RegisterIndex) (ctx : ExecutionContext) :
    Except Exception ExecutionResult × ExecutionContext :=
  match ctx.memory.writeDataWord offset (ctx.registers.get rd) with
  | .error e => (.error e, ctx)
  | .ok physical => (.ok .Continue, (ctx.withPhysical physical).withRegisters ctx.registers.advancePc)

/-- The whole instruction, with its access at this offset. -/
def perform (offset : Address) (ctx : ExecutionContext) : DataAccess → Except Exception Progress × ExecutionContext
  | .load rd => finishExecute (readWord offset (rd.setWidth 4) ctx)
  | .store rd => finishExecute (writeWord offset (rd.setWidth 4) ctx)
  | .print => finishHandle (some .Print) (SyscallHandler.handle (some .Print) offset ctx)
  | .scan => finishHandle (some .Scan) (SyscallHandler.handle (some .Scan) offset ctx)
  | .path => finishHandle (some .Load) (SyscallHandler.handle (some .Load) offset ctx)

def encode (offset : Address) : DataAccess → Word
  | .load rd => encodeInstruction Opcode.LOAD.toByte rd 0 0 (offset.setWidth 16)
  | .store rd => encodeInstruction Opcode.STORE.toByte rd 0 0 (offset.setWidth 16)
  | .print => encodeCall .Print offset
  | .scan => encodeCall .Scan offset
  | .path => encodeCall .Load offset

/-- The offset that comes back from the word. -/
def decoded (offset : Address) : DataAccess → Address
  | .load _ | .store _ => signedField (offset.setWidth 16)
  | .print | .scan | .path => unsignedField (offset.setWidth 16)

/-- The offsets that come back. -/
def Reaches (offset : Nat) : DataAccess → Prop
  | .load _ | .store _ => offset < 2048 ∨ 4294965248 ≤ offset
  | .print | .scan | .path => offset < 2048 ∨ 63488 ≤ offset ∧ offset < 65536

variable {ctx : ExecutionContext} {access : DataAccess} {offset found : Address}

theorem decoded_eq_iff : access.decoded found = offset ↔
    offset.toNat % 4096 = found.toNat % 4096 ∧ access.Reaches offset.toNat := by
  cases access with
  | load rd => exact signedField_eq_iff
  | store rd => exact signedField_eq_iff
  | print => exact unsignedField_eq_iff
  | scan => exact unsignedField_eq_iff
  | path => exact unsignedField_eq_iff

theorem executeCall_encodeCall (id : SyscallId) :
    executeCall (decodeInstruction (encodeCall id offset)) ctx =
      finishHandle (some id) (SyscallHandler.handle (some id) (unsignedField (offset.setWidth 16)) ctx) := by
  rw [executeCall, encodeCall, decode_encode_rs1, decode_encode_imm, SyscallId.ofField?_toByte]
  rfl

/-- An access goes where the decoded immediate says. -/
theorem beginInstruction_encode (fetched : ctx.fetch? = some (decodeInstruction (access.encode found))) :
    beginInstruction ctx = access.perform (access.decoded found) ctx := by
  have call : ∀ id, (decodeInstruction (encodeCall id found)).opcode = Opcode.CALL.toByte :=
    fun id => decode_encode_opcode _ _ _ _ _
  rw [beginInstruction_of_fetch fetched]
  cases access with
  | load rd =>
    have opcode : (decodeInstruction ((load rd).encode found)).opcode = Opcode.LOAD.toByte :=
      decode_encode_opcode _ _ _ _ _
    have other : ¬ Opcode.LOAD.toByte = Opcode.CALL.toByte := by decide
    rw [opcode, if_neg other, InstructionRegistry.execute_of_opcode opcode rfl, encode, loadHandler, decode_encode_imm,
      decode_encode_rd]
    rfl
  | store rd =>
    have opcode : (decodeInstruction ((store rd).encode found)).opcode = Opcode.STORE.toByte :=
      decode_encode_opcode _ _ _ _ _
    have other : ¬ Opcode.STORE.toByte = Opcode.CALL.toByte := by decide
    rw [opcode, if_neg other, InstructionRegistry.execute_of_opcode opcode rfl, encode, storeHandler, decode_encode_imm,
      decode_encode_rd]
    rfl
  | print =>
    rw [encode, if_pos (call .Print)]
    exact executeCall_encodeCall .Print
  | scan =>
    rw [encode, if_pos (call .Scan)]
    exact executeCall_encodeCall .Scan
  | path =>
    rw [encode, if_pos (call .Load)]
    exact executeCall_encodeCall .Load

/-- The bytes of a symbol that an access to it may use. -/
def width (type : DataType) : DataAccess → Nat
  | .load _ | .store _ | .print | .scan => wordSize
  | .path => dataTypeSize type

/-- What an access takes from elsewhere: a number of the input, and the end of
the path inside the symbol. -/
def Supplied (type : DataType) (offset : Address) (ctx : ExecutionContext) : DataAccess → Prop
  | .load _ | .store _ | .print => True
  | .scan => ctx.input ≠ []
  | .path => ∃ i < dataTypeSize type,
      ctx.physical.memory (ctx.process.layout.dataAddress + (offset + BitVec.ofNat 32 i)).toNat = 0

end DataAccess

/-- The data segment of the process has the size of this data, and lies in
physical memory. -/
structure ExecutionContext.HoldsData (ctx : ExecutionContext) (data : List Byte) : Prop where
  size : ctx.process.layout.dataSize = data.length
  inMemory : ctx.process.layout.dataAddress.toNat + data.length ≤ ctx.physical.size

/-- The segment of a process holds the data of the program it has been loaded with. -/
theorem ExecutionContext.HoldsData.of_load {before after : PhysicalMemory} {program : AssembledProgram}
    {layout : MemoryRegionLayout} (loaded : ProgramLoader.load before program = (.ok layout, after))
    (bounded : before.size + kStackSize < 2 ^ 32) {ctx : ExecutionContext} (own : ctx.process.layout = layout)
    (size : ctx.physical.size = after.size) : ctx.HoldsData program.data := by
  by_cases loads : ProgramLoader.Loads before program
  · obtain ⟨after', loaded', changes⟩ := ProgramLoader.load_of_loads loads bounded
    rw [loaded] at loaded'
    cases loaded'
    have inMemory := loads.2
    have packed : (ProgramLoader.layoutFor before.nextFreeAddress program).Packed :=
      ProgramLoader.layoutFor_packed (by omega)
    have address := packed.dataAddress
    have kept : after.size = before.size := changes.size.trans (PhysicalMemory.size_allocated _)
    rw [ProgramLoader.base_layoutFor, ProgramLoader.codeSize_layoutFor] at address
    refine ⟨by rw [own]; rfl, ?_⟩
    rw [own, size, kept, address]
    omega
  · obtain ⟨e, after', failed, _⟩ := ProgramLoader.load_of_not_loads loads (by omega)
    rw [loaded] at failed
    cases failed

namespace DataAccess

variable {ctx : ExecutionContext} {access : DataAccess} {type : DataType} {offset : Address}

theorem readDataByte_ne_zero {memory : ProcessMemory}
    (nonzero : memory.physical.memory (memory.layout.dataAddress + offset).toNat ≠ 0) :
    memory.readDataByte offset ≠ .ok 0 := by
  intro read
  by_cases inside : offset.toNat + 1 ≤ memory.layout.dataSize
  · rw [ProcessMemory.readDataByte, ProcessMemory.validateDataOffset_ok inside] at read
    change memory.physical.readByte _ = _ at read
    by_cases inMemory : (memory.layout.dataAddress + offset).toNat + 1 ≤ memory.physical.size
    · rw [PhysicalMemory.readByte, PhysicalMemory.validateRange_ok inMemory] at read
      exact nonzero (Except.ok.inj read)
    · rw [PhysicalMemory.readByte, PhysicalMemory.validateRange_error (Nat.lt_of_not_le inMemory)] at read
      cases read
  · rw [ProcessMemory.readDataByte, ProcessMemory.validateDataOffset_error (Nat.lt_of_not_le inside)] at read
    cases read

theorem readDataByte_error {memory : ProcessMemory} (outside : memory.layout.dataSize < offset.toNat + 1) :
    ∃ e, memory.readDataByte offset = .error e := by
  rw [ProcessMemory.readDataByte, ProcessMemory.validateDataOffset_error outside]
  exact ⟨_, rfl⟩

/-- A path that ends inside the segment is read. -/
theorem readLoadPath_ok {memory : ProcessMemory} {count start last : Nat} (after : start ≤ last)
    (before : last < start + count)
    (readable : ∀ i ≤ last, ∃ byte, memory.readDataByte (offset + BitVec.ofNat 32 i) = .ok byte)
    (ends : memory.readDataByte (offset + BitVec.ofNat 32 last) = .ok 0) :
    ∃ path, SyscallHandler.readLoadPath memory offset count start = .ok path := by
  induction count generalizing start with
  | zero => omega
  | succ count ih =>
    obtain ⟨byte, read⟩ := readable start after
    rw [SyscallHandler.readLoadPath, read]
    by_cases zero : byte = 0
    · exact ⟨[], if_pos zero⟩
    · have further : start ≠ last := by
        rintro rfl
        rw [ends] at read
        exact zero (Except.ok.inj read).symm
      have after' : start + 1 ≤ last := by omega
      obtain ⟨path, found⟩ := ih after' (by omega)
      refine ⟨byte :: path, ?_⟩
      rw [found]
      exact if_neg zero

/-- A path that is read is read up to its end. -/
theorem readDataByte_of_readLoadPath {memory : ProcessMemory} {count start last : Nat} {path : List Byte}
    (after : start ≤ last)
    (before : last < start + count) (read : SyscallHandler.readLoadPath memory offset count start = .ok path)
    (goesOn : ∀ i < last, memory.readDataByte (offset + BitVec.ofNat 32 i) ≠ .ok 0) :
    ∃ byte, memory.readDataByte (offset + BitVec.ofNat 32 last) = .ok byte := by
  induction count generalizing start path with
  | zero => omega
  | succ count ih =>
    rw [SyscallHandler.readLoadPath] at read
    cases found : memory.readDataByte (offset + BitVec.ofNat 32 start) with
    | error e =>
      rw [found] at read
      cases read
    | ok byte =>
      by_cases here : start = last
      · exact ⟨byte, here ▸ found⟩
      rw [found] at read
      have nonzero : byte ≠ 0 := by
        rintro rfl
        exact goesOn start (by omega) found
      cases rest : SyscallHandler.readLoadPath memory offset count (start + 1) with
      | error e =>
        rw [rest] at read
        cases (if_neg nonzero).symm.trans read
      | ok others => exact ih (by omega) (by omega) rest

theorem toNat_add_le (address step : Address) : (address + step).toNat ≤ address.toNat + step.toNat := by
  rw [BitVec.toNat_add]
  exact Nat.mod_le _ _

theorem dataTypeSize_le (type : DataType) : 1 ≤ dataTypeSize type ∧ dataTypeSize type ≤ 8 := by
  cases type <;> decide

theorem perform_ok (inMemory : ctx.process.layout.dataAddress.toNat + ctx.process.layout.dataSize ≤ ctx.physical.size)
    (inside : offset.toNat + access.width type ≤ ctx.process.layout.dataSize)
    (supplied : access.Supplied type offset ctx) :
    ∃ progress, (access.perform offset ctx).1 = .ok progress := by
  have wordAccess : offset.toNat + 4 ≤ ctx.process.layout.dataSize → ctx.memory.DataAccess offset := by
    intro fits
    have reached := toNat_add_le ctx.process.layout.dataAddress offset
    exact ⟨fits, by simp only [ExecutionContext.memory]; omega⟩
  cases access with
  | load rd =>
    rw [perform, readWord, ProcessMemory.readDataWord_ok (wordAccess inside)]
    exact ⟨_, rfl⟩
  | store rd =>
    rw [perform, writeWord, ProcessMemory.writeDataWord_ok _ (wordAccess inside)]
    exact ⟨_, rfl⟩
  | print =>
    rw [perform, SyscallHandler.handle, ProcessMemory.readDataWord_ok (wordAccess inside)]
    exact ⟨_, rfl⟩
  | scan =>
    obtain ⟨value, rest, input⟩ := List.exists_cons_of_ne_nil supplied
    have access : ProcessMemory.DataAccess { ctx with input := rest }.memory offset := wordAccess inside
    rw [perform, SyscallHandler.handle, input]
    dsimp only
    rw [ProcessMemory.writeDataWord_ok _ access]
    exact ⟨_, rfl⟩
  | path =>
    obtain ⟨last, within, ends⟩ := supplied
    have small := (dataTypeSize_le type).2
    have inside' : offset.toNat + dataTypeSize type ≤ ctx.process.layout.dataSize := inside
    have readable : ∀ i ≤ last, ctx.memory.readDataByte (offset + BitVec.ofNat 32 i) =
        .ok (ctx.physical.memory (ctx.process.layout.dataAddress + (offset + BitVec.ofNat 32 i)).toNat) := by
      intro i before
      have step : (BitVec.ofNat 32 i).toNat = i := by
        rw [BitVec.toNat_ofNat]
        omega
      have reached := toNat_add_le offset (BitVec.ofNat 32 i)
      have reached' := toNat_add_le ctx.process.layout.dataAddress (offset + BitVec.ofNat 32 i)
      refine ProcessMemory.readDataByte_ok ?_ ?_
      · simp only [ExecutionContext.memory]
        omega
      · simp only [ExecutionContext.memory]
        omega
    have bounded : last < 0 + 256 := by omega
    obtain ⟨path, read⟩ := readLoadPath_ok (Nat.zero_le last) bounded (fun i before => ⟨_, readable i before⟩)
      ((readable last le_rfl).trans (congrArg Except.ok ends))
    rw [perform, SyscallHandler.handle, read]
    exact ⟨_, rfl⟩

/-- An access that starts outside the segment fails. -/
theorem perform_error (outside : ctx.process.layout.dataSize < offset.toNat + access.width .Byte) :
    ∃ e, (access.perform offset ctx).1 = .error e := by
  have refused : ctx.process.layout.dataSize < offset.toNat + 4 → ¬ ctx.memory.DataAccess offset := by
    intro beyond access
    have inside : offset.toNat + 4 ≤ ctx.process.layout.dataSize := access.1
    omega
  cases access with
  | load rd =>
    obtain ⟨message, failed⟩ := ProcessMemory.readDataWord_error (refused outside)
    rw [perform, readWord, failed]
    exact ⟨_, rfl⟩
  | store rd =>
    obtain ⟨message, failed⟩ := ProcessMemory.writeDataWord_error (ctx.registers.get (rd.setWidth 4)) (refused outside)
    rw [perform, writeWord, failed]
    exact ⟨_, rfl⟩
  | print =>
    obtain ⟨message, failed⟩ := ProcessMemory.readDataWord_error (refused outside)
    rw [perform, SyscallHandler.handle, failed]
    exact ⟨_, rfl⟩
  | scan =>
    rw [perform, SyscallHandler.handle]
    cases input : ctx.input with
    | nil => exact ⟨_, rfl⟩
    | cons value rest =>
      have refused' : ¬ ProcessMemory.DataAccess { ctx with input := rest }.memory offset := refused outside
      obtain ⟨message, failed⟩ := ProcessMemory.writeDataWord_error value refused'
      dsimp only
      rw [failed]
      exact ⟨_, rfl⟩
  | path =>
    have first : offset + BitVec.ofNat 32 0 = offset := BitVec.add_zero offset
    have beyond : ctx.memory.layout.dataSize < offset.toNat + 1 := outside
    obtain ⟨e, failed⟩ := readDataByte_error beyond
    rw [perform, SyscallHandler.handle, SyscallHandler.readLoadPath, first, failed]
    exact ⟨_, rfl⟩

/-- A word to execute, away from the data around an offset, and one zero byte. -/
def probe (word : Word) (offset : Address) (dataSize ending : Nat) : ExecutionContext :=
  ExecutionContext.facing
    { process :=
        { id := 0
          layout := { codeOffset := if offset.toNat < 2147483648 then 2147483656 else 8, dataSize := dataSize } }
      physical := { size := 8589934592, memory := fun k => if k = ending then 0 else 1 }
      input := [0] } word

variable {word : Word} {dataSize ending : Nat}

theorem probe_fetchAddress :
    (probe word offset dataSize ending).fetchAddress = if offset.toNat < 2147483648 then 2147483656 else 8 := by
  have address : (probe word offset dataSize ending).fetchAddress =
      BitVec.ofNat 32 (((0 : Address) + if offset.toNat < 2147483648 then 2147483656 else 8).toNat + 0 * 4) := rfl
  rw [address, Nat.zero_mul, Nat.add_zero, BitVec.ofNat_toNat, BitVec.setWidth_eq]
  exact BitVec.zero_add _

theorem probe_fetch : (probe word offset dataSize ending).fetch? = some (decodeInstruction word) := by
  refine ExecutionContext.fetch?_facing word ?_
  change _ ≤ 8589934592
  omega

/-- The code is out of the way of the eight bytes from the offset on. -/
theorem probe_memory {i : Nat} (near : i < 8) :
    (probe word offset dataSize ending).physical.memory
        ((probe word offset dataSize ending).process.layout.dataAddress + (offset + BitVec.ofNat 32 i)).toNat =
      if (offset + BitVec.ofNat 32 i).toNat = ending then 0 else 1 := by
  have address : (probe word offset dataSize ending).process.layout.dataAddress + (offset + BitVec.ofNat 32 i) =
      offset + BitVec.ofNat 32 i := BitVec.zero_add _
  have place : (offset + BitVec.ofNat 32 i).toNat = (offset.toNat + i) % 4294967296 := by
    rw [BitVec.toNat_add, BitVec.toNat_ofNat]
    omega
  have apart : (offset + BitVec.ofNat 32 i).toNat < (probe word offset dataSize ending).fetchAddress.toNat ∨
      (probe word offset dataSize ending).fetchAddress.toNat + 4 ≤ (offset + BitVec.ofNat 32 i).toNat := by
    have bounded := offset.isLt
    rw [probe_fetchAddress, place]
    by_cases low : offset.toNat < 2147483648
    · rw [if_pos low]
      left
      change _ < 2147483656
      omega
    · rw [if_neg low]
      by_cases wraps : offset.toNat + i < 4294967296
      · right
        change 12 ≤ _
        omega
      · left
        change _ < 8
        omega
  rw [address]
  exact PhysicalMemory.memory_putWord_outside apart

/-- The segment of a probe lies in its memory. -/
theorem probe_inMemory (bounded : dataSize ≤ 8589934592) :
    (probe word offset dataSize ending).process.layout.dataAddress.toNat +
        (probe word offset dataSize ending).process.layout.dataSize ≤
          (probe word offset dataSize ending).physical.size := by
  have start : (probe word offset dataSize ending).process.layout.dataAddress.toNat = 0 := rfl
  rw [start, Nat.zero_add]
  exact bounded

theorem width_byte_le (access : DataAccess) : access.width .Byte ≤ 4 := by
  cases access
  case path => exact (by decide : dataTypeSize .Byte ≤ 4)
  all_goals exact le_rfl

theorem perform_tells {first second : Address} (less : first.toNat < second.toNat) :
    ∃ ctx : ExecutionContext, ctx.fetch? = some (decodeInstruction word) ∧
      access.perform first ctx ≠ access.perform second ctx := by
  have bounded := first.isLt
  have small := width_byte_le access
  refine ⟨probe word first (first.toNat + access.width .Byte) first.toNat, probe_fetch, ?_⟩
  have fits : first.toNat + access.width .Byte ≤ 8589934592 := by omega
  have supplied : access.Supplied .Byte first (probe word first (first.toNat + access.width .Byte) first.toNat) := by
    cases access with
    | load rd => trivial
    | store rd => trivial
    | print => trivial
    | scan => exact List.cons_ne_nil _ _
    | path =>
      refine ⟨0, by decide, ?_⟩
      rw [probe_memory (by decide)]
      exact if_pos (congrArg BitVec.toNat (BitVec.add_zero first))
  obtain ⟨progress, succeeds⟩ := perform_ok (probe_inMemory fits) le_rfl supplied
  obtain ⟨e, fails⟩ : ∃ e, (access.perform second (probe word first (first.toNat + access.width .Byte) first.toNat)).1 =
      .error e := by
    refine perform_error ?_
    change first.toNat + access.width .Byte < second.toNat + access.width .Byte
    omega
  intro same
  rw [same, fails] at succeeds
  cases succeeds

/-- An access shows its offset. -/
theorem eq_of_perform {first second : Address}
    (same : ∀ ctx : ExecutionContext, ctx.fetch? = some (decodeInstruction word) →
      access.perform first ctx = access.perform second ctx) : first = second := by
  by_contra different
  rcases Nat.lt_or_gt_of_ne (fun equal => different (BitVec.eq_of_toNat_eq equal)) with less | greater
  · obtain ⟨ctx, fetched, differ⟩ := perform_tells less
    exact differ (same ctx fetched)
  · obtain ⟨ctx, fetched, differ⟩ := perform_tells greater
    exact differ (same ctx fetched).symm

/-- The place of the last byte of a symbol. -/
def lastByte (type : DataType) (offset : Address) : Nat := (offset + BitVec.ofNat 32 (dataTypeSize type - 1)).toNat

/-- A path that ends with the last byte of its symbol is read only if the
symbol lies in the segment. -/
theorem fits_of_readLoadPath {path : List Byte} (bounded : dataSize < 4294967296)
    (read : SyscallHandler.readLoadPath (probe word offset dataSize (lastByte type offset)).memory offset 256 0 =
      .ok path) :
    offset.toNat + dataTypeSize type ≤ dataSize := by
  have below := offset.isLt
  have small := dataTypeSize_le type
  by_contra outside
  have goesOn : ∀ i < dataSize - offset.toNat,
      (probe word offset dataSize (lastByte type offset)).memory.readDataByte (offset + BitVec.ofNat 32 i) ≠ .ok 0 := by
    intro i before
    refine readDataByte_ne_zero ?_
    have near : i < 8 := by omega
    have different : (offset + BitVec.ofNat 32 i).toNat ≠ lastByte type offset := by
      rw [lastByte, BitVec.toNat_add, BitVec.toNat_add, BitVec.toNat_ofNat, BitVec.toNat_ofNat]
      omega
    have value : (probe word offset dataSize (lastByte type offset)).physical.memory _ = _ := probe_memory near
    rw [if_neg different] at value
    intro none
    have one : (1 : Byte) = 0 := value.symm.trans none
    cases one
  -- The first byte beyond the segment would be read.
  have within : dataSize - offset.toNat < 0 + 256 := by omega
  obtain ⟨byte, reached⟩ := readDataByte_of_readLoadPath (Nat.zero_le _) within read goesOn
  have beyond : (probe word offset dataSize (lastByte type offset)).memory.layout.dataSize <
      (offset + BitVec.ofNat 32 (dataSize - offset.toNat)).toNat + 1 := by
    change dataSize < _
    rw [BitVec.toNat_add, BitVec.toNat_ofNat]
    omega
  obtain ⟨e, failed⟩ := readDataByte_error beyond
  rw [failed] at reached
  cases reached

/-- An access that always succeeds stays in the data. -/
theorem fits_of_perform {data : List Byte} (bounded : data.length < 4294967296)
    (succeeds : ∀ ctx : ExecutionContext, ctx.fetch? = some (decodeInstruction word) → ctx.HoldsData data →
      access.Supplied type offset ctx → ∃ progress, (access.perform offset ctx).1 = .ok progress) :
    offset.toNat + access.width type ≤ data.length := by
  have small := dataTypeSize_le type
  have holds : (probe word offset data.length (lastByte type offset)).HoldsData data := ⟨rfl, probe_inMemory (by omega)⟩
  have supplied : access.Supplied type offset (probe word offset data.length (lastByte type offset)) := by
    cases access with
    | load rd => trivial
    | store rd => trivial
    | print => trivial
    | scan => exact List.cons_ne_nil _ _
    | path =>
      refine ⟨dataTypeSize type - 1, by omega, ?_⟩
      rw [probe_memory (by omega)]
      exact if_pos rfl
  obtain ⟨progress, ran⟩ := succeeds _ probe_fetch holds supplied
  have wordFits : offset.toNat + access.width .Byte ≤ data.length := by
    by_contra outside
    obtain ⟨e, failed⟩ : ∃ e, (access.perform offset (probe word offset data.length (lastByte type offset))).1 =
      .error e :=
      perform_error (Nat.lt_of_not_le outside)
    rw [failed] at ran
    cases ran
  cases access with
  | load rd => exact wordFits
  | store rd => exact wordFits
  | print => exact wordFits
  | scan => exact wordFits
  | path =>
    rw [perform, SyscallHandler.handle] at ran
    cases read : SyscallHandler.readLoadPath
      (probe word offset data.length (lastByte type offset)).memory offset 256 0 with
    | error e =>
      rw [read] at ran
      cases ran
    | ok path => exact fits_of_readLoadPath bounded read

end DataAccess

namespace Source

/-- The access that a mnemonic makes after its first operand. -/
def accessOf? (mnemonic : Text) : Operand → Option DataAccess
  | .register name =>
    (register? name).bind (fun rd =>
      if mnemonic = "load".toList then some (.load rd)
      else if mnemonic = "store".toList then some (.store rd)
      else none)
  | .name syscall =>
    if mnemonic ≠ "call".toList then none
    else if syscall = "print".toList then some .print
    else if syscall = "scan".toList then some .scan
    else if syscall = "load".toList then some .path
    else none
  | _ => none

/-- The access of an instruction to a data symbol. A `mov` from memory is a `load`. -/
def Instruction.dataAccess? (instruction : Instruction) : Option (DataAccess × Text) :=
  match instruction.operands with
  | [first, .memory symbol] =>
    (accessOf? (if instruction.mnemonic = "mov".toList then "load".toList else instruction.mnemonic) first).map
      (fun access => (access, symbol))
  | _ => none

variable {parser : Parser} {mnemonic : Text} {first operand : Operand} {access : DataAccess}

theorem word_of_call {name : Text} {id : SyscallId} (known : syscall? true name = some id) :
    Instruction.word? true parser ⟨"call".toList, [.name name, operand]⟩ =
      (offset? parser operand).map (encodeCall id) := by
  change twoOperandsWord? true parser _ _ _ = _
  unfold twoOperandsWord?
  rw [if_pos rfl, callWord?, known]
  cases offset? parser operand <;> rfl

theorem word_of_transfer {name : Text} {opcode : Opcode} {rd : Byte} (known : opcode? mnemonic = some opcode)
    (apart : mnemonic ≠ "call".toList) (register : register? name = some rd) :
    Instruction.word? true parser ⟨mnemonic, [.register name, operand]⟩ =
      if opcode = .LOAD ∨ opcode = .STORE then transferWord? parser opcode rd operand
      else operationWord? true parser opcode rd operand := by
  change twoOperandsWord? true parser _ _ _ = _
  unfold twoOperandsWord?
  rw [if_neg apart, known, registerOperand?, register]
  rfl

theorem word_of_access (accesses : accessOf? mnemonic first = some access) :
    Instruction.word? true parser ⟨mnemonic, [first, operand]⟩ = (offset? parser operand).map access.encode := by
  have load : opcode? "load".toList = some .LOAD := rfl
  have store : opcode? "store".toList = some .STORE := rfl
  unfold accessOf? at accesses
  split at accesses
  · obtain ⟨rd, register, found⟩ := Option.bind_eq_some_iff.mp accesses
    split at found
    · rename_i reads
      subst reads
      cases found
      exact word_of_transfer load (by decide) register
    · split at found
      · rename_i writes
        subst writes
        cases found
        exact word_of_transfer store (by decide) register
      · cases found
  · split at accesses
    · cases accesses
    · rename_i _ isCall
      obtain rfl := of_not_not isCall
      split at accesses
      · rename_i print
        subst print
        cases accesses
        exact word_of_call rfl
      · split at accesses
        · rename_i scan
          subst scan
          cases accesses
          exact word_of_call rfl
        · split at accesses
          · rename_i path
            subst path
            cases accesses
            exact word_of_call rfl
          · cases accesses
  · cases accesses

/-- A `mov` from memory is encoded as a `load`. -/
theorem word_of_mov {name symbol : Text} {rd : Byte} (register : register? name = some rd) :
    Instruction.word? true parser ⟨"mov".toList, [.register name, .memory symbol]⟩ =
      Instruction.word? true parser ⟨"load".toList, [.register name, .memory symbol]⟩ := by
  have load : opcode? "load".toList = some .LOAD := rfl
  have mov : opcode? "mov".toList = some .MOV := rfl
  rw [word_of_transfer load (by decide) register, word_of_transfer mov (by decide) register]
  rfl

theorem word_of_dataAccess {instruction : Instruction} {symbol : Text}
    (accesses : instruction.dataAccess? = some (access, symbol)) :
    instruction.word? true parser = (symbolOffset? parser symbol).map access.encode := by
  obtain ⟨mnemonic, operands⟩ := instruction
  unfold Instruction.dataAccess? at accesses
  dsimp only at accesses
  split at accesses
  · rename_i first named
    obtain ⟨access', found, same⟩ := Option.map_eq_some_iff.mp accesses
    cases same
    by_cases mov : mnemonic = "mov".toList
    · subst mov
      rw [if_pos rfl] at found
      have loaded : Instruction.word? true parser ⟨"load".toList, [first, .memory symbol]⟩ = _ := word_of_access found
      rw [← show offset? parser (.memory symbol) = symbolOffset? parser symbol from rfl, ← loaded]
      cases first with
      | register name =>
        obtain ⟨rd, register, _⟩ := Option.bind_eq_some_iff.mp found
        exact word_of_mov register
      | number literal => cases found
      | name syscall => cases found
      | memory other => cases found
    · rw [if_neg mov] at found
      exact word_of_access found
  · cases accesses

/-- Executing the word accesses the data at the offset of the symbol, and
succeeds where the symbol has the size of a word. -/
structure Addresses (program : AssembledProgram) (symbol : DataSymbol) (access : DataAccess) (word : Word) : Prop where
  offset : ∀ ctx : ExecutionContext, ctx.fetch? = some (decodeInstruction word) →
    beginInstruction ctx = access.perform symbol.offset ctx
  succeeds : symbol.type = .Word ∨ symbol.type = .QWord → ∀ ctx : ExecutionContext,
    ctx.fetch? = some (decodeInstruction word) → ctx.HoldsData program.data →
      access.Supplied symbol.type symbol.offset ctx → ∃ progress, (beginInstruction ctx).1 = .ok progress

theorem addresses_encode_iff {program : AssembledProgram} {symbol : DataSymbol} {found : Address}
    (bounded : program.data.length < 4294967296) :
    Addresses program symbol access (access.encode found) ↔
      symbol.offset.toNat % 4096 = found.toNat % 4096 ∧ access.Reaches symbol.offset.toNat ∧
        (symbol.type = .Word ∨ symbol.type = .QWord →
          symbol.offset.toNat + access.width symbol.type ≤ program.data.length) := by
  constructor
  · intro addresses
    have agree : ∀ ctx : ExecutionContext, ctx.fetch? = some (decodeInstruction (access.encode found)) →
        access.perform (access.decoded found) ctx = access.perform symbol.offset ctx := by
      intro ctx fetched
      rw [← DataAccess.beginInstruction_encode fetched, addresses.offset ctx fetched]
    have same : access.decoded found = symbol.offset := DataAccess.eq_of_perform agree
    obtain ⟨low, reaches⟩ := DataAccess.decoded_eq_iff.mp same
    refine ⟨low, reaches, fun sized => ?_⟩
    have succeeds : ∀ ctx : ExecutionContext, ctx.fetch? = some (decodeInstruction (access.encode found)) →
        ctx.HoldsData program.data → access.Supplied symbol.type symbol.offset ctx →
          ∃ progress, (access.perform symbol.offset ctx).1 = .ok progress := by
      intro ctx fetched holds supplied
      rw [← addresses.offset ctx fetched]
      exact addresses.succeeds sized ctx fetched holds supplied
    exact DataAccess.fits_of_perform bounded succeeds
  · rintro ⟨low, reaches, fits⟩
    have same : access.decoded found = symbol.offset := DataAccess.decoded_eq_iff.mpr ⟨low, reaches⟩
    have offset : ∀ ctx : ExecutionContext, ctx.fetch? = some (decodeInstruction (access.encode found)) →
        beginInstruction ctx = access.perform symbol.offset ctx := by
      intro ctx fetched
      rw [DataAccess.beginInstruction_encode fetched, same]
    refine ⟨offset, fun sized ctx fetched holds supplied => ?_⟩
    rw [offset ctx fetched]
    have inMemory := holds.inMemory
    have inside := fits sized
    rw [← holds.size] at inMemory inside
    exact DataAccess.perform_ok inMemory inside supplied

/-- The offset of a declared symbol, and the offset its name is found at. -/
def symbolOffset (declarations : List (Text × DataType)) (index : Nat) : Nat :=
  declaredBytes (declarations.take index) % 4294967296

def nameOffset (declarations : List (Text × DataType)) (name : Text) : Nat :=
  declaredBytes (declarations.takeWhile (fun declaration => declaration.1 != name)) % 4294967296

section Symbols

variable {source : Text} {program : AssembledProgram} {statements : List Statement} {first second : Parser}

/-- The word of an access carries the offset its name is found at. -/
theorem Assembled.access_word (assembled : Assembled source program statements first second) {j k : Nat} {name : Text}
    {type : DataType} (declared : (declarations statements)[j]? = some (name, type)) {instruction : Instruction}
    {access : DataAccess} (found : (instructions statements)[k]? = some instruction)
    (accesses : instruction.dataAccess? = some (access, name)) :
    program.code[k]? = some (access.encode (BitVec.ofNat 32 (nameOffset (declarations statements) name))) := by
  obtain ⟨before, later, middle, word, _, _, ran, made, placed⟩ := assembled.word found
  have symbols : middle.dataSymbols = first.dataSymbols := (data_of_run_true ran).1
  have member : name ∈ (declarations statements).map Prod.fst :=
    List.mem_map.mpr ⟨(name, type), List.mem_of_getElem? declared, rfl⟩
  have offset : symbolOffset? middle name = some (BitVec.ofNat 32 (nameOffset (declarations statements) name)) := by
    rw [symbolOffset?_eq, symbols, assembled.symbols, layout_find?, if_pos member]
    refine congrArg some (BitVec.eq_of_toNat_eq ?_)
    rw [BitVec.toNat_add, BitVec.toNat_ofNat, BitVec.toNat_ofNat, nameOffset]
    change (0 + _) % 2 ^ 32 = _
    omega
  rw [word_of_dataAccess accesses, offset] at made
  rw [placed, ← made]
  rfl

/-- The symbol of a declaration. -/
theorem Assembled.symbol (assembled : Assembled source program statements first second) {j : Nat} {name : Text}
    {type : DataType} (declared : (declarations statements)[j]? = some (name, type)) :
    ∃ symbol, (dataSymbols source)[j]? = some symbol ∧ symbol.name = name ∧ symbol.type = type ∧
      symbol.offset.toNat = symbolOffset (declarations statements) j := by
  have placed : (first.dataSymbols.map place)[j]? = (layout 0 (declarations statements))[j]? := by
    rw [assembled.symbols]
  rw [layout_getElem?, declared, List.getElem?_map] at placed
  obtain ⟨symbol, at_, same⟩ := Option.map_eq_some_iff.mp placed
  injection same with nameSame others
  injection others with typeSame offsetSame
  refine ⟨symbol, ?_, nameSame, typeSame, ?_⟩
  · rw [assembled.dataSymbols_eq, at_]
  · rw [offsetSame, symbolOffset, BitVec.toNat_add, BitVec.toNat_ofNat]
    change (0 + _) % 2 ^ 32 = _
    omega

theorem Assembled.addressed_iff (assembled : Assembled source program statements first second) {j k : Nat} {name : Text}
    {type : DataType} (declared : (declarations statements)[j]? = some (name, type)) {instruction : Instruction}
    {access : DataAccess} (found : (instructions statements)[k]? = some instruction)
    (accesses : instruction.dataAccess? = some (access, name)) :
    (∃ symbol word, (dataSymbols source)[j]? = some symbol ∧ symbol.name = name ∧ symbol.type = type ∧
        program.code[k]? = some word ∧ Addresses program symbol access word) ↔
      symbolOffset (declarations statements) j % 4096 = nameOffset (declarations statements) name % 4096 ∧
        access.Reaches (symbolOffset (declarations statements) j) ∧
        (type = .Word ∨ type = .QWord → symbolOffset (declarations statements) j + access.width type ≤
          declaredBytes (declarations statements) % 4294967296) := by
  obtain ⟨symbol, at_, named, typed, offset⟩ := assembled.symbol declared
  have placed := assembled.access_word declared found accesses
  have length : program.data.length = declaredBytes (declarations statements) % 4294967296 := assembled.data_length
  have bounded : program.data.length < 4294967296 := by omega
  have value : (BitVec.ofNat 32 (nameOffset (declarations statements) name)).toNat =
      nameOffset (declarations statements) name := by
    rw [BitVec.toNat_ofNat, nameOffset]
    omega
  have survives : Addresses program symbol access
    (access.encode (BitVec.ofNat 32 (nameOffset (declarations statements) name))) ↔
      _ := addresses_encode_iff bounded
  rw [value, offset, typed, length] at survives
  rw [← survives]
  constructor
  · rintro ⟨symbol', word, at', _, _, placed', addresses⟩
    rw [at_] at at'
    rw [placed] at placed'
    cases at'
    cases placed'
    exact addresses
  · intro addresses
    exact ⟨symbol, _, at_, named, typed, placed, addresses⟩

/-- An instruction that names a data symbol accesses the offset assigned to it,
without fault where the symbol has the size of a word, if and only if the
offset survives the immediate field and the name does not stand for another. -/
theorem data_symbol_addressed_iff (accepted : assemble source = .ok program)
    (read : Source.read source = some statements)
    {j k : Nat} {name : Text} {type : DataType} (declared : (declarations statements)[j]? = some (name, type))
    {instruction : Instruction} {access : DataAccess} (found : (instructions statements)[k]? = some instruction)
    (accesses : instruction.dataAccess? = some (access, name)) :
    (∃ symbol word, (dataSymbols source)[j]? = some symbol ∧ symbol.name = name ∧ symbol.type = type ∧
        program.code[k]? = some word ∧ Addresses program symbol access word) ↔
      symbolOffset (declarations statements) j % 4096 = nameOffset (declarations statements) name % 4096 ∧
        access.Reaches (symbolOffset (declarations statements) j) ∧
        (type = .Word ∨ type = .QWord → symbolOffset (declarations statements) j + access.width type ≤
          declaredBytes (declarations statements) % 4294967296) := by
  obtain ⟨first, second, assembled⟩ := exists_assembled_of_read accepted read
  exact assembled.addressed_iff declared found accesses

end Symbols

/-- Two symbols, and an access to the second of them. -/
def printSecond : List Statement :=
  [.openSection .Data, .declaration "QWORD".toList "x".toList "7".toList,
    .declaration "WORD".toList "y".toList "5".toList,
    .openSection .Code, .instruction ⟨"call".toList, [.name "print".toList, .memory "y".toList]⟩,
    .instruction ⟨"halt".toList, []⟩]

def printSecondProgram : AssembledProgram :=
  { code := [encodeCall .Print 8, encodeInstruction Opcode.HALT.toByte 0 0 0 0]
    data := [7, 0, 0, 0, 0, 0, 0, 0, 5, 0, 0, 0] }

theorem data_symbol_addressed_printSecond :
    ∃ symbol word, (dataSymbols (render (printSecond.map plainLine)))[1]? = some symbol ∧ symbol.name = "y".toList ∧
      symbol.type = .Word ∧ printSecondProgram.code[0]? = some word ∧
        Addresses printSecondProgram symbol .print word := by
  have accepted : assemble (render (printSecond.map plainLine)) = .ok printSecondProgram :=
    accepted_of_toOption (by decide +kernel)
  have read : Source.read (render (printSecond.map plainLine)) = some printSecond := by decide +kernel
  exact (data_symbol_addressed_iff accepted read rfl rfl rfl).mpr ⟨by decide, .inl (by decide), fun _ => by decide⟩

/-- A word behind 2048 bytes of data, and a load of it. -/
def loadFar : List Statement :=
  .openSection .Data :: List.replicate 256 (.declaration "QWORD".toList "p".toList "0".toList) ++
    [.declaration "WORD".toList "s".toList "1".toList, .openSection .Code,
      .instruction ⟨"load".toList, [.register "r0".toList, .memory "s".toList]⟩, .instruction ⟨"halt".toList, []⟩]

theorem read_loadFar : Source.read (render (loadFar.map plainLine)) = some loadFar := by
  have dataOpens : SourceSection.Data ≠ .None := by decide
  have codeOpens : SourceSection.Code ≠ .None := by decide
  have code : FitFrom .Data [.statement (.declaration "WORD".toList "s".toList "1".toList),
      .statement (.openSection .Code),
      .statement (.instruction ⟨"load".toList, [.register "r0".toList, .memory "s".toList]⟩),
      .statement (.instruction ⟨"halt".toList, []⟩)] :=
    ⟨⟨rfl, rfl⟩, codeOpens, ⟨rfl, rfl, rfl⟩, ⟨rfl, rfl, rfl⟩, trivial⟩
  have quad : (Item.statement (.declaration "QWORD".toList "p".toList "0".toList)).Fits .Data := ⟨rfl, rfl⟩
  have fit : FitFrom .None (loadFar.map Item.statement) := by
    rw [loadFar, List.map_append, List.map_cons, List.map_replicate]
    exact ⟨dataOpens, fitFrom_replicate quad rfl code 256⟩
  exact read_render (by decide) (by decide +kernel) fit

theorem data_symbol_addressed_fails_for_loadFar :
    ¬ ∀ (source : Text) (program : AssembledProgram) (statements : List Statement) (j k : Nat) (name : Text)
        (type : DataType) (instruction : Instruction) (access : DataAccess), assemble source = .ok program →
        Source.read source = some statements → (declarations statements)[j]? = some (name, type) →
        (instructions statements)[k]? = some instruction → instruction.dataAccess? = some (access, name) →
        ∃ symbol word, (dataSymbols source)[j]? = some symbol ∧ symbol.name = name ∧ symbol.type = type ∧
          program.code[k]? = some word ∧ Addresses program symbol access word := by
  intro addressed
  have translated : (translate loadFar).isSome = true := by decide +kernel
  have whole : (assemble (render (loadFar.map plainLine))).toOption = translate loadFar := by
    rw [assemble_toOption, read_loadFar, Option.bind_some]
  cases ran : assemble (render (loadFar.map plainLine)) with
  | error e =>
    rw [ran] at whole
    rw [← whole] at translated
    cases translated
  | ok program =>
    obtain ⟨first, second, assembled⟩ := exists_assembled_of_read ran read_loadFar
    have declared : (declarations loadFar)[256]? = some ("s".toList, .Word) := by decide +kernel
    have found : (instructions loadFar)[0]? = some ⟨"load".toList, [.register "r0".toList, .memory "s".toList]⟩ := by
      decide +kernel
    have accesses : Instruction.dataAccess? ⟨"load".toList, [.register "r0".toList, .memory "s".toList]⟩ =
        some (.load 0, "s".toList) := rfl
    have all := addressed _ _ _ _ _ _ _ _ _ ran read_loadFar declared found accesses
    have reaches := ((assembled.addressed_iff declared found accesses).mp all).2.1
    have offset : symbolOffset (declarations loadFar) 256 = 2048 := by decide +kernel
    rw [offset] at reaches
    rcases reaches with low | high
    · exact absurd low (by decide)
    · exact absurd high (by decide)

end Source

end VirtualMachine
