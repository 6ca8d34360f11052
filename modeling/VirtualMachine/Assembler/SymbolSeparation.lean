import VirtualMachine.Assembler.DataAddressing
import VirtualMachine.Assembler.DataImage

namespace VirtualMachine

open LittleEndian VirtualMachine.Parser

namespace DataAccess

/-- The accesses that deliver a word of the data. -/
def reads : DataAccess → Bool
  | .load _ | .print => true
  | .store _ | .scan | .path => false

/-- The word that an access has delivered, into a register or to the output. -/
def obtained : DataAccess → Except Exception Progress × ExecutionContext → Option Word
  | .load rd, (.ok _, after) => some (after.registers.get (rd.setWidth 4))
  | .print, (.ok _, after) => after.output.getLast?.map Prod.snd
  | _, _ => none

variable {ctx : ExecutionContext} {access : DataAccess} {offset : Address}

/-- An access changes the word at its offset at most. -/
theorem perform_memory {k : Nat} (outside : k < (ctx.process.layout.dataAddress + offset).toNat ∨
      (ctx.process.layout.dataAddress + offset).toNat + 4 ≤ k) :
    (access.perform offset ctx).2.physical.memory k = ctx.physical.memory k := by
  cases access with
  | load rd =>
    rw [perform, readWord]
    cases ctx.memory.readDataWord offset <;> rfl
  | store rd =>
    rw [perform, writeWord]
    by_cases inside : ctx.memory.DataAccess offset
    · rw [ProcessMemory.writeDataWord_ok _ inside]
      exact PhysicalMemory.memory_putWord_outside outside
    · obtain ⟨message, refused⟩ := ProcessMemory.writeDataWord_error (ctx.registers.get (rd.setWidth 4)) inside
      rw [refused]
      rfl
  | print =>
    rw [perform, SyscallHandler.handle]
    cases ctx.memory.readDataWord offset <;> rfl
  | scan =>
    rw [perform, SyscallHandler.handle]
    cases input : ctx.input with
    | nil => rfl
    | cons value rest =>
      dsimp only
      by_cases inside : ({ ctx with input := rest } : ExecutionContext).memory.DataAccess offset
      · rw [ProcessMemory.writeDataWord_ok _ inside]
        exact PhysicalMemory.memory_putWord_outside outside
      · obtain ⟨message, refused⟩ := ProcessMemory.writeDataWord_error value inside
        rw [refused]
        rfl
  | path =>
    rw [perform, SyscallHandler.handle]
    cases SyscallHandler.readLoadPath ctx.memory offset 256 0 <;> rfl

/-- An access that is refused changes nothing and delivers nothing. -/
theorem perform_refused (outside : ¬ ctx.memory.DataAccess offset) :
    (access.perform offset ctx).2.physical = ctx.physical ∧ access.obtained (access.perform offset ctx) = none := by
  cases access with
  | load rd =>
    obtain ⟨message, refused⟩ := ProcessMemory.readDataWord_error outside
    rw [perform, readWord, refused]
    exact ⟨rfl, rfl⟩
  | store rd =>
    obtain ⟨message, refused⟩ := ProcessMemory.writeDataWord_error (ctx.registers.get (rd.setWidth 4)) outside
    rw [perform, writeWord, refused]
    exact ⟨rfl, rfl⟩
  | print =>
    obtain ⟨message, refused⟩ := ProcessMemory.readDataWord_error outside
    rw [perform, SyscallHandler.handle, refused]
    exact ⟨rfl, rfl⟩
  | scan =>
    rw [perform, SyscallHandler.handle]
    cases input : ctx.input with
    | nil => exact ⟨rfl, rfl⟩
    | cons value rest =>
      have outside' : ¬ ({ ctx with input := rest } : ExecutionContext).memory.DataAccess offset := outside
      obtain ⟨message, refused⟩ := ProcessMemory.writeDataWord_error value outside'
      dsimp only
      rw [refused]
      exact ⟨rfl, rfl⟩
  | path =>
    rw [perform, SyscallHandler.handle]
    cases SyscallHandler.readLoadPath ctx.memory offset 256 0 <;> exact ⟨rfl, rfl⟩

/-- What is delivered is the word at the offset. -/
theorem obtained_perform (inside : ctx.memory.DataAccess offset) :
    access.obtained (access.perform offset ctx) =
      if access.reads then some (ctx.physical.wordAt (ctx.process.layout.dataAddress + offset)) else none := by
  cases access with
  | load rd =>
    rw [perform, readWord, ProcessMemory.readDataWord_ok inside]
    exact congrArg some (RegisterFile.get_set_same _ _ _)
  | print =>
    rw [perform, SyscallHandler.handle, ProcessMemory.readDataWord_ok inside]
    exact congrArg (Option.map Prod.snd) (List.getLast?_concat)
  | store rd => rfl
  | scan => rfl
  | path => rfl

theorem perform_store (rd : Byte) (inside : ctx.memory.DataAccess offset) :
    ((store rd).perform offset ctx).2.physical =
      ctx.physical.putWord (ctx.process.layout.dataAddress + offset) (ctx.registers.get (rd.setWidth 4)) := by
  rw [perform, writeWord, ProcessMemory.writeDataWord_ok _ inside]
  rfl

theorem perform_scan {value : Word} {rest : List Word} (input : ctx.input = value :: rest)
    (inside : ctx.memory.DataAccess offset) :
    (scan.perform offset ctx).2.physical = ctx.physical.putWord (ctx.process.layout.dataAddress + offset) value := by
  have inside' : ({ ctx with input := rest } : ExecutionContext).memory.DataAccess offset := inside
  rw [perform, SyscallHandler.handle, input]
  dsimp only
  rw [ProcessMemory.writeDataWord_ok _ inside']
  rfl

end DataAccess

/-- A segment that holds the data, at addresses of 32 bits. -/
structure ExecutionContext.SeesData (ctx : ExecutionContext) (data : List Byte) : Prop extends ctx.HoldsData data where
  addresses : ctx.process.layout.dataAddress.toNat + data.length ≤ 4294967296

namespace ExecutionContext.SeesData

variable {ctx : ExecutionContext} {data : List Byte} {offset : Address}

theorem dataAddress_add (sees : ctx.SeesData data) (inside : offset.toNat < data.length) :
    (ctx.process.layout.dataAddress + offset).toNat = ctx.process.layout.dataAddress.toNat + offset.toNat := by
  have addresses := sees.addresses
  rw [BitVec.toNat_add, Nat.mod_eq_of_lt (by omega)]

theorem dataAccess_iff (sees : ctx.SeesData data) : ctx.memory.DataAccess offset ↔ offset.toNat + 4 ≤ data.length := by
  have size := sees.size
  have inMemory := sees.inMemory
  constructor
  · intro access
    rw [← size]
    exact access.1
  · intro inside
    have place := sees.dataAddress_add (show offset.toNat < data.length by omega)
    refine ⟨?_, ?_⟩ <;> simp only [ExecutionContext.memory] <;> omega

end ExecutionContext.SeesData

namespace Source

/-- Executing the word changes no byte of a symbol other than number `j`, and
the value it delivers is made of the bytes of that symbol. -/
structure KeepsApart (source : Text) (program : AssembledProgram) (j : Nat) (access : DataAccess) (word : Word) :
    Prop where
  writes : ∀ ctx : ExecutionContext, ctx.fetch? = some (decodeInstruction word) → ctx.SeesData program.data →
    ∀ i symbol, i ≠ j → (dataSymbols source)[i]? = some symbol → ∀ k, k < dataTypeSize symbol.type →
      (beginInstruction ctx).2.physical.memory (ctx.process.layout.dataAddress.toNat + (symbol.offset.toNat + k)) =
        ctx.physical.memory (ctx.process.layout.dataAddress.toNat + (symbol.offset.toNat + k))
  reads : ∀ ctx ctx' : ExecutionContext, ctx.fetch? = some (decodeInstruction word) →
    ctx'.fetch? = some (decodeInstruction word) → ctx.SeesData program.data → ctx'.SeesData program.data →
    (∀ symbol, (dataSymbols source)[j]? = some symbol → ∀ k, k < dataTypeSize symbol.type →
      ctx.physical.memory (ctx.process.layout.dataAddress.toNat + (symbol.offset.toNat + k)) =
        ctx'.physical.memory (ctx'.process.layout.dataAddress.toNat + (symbol.offset.toNat + k))) →
    access.obtained (beginInstruction ctx) = access.obtained (beginInstruction ctx')

variable {source : Text} {program : AssembledProgram} {statements : List Statement} {first second : Parser} {j k : Nat}
  {name : Text} {type : DataType} {instruction : Instruction} {access : DataAccess} {word : Word} {offset : Address}

/-- The first declaration of a name is the one it stands for. -/
theorem nameOffset_of_first (found : (declarations statements).findIdx?
    (fun declaration => declaration.1 == name) = some j) :
    nameOffset (declarations statements) name = symbolOffset (declarations statements) j := by
  have index := (List.findIdx?_eq_some_iff_findIdx_eq.mp found).2
  unfold nameOffset symbolOffset
  rw [List.takeWhile_eq_take_findIdx_not]
  simp only [bne, Bool.not_not, index]

/-- Symbols lie one after the other. -/
theorem Assembled.symbol_place (assembled : Assembled source program statements first second)
    (bounded : declaredBytes (declarations statements) < 4294967296) {i : Nat} {symbol : DataSymbol}
    (at? : (dataSymbols source)[i]? = some symbol) :
    (declarations statements)[i]? = some (symbol.name, symbol.type) ∧
      symbol.offset.toNat = declaredBytes ((declarations statements).take i) ∧
      symbol.offset.toNat + dataTypeSize symbol.type = declaredBytes ((declarations statements).take (i + 1)) := by
  obtain ⟨literal, declared, offset⟩ := assembled.datum_of_symbol bounded at?
  have declared' : (declarations statements)[i]? = some (symbol.name, symbol.type) := by
    rw [← dataTypes_declaredData, dataTypes, List.getElem?_map, declared]
    rfl
  refine ⟨declared', offset, ?_⟩
  rw [offset, declaredBytes_take_succ declared']

/-- Two symbols do not overlap. -/
theorem Assembled.symbols_disjoint (assembled : Assembled source program statements first second)
    (bounded : declaredBytes (declarations statements) < 4294967296) {i : Nat} {symbol symbol' : DataSymbol}
    (at? : (dataSymbols source)[i]? = some symbol) (at?' : (dataSymbols source)[j]? = some symbol') (other : i ≠ j) :
    symbol.offset.toNat + dataTypeSize symbol.type ≤ symbol'.offset.toNat ∨
      symbol'.offset.toNat + dataTypeSize symbol'.type ≤ symbol.offset.toNat := by
  obtain ⟨_, start, finish⟩ := assembled.symbol_place bounded at?
  obtain ⟨_, start', finish'⟩ := assembled.symbol_place bounded at?'
  rcases Nat.lt_or_gt_of_ne other with before | after
  · have ordered : declaredBytes ((declarations statements).take (i + 1)) ≤
      declaredBytes ((declarations statements).take j) :=
      declaredBytes_take_le _ before
    omega
  · have ordered : declaredBytes ((declarations statements).take (j + 1)) ≤
      declaredBytes ((declarations statements).take i) :=
      declaredBytes_take_le _ after
    omega

/-- A symbol with less than a word, and data up to the end of the word, has a
next symbol. -/
theorem Assembled.next_symbol (assembled : Assembled source program statements first second)
    (bounded : declaredBytes (declarations statements) < 4294967296) {symbol : DataSymbol}
    (at? : (dataSymbols source)[j]? = some symbol)
    (more : symbol.offset.toNat + dataTypeSize symbol.type < declaredBytes (declarations statements)) :
    ∃ next, (dataSymbols source)[j + 1]? = some next ∧
      next.offset.toNat = symbol.offset.toNat + dataTypeSize symbol.type := by
  obtain ⟨_, _, finish⟩ := assembled.symbol_place bounded at?
  have inside : j + 1 < (declarations statements).length := by
    by_contra beyond
    rw [List.take_of_length_le (Nat.le_of_not_lt beyond)] at finish
    omega
  obtain ⟨⟨name, type⟩, declared⟩ : ∃ declaration, (declarations statements)[j + 1]? = some declaration :=
    ⟨_, List.getElem?_eq_getElem inside⟩
  obtain ⟨next, at_, _, _, _⟩ := assembled.symbol declared
  refine ⟨next, at_, ?_⟩
  rw [(assembled.symbol_place bounded at_).2.1, finish]

/-- The accesses at a symbol, in terms of the word at its offset. -/
theorem keepsApart_of_window (assembled : Assembled source program statements first second)
    (bounded : declaredBytes (declarations statements) < 4294967296) {symbol : DataSymbol}
    (at? : (dataSymbols source)[j]? = some symbol)
    (performs : ∀ ctx : ExecutionContext, ctx.fetch? = some (decodeInstruction word) →
      beginInstruction ctx = access.perform symbol.offset ctx)
    (apart : 4 ≤ dataTypeSize symbol.type ∨ program.data.length < symbol.offset.toNat + 4) :
    KeepsApart source program j access word := by
  constructor
  · intro ctx fetched sees i other differs at?' k small
    rw [performs ctx fetched]
    by_cases inside : ctx.memory.DataAccess symbol.offset
    · have window := sees.dataAccess_iff.mp inside
      have place := sees.dataAddress_add (show symbol.offset.toNat < program.data.length by omega)
      have disjoint := assembled.symbols_disjoint bounded at?' at? differs
      refine DataAccess.perform_memory ?_
      rw [place]
      omega
    · rw [(DataAccess.perform_refused inside).1]
  · intro ctx ctx' fetched fetched' sees sees' same
    rw [performs ctx fetched, performs ctx' fetched']
    by_cases window : symbol.offset.toNat + 4 ≤ program.data.length
    · rw [DataAccess.obtained_perform (sees.dataAccess_iff.mpr window),
        DataAccess.obtained_perform (sees'.dataAccess_iff.mpr window)]
      have start : symbol.offset.toNat < program.data.length := by omega
      have place := sees.dataAddress_add start
      have place' := sees'.dataAddress_add start
      have words : ctx.physical.wordAt (ctx.process.layout.dataAddress + symbol.offset) =
          ctx'.physical.wordAt (ctx'.process.layout.dataAddress + symbol.offset) := by
        refine ofBytes_congr (fun i bound => ?_)
        have own := same symbol at? i (by simp only [wordSize] at bound; omega)
        rw [place, place', Nat.add_assoc, Nat.add_assoc]
        exact own
      rw [words]
    · rw [(DataAccess.perform_refused (fun inside => window (sees.dataAccess_iff.mp inside))).2,
        (DataAccess.perform_refused (fun inside => window (sees'.dataAccess_iff.mp inside))).2]

theorem probe_sees {data : List Byte} {ending : Nat} (bounded : data.length < 4294967296) :
    (DataAccess.probe word offset data.length ending).SeesData data where
  size := rfl
  inMemory := DataAccess.probe_inMemory (by omega)
  addresses := by
    have start : (DataAccess.probe word offset data.length ending).process.layout.dataAddress.toNat = 0 := rfl
    omega

/-- The bytes of a probe from the offset on. -/
theorem probe_byte {dataSize ending i : Nat} (near : i < 8) (bounded : offset.toNat + i < 4294967296) :
    (DataAccess.probe word offset dataSize ending).physical.memory
        ((DataAccess.probe word offset dataSize ending).process.layout.dataAddress.toNat + (offset.toNat + i)) =
      if offset.toNat + i = ending then 0 else 1 := by
  have byte : (DataAccess.probe word offset dataSize ending).physical.memory
      ((DataAccess.probe word offset dataSize ending).process.layout.dataAddress +
        (offset + BitVec.ofNat 32 i)).toNat = _ :=
    DataAccess.probe_memory near
  have start : (DataAccess.probe word offset dataSize ending).process.layout.dataAddress = 0#32 := rfl
  have place : (offset + BitVec.ofNat 32 i).toNat = offset.toNat + i := by
    rw [BitVec.toNat_add, BitVec.toNat_ofNat, Nat.mod_eq_of_lt (by omega : i < 2 ^ 32), Nat.mod_eq_of_lt bounded]
  rw [start, BitVec.zero_add, place] at byte
  rw [start]
  change (DataAccess.probe word offset dataSize ending).physical.memory (0 + (offset.toNat + i)) = _
  rw [Nat.zero_add]
  exact byte

/-- The lowest bit of such a byte, in the word at the offset. -/
theorem probe_bit {dataSize ending i : Nat} (near : i < 4) (bounded : offset.toNat + i < 4294967296) :
    ((DataAccess.probe word offset dataSize ending).physical.wordAt
        ((DataAccess.probe word offset dataSize ending).process.layout.dataAddress + offset)).getLsbD (8 * i) =
      (if offset.toNat + i = ending then 0 else 1 : Byte).getLsbD 0 := by
  have start : (DataAccess.probe word offset dataSize ending).process.layout.dataAddress = 0#32 := rfl
  have place : ((DataAccess.probe word offset dataSize ending).process.layout.dataAddress + offset).toNat =
      (DataAccess.probe word offset dataSize ending).process.layout.dataAddress.toNat + offset.toNat := by
    rw [start, BitVec.zero_add]
    exact (Nat.zero_add _).symm
  rw [PhysicalMemory.wordAt, getLsbD_ofBytes, Nat.mul_div_cancel_left _ (by decide), Nat.mul_mod_right, place,
    Nat.add_assoc, probe_byte (by omega) bounded, decide_eq_true (by omega : 8 * i < 32), decide_eq_true near,
    Bool.true_and, Bool.true_and]

/-- A word access at a narrower symbol that is not refused reaches the next one. -/
theorem not_keepsApart_of_window (assembled : Assembled source program statements first second)
    (bounded : declaredBytes (declarations statements) < 4294967296) {symbol : DataSymbol}
    (at? : (dataSymbols source)[j]? = some symbol)
    (performs : ∀ ctx : ExecutionContext, ctx.fetch? = some (decodeInstruction word) →
      beginInstruction ctx = access.perform symbol.offset ctx)
    (wordAccess : access ≠ .path) (narrow : dataTypeSize symbol.type < 4)
    (window : symbol.offset.toNat + 4 ≤ program.data.length) : ¬ KeepsApart source program j access word := by
  intro keeps
  have length : program.data.length = declaredBytes (declarations statements) := by
    rw [assembled.data_length]
    exact Nat.mod_eq_of_lt bounded
  obtain ⟨next, nextAt, start⟩ := assembled.next_symbol bounded at? (by omega)
  have positive := (DataAccess.dataTypeSize_le symbol.type).1
  have nextPositive := (DataAccess.dataTypeSize_le next.type).1
  have sees (ending : Nat) : (DataAccess.probe word symbol.offset program.data.length ending).SeesData program.data :=
    probe_sees (by omega)
  have inside (ending : Nat) := (sees ending).dataAccess_iff.mpr window
  -- A probe without a zero byte, into which a zero is written.
  have zeroes : ((DataAccess.perform symbol.offset (DataAccess.probe word symbol.offset program.data.length 4294967296)
      access).2.physical = (DataAccess.probe word symbol.offset program.data.length 4294967296).physical.putWord
        ((DataAccess.probe word symbol.offset program.data.length 4294967296).process.layout.dataAddress +
          symbol.offset) 0) →
      False := by
    intro written
    have kept := keeps.writes _ DataAccess.probe_fetch (sees 4294967296) (j + 1) next (by omega) nextAt 0 nextPositive
    rw [performs _ DataAccess.probe_fetch, written, Nat.add_zero, start, probe_byte (by omega) (by omega),
      if_neg (by omega)] at kept
    have place := (sees 4294967296).dataAddress_add (show symbol.offset.toNat < program.data.length by omega)
    have zero : (PhysicalMemory.putWord (DataAccess.probe word symbol.offset program.data.length 4294967296).physical
        ((DataAccess.probe word symbol.offset program.data.length 4294967296).process.layout.dataAddress +
          symbol.offset) 0).memory
          ((DataAccess.probe word symbol.offset program.data.length 4294967296).process.layout.dataAddress.toNat +
            (symbol.offset.toNat + dataTypeSize symbol.type)) = byteOf (0 : Word) (dataTypeSize symbol.type) := by
      rw [← Nat.add_assoc, ← place]
      exact write_inside narrow
    rw [zero] at kept
    have none_ : byteOf (0 : Word) (dataTypeSize symbol.type) = 0 := by
      cases symbol.type <;> decide
    rw [none_] at kept
    cases kept
  -- Two probes that differ in the first byte of the next symbol.
  have differs : access.reads = true → False := by
    intro reads
    have same := keeps.reads _ _ DataAccess.probe_fetch DataAccess.probe_fetch
      (sees (symbol.offset.toNat + dataTypeSize symbol.type)) (sees 4294967296) (by
        intro other at?' k small
        obtain rfl : symbol = other := Option.some.inj (at?.symm.trans at?')
        rw [probe_byte (by omega) (by omega), probe_byte (by omega) (by omega), if_neg (by omega), if_neg (by omega)])
    rw [performs _ DataAccess.probe_fetch, performs _ DataAccess.probe_fetch, DataAccess.obtained_perform (inside _),
      DataAccess.obtained_perform (inside _), if_pos reads, if_pos reads] at same
    have bit := congrArg (fun value => value.getLsbD (8 * dataTypeSize symbol.type)) (Option.some.inj same)
    rw [probe_bit narrow (by omega), probe_bit narrow (by omega), if_pos rfl, if_neg (by omega)] at bit
    exact absurd bit (by decide)
  cases access with
  | load rd => exact differs rfl
  | print => exact differs rfl
  | store rd => exact zeroes (DataAccess.perform_store rd (inside _))
  | scan => exact zeroes (DataAccess.perform_scan rfl (inside _))
  | path => exact wordAccess rfl

/-- The data section is packed and every access but a path is one of a word: an
access at an offset that its instruction can carry stays with its symbol exactly
when the symbol has a word, or when the word would end behind the data, so that
the access is refused. -/
theorem symbols_apart_iff (accepted : assemble source = .ok program) (read : Source.read source = some statements)
    (bounded : declaredBytes (declarations statements) < 4294967296)
    (declared : (declarations statements)[j]? = some (name, type))
    (firstOfName : (declarations statements).findIdx? (fun declaration => declaration.1 == name) = some j)
    (found : (instructions statements)[k]? = some instruction)
    (accesses : instruction.dataAccess? = some (access, name))
    (wordAccess : access ≠ .path) (reaches : access.Reaches (symbolOffset (declarations statements) j))
    (placed : program.code[k]? = some word) :
    KeepsApart source program j access word ↔
      4 ≤ dataTypeSize type ∨ declaredBytes (declarations statements) <
        symbolOffset (declarations statements) j + 4 := by
  obtain ⟨first, second, assembled⟩ := exists_assembled_of_read accepted read
  obtain ⟨symbol, at_, _, typed, offset⟩ := assembled.symbol declared
  have length : program.data.length = declaredBytes (declarations statements) := by
    rw [assembled.data_length]
    exact Nat.mod_eq_of_lt bounded
  have encoded := assembled.access_word declared found accesses
  rw [nameOffset_of_first firstOfName, ← offset, BitVec.ofNat_toNat, BitVec.setWidth_eq, placed] at encoded
  obtain rfl : word = access.encode symbol.offset := Option.some.inj encoded
  have decoded : access.decoded symbol.offset = symbol.offset :=
    DataAccess.decoded_eq_iff.mpr ⟨rfl, offset ▸ reaches⟩
  have performs : ∀ ctx : ExecutionContext, ctx.fetch? = some (decodeInstruction (access.encode symbol.offset)) →
      beginInstruction ctx = access.perform symbol.offset ctx := by
    intro ctx fetched
    rw [DataAccess.beginInstruction_encode fetched, decoded]
  rw [← length, ← offset, ← typed]
  constructor
  · intro keeps
    by_contra reached
    rw [not_or, Nat.not_le, Nat.not_lt] at reached
    exact not_keepsApart_of_window assembled bounded at_ performs wordAccess reached.1 reached.2 keeps
  · intro apart
    exact keepsApart_of_window assembled bounded at_ performs apart

theorem symbols_apart_printSecond :
    KeepsApart (render (printSecond.map plainLine)) printSecondProgram 1 .print (encodeCall .Print 8) := by
  have accepted : assemble (render (printSecond.map plainLine)) = .ok printSecondProgram :=
    accepted_of_toOption (by decide +kernel)
  have read : Source.read (render (printSecond.map plainLine)) = some printSecond := by decide +kernel
  exact (symbols_apart_iff (k := 0) accepted read (by decide) rfl (by decide) rfl rfl (by decide)
    (.inl (by decide)) rfl).mpr
    (.inl (by decide))

/-- A flag of one byte in front of a counter, and a store to the flag. -/
def storeFlag : Text := "DATA:\nBYTE flag 1\nWORD counter 2\nCODE:\nstore r0, [flag]\n".toList

def storeFlagStatements : List Statement :=
  [.openSection .Data, .declaration "BYTE".toList "flag".toList "1".toList,
    .declaration "WORD".toList "counter".toList "2".toList, .openSection .Code,
    .instruction ⟨"store".toList, [.register "r0".toList, .memory "flag".toList]⟩]

theorem symbols_apart_fails_for_storeFlag :
    ¬ ∀ (source : Text) (program : AssembledProgram) (statements : List Statement) (j k : Nat) (name : Text)
        (type : DataType) (instruction : Instruction) (access : DataAccess)
          (word : Word), assemble source = .ok program →
        Source.read source = some statements → (declarations statements)[j]? = some (name, type) →
        (declarations statements).findIdx? (fun declaration => declaration.1 == name) = some j →
        (instructions statements)[k]? = some instruction → instruction.dataAccess? = some (access, name) →
        access ≠ .path →
        program.code[k]? = some word → KeepsApart source program j access word := by
  intro apart
  have accepted : assemble storeFlag = .ok ⟨[0x15000000], [1, 2, 0, 0, 0]⟩ := by decide +kernel
  have read : Source.read storeFlag = some storeFlagStatements := by decide +kernel
  have keeps : KeepsApart storeFlag ⟨[0x15000000], [1, 2, 0, 0, 0]⟩ 0 (.store 0) 0x15000000 :=
    apart _ _ _ 0 0 "flag".toList .Byte _ _ _ accepted read rfl (by decide) rfl rfl (by decide) rfl
  have condition := (symbols_apart_iff (k := 0) accepted read (by decide) rfl (by decide) rfl rfl (by decide)
    (.inl (by decide)) rfl).mp keeps
  exact absurd condition (by decide)

end Source

end VirtualMachine
