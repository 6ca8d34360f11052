import VirtualMachine.Os.LoadedImage

namespace VirtualMachine

open LittleEndian

/-- The program can be read back from the memory of the process, and its data
segment ends where the data does. -/
structure ImageFaithful (memory : ProcessMemory) (program : AssembledProgram) : Prop where
  code : ∀ i word, program.code[i]? = some word → memory.readCodeWord (BitVec.ofNat 32 i) = .ok word
  data : ∀ j byte, program.data[j]? = some byte → memory.readDataByte (BitVec.ofNat 32 j) = .ok byte
  readWord : ∀ offset : Address, program.data.length < offset.toNat + wordSize →
    ∃ e, memory.readDataWord offset = .error e
  writeWord : ∀ (offset : Address) value, program.data.length < offset.toNat + wordSize →
    ∃ e, memory.writeDataWord offset value = .error e
  readByte : ∀ offset : Address, program.data.length < offset.toNat + 1 → ∃ e, memory.readDataByte offset = .error e
  writeByte : ∀ (offset : Address) value, program.data.length < offset.toNat + 1 →
    ∃ e, memory.writeDataByte offset value = .error e

namespace ProgramLoader

/-- A load succeeds only where a region is free and the image ends in memory. -/
theorem loads_of_load {physical after : PhysicalMemory} {program : AssembledProgram} {layout : MemoryRegionLayout}
    (bounded : physical.size < 2 ^ 32) (loaded : load physical program = (.ok layout, after)) :
    Loads physical program := by
  by_contra refused
  obtain ⟨e, other, failed, _⟩ := load_of_not_loads refused bounded
  rw [loaded] at failed
  cases (Prod.mk.inj failed).1

section Code

variable {layout : MemoryRegionLayout} {i : Nat}

/-- Each word of the code is where it was written: the words that the loop
writes after it lie above it. -/
theorem loadCodeFrom_wordAt {words : List Word} {physical after : PhysicalMemory} (code : layout.codeOffset.toNat = 0)
    (inside : layout.base.toNat + 4 * (i + words.length) ≤ physical.size) (bounded : physical.size < 2 ^ 32)
    (ran : ProcessMemory.loadCodeFrom layout i words physical = (.ok (), after)) {j : Nat} {word : Word}
    (at? : words[j]? = some word) {address : Address} (here : address.toNat = layout.base.toNat + 4 * (i + j)) :
    after.wordAt address = word := by
  induction words generalizing i j physical with
  | nil => cases at?
  | cons first rest ih =>
    rw [List.length_cons] at inside
    have place := writeCodeWord_address (i := i) code (by omega)
    have written : (ProcessMemory.mk physical layout).writeCodeWord (BitVec.ofNat 32 i) first =
        .ok (physical.putWord (ProcessMemory.codeWordAddress layout (BitVec.ofNat 32 i)) first) :=
      PhysicalMemory.writeWord_ok first (by dsimp only; omega)
    rw [ProcessMemory.loadCodeFrom, written] at ran
    have ran : ProcessMemory.loadCodeFrom layout (i + 1) rest
        (physical.putWord (ProcessMemory.codeWordAddress layout (BitVec.ofNat 32 i)) first) = (.ok (), after) := ran
    cases j with
    | zero =>
      have top : first = word := Option.some.inj at?
      obtain ⟨outcome, other, ran', changes, _⟩ := loadCodeFrom_spec (i := i + 1) rest
        (physical.putWord (ProcessMemory.codeWordAddress layout (BitVec.ofNat 32 i)) first) code
        (by rw [PhysicalMemory.size_putWord]; omega) (by rw [PhysicalMemory.size_putWord]; omega)
      cases ran.symm.trans ran'
      have same : address = ProcessMemory.codeWordAddress layout (BitVec.ofNat 32 i) :=
        BitVec.eq_of_toNat_eq (by omega)
      have kept : after.wordAt address =
          (physical.putWord (ProcessMemory.codeWordAddress layout (BitVec.ofNat 32 i)) first).wordAt address :=
        PhysicalMemory.wordAt_congr (fun k low high => changes.outside k (by omega))
      rw [kept, same, PhysicalMemory.wordAt_putWord_same, top]
    | succ j =>
      have later : rest[j]? = some word := at?
      exact ih (by rw [PhysicalMemory.size_putWord]; omega) (by rw [PhysicalMemory.size_putWord]; omega) ran later
        (by omega)

end Code

section Data

variable {layout : MemoryRegionLayout} {physical after : PhysicalMemory} {data : List Byte}

/-- The constructor puts the data at the start of its segment, and changes no
other byte. -/
theorem create_memory (created : (ProcessMemory.mk physical layout).create data = .ok after) (k : Nat) :
    after.memory k =
      (if layout.dataAddress.toNat ≤ k then data[k - layout.dataAddress.toNat]? else none).getD
        (physical.memory k) := by
  by_cases empty : data = []
  · subst empty
    cases created
    have none_ : ([] : List Byte)[k - layout.dataAddress.toNat]? = none := rfl
    rw [none_, ite_self]
    rfl
  · have nonempty : data.isEmpty = false := by simpa using empty
    rw [ProcessMemory.create, nonempty, if_neg (by decide)] at created
    cases checked : (ProcessMemory.mk physical layout).validateDataOffset 0 data.length with
    | error e =>
      rw [checked] at created
      cases created
    | ok _ =>
      rw [checked] at created
      have created : physical.writeBytes layout.dataAddress data = .ok after := created
      rw [PhysicalMemory.writeBytes] at created
      cases range : physical.validateRange layout.dataAddress data.length with
      | error e =>
        rw [range] at created
        cases created
      | ok _ =>
        rw [range] at created
        cases created
        refine (write_apply physical.memory layout.dataAddress.toNat data.length (fun i => data.getD i 0) k).trans ?_
        by_cases above : layout.dataAddress.toNat ≤ k
        · rw [if_pos above]
          by_cases inside : k < layout.dataAddress.toNat + data.length
          · rw [if_pos ⟨above, inside⟩, List.getElem?_eq_getElem (by omega), Option.getD_some,
              List.getD_eq_getElem?_getD, List.getElem?_eq_getElem (by omega), Option.getD_some]
          · rw [if_neg (fun both => inside both.2), List.getElem?_eq_none (by omega), Option.getD_none]
        · rw [if_neg (fun both => above both.1), if_neg above, Option.getD_none]

theorem create_byteAt (created : (ProcessMemory.mk physical layout).create data = .ok after) {j : Nat} {byte : Byte}
    (at? : data[j]? = some byte) : after.memory (layout.dataAddress.toNat + j) = byte := by
  rw [create_memory created, if_pos (Nat.le_add_right _ _), Nat.add_sub_cancel_left, at?, Option.getD_some]

end Data

/-- The bytes of a program are in memory after its load: the code at the base
of its region, and the data behind it. -/
theorem load_contents {physical after : PhysicalMemory} {program : AssembledProgram} {layout : MemoryRegionLayout}
    (bounded : physical.size + kStackSize < 2 ^ 32) (loaded : load physical program = (.ok layout, after)) :
    layout = layoutFor physical.nextFreeAddress program ∧ after.size = physical.size ∧
      (∀ i word, program.code[i]? = some word →
        ∀ address : Address, address.toNat = layout.base.toNat + 4 * i → after.wordAt address = word) ∧
      ∀ j byte, program.data[j]? = some byte → after.memory (layout.dataAddress.toNat + j) = byte := by
  have loads := loads_of_load (by omega) loaded
  obtain ⟨room, inside⟩ := loads
  have packed : (layoutFor physical.nextFreeAddress program).Packed := layoutFor_packed (by omega)
  have dataSize : (layoutFor physical.nextFreeAddress program).dataSize = program.data.length := rfl
  have dataAddress := packed.dataAddress
  rw [base_layoutFor, codeSize_layoutFor] at dataAddress
  rw [load] at loaded
  rw [PhysicalMemory.allocateRegion_ok room] at loaded
  dsimp only at loaded
  rcases create_spec (physical.allocated kDefaultProcessMemorySize) dataSize
    with ⟨_, middle, created, changed⟩ | ⟨_, e, failed⟩
  · have sizes : middle.size = physical.size := changed.size.trans (PhysicalMemory.size_allocated _)
    obtain ⟨outcome, other, ran, changes, success⟩ := loadCode_spec program (by omega) (by omega) sizes
    rw [success.mpr (by omega)] at ran
    rw [created] at loaded
    dsimp only at loaded
    rw [ran] at loaded
    cases loaded
    refine ⟨rfl, changes.size.trans sizes, ?_, ?_⟩
    · intro i word at? address here
      have codeInside : physical.nextFreeAddress.toNat + 4 * (0 + program.code.length) ≤ middle.size := by omega
      have middleBounded : middle.size < 2 ^ 32 := by omega
      refine loadCodeFrom_wordAt (i := 0) rfl codeInside middleBounded ran at? ?_
      rw [here, Nat.zero_add]
    · -- The code ends below the data.
      intro j byte at?
      rw [changes.outside _ (by omega)]
      exact create_byteAt created at?
  · rw [failed] at loaded
    cases loaded

/-- What a load puts in memory can be read back, and nothing beyond the data: the
code words and the data bytes are those of the program, wherever its region lies and
whatever the memory has held before. -/
theorem loaded_image_faithful {physical after : PhysicalMemory} {program : AssembledProgram}
    {layout : MemoryRegionLayout} (size : physical.size = kDefaultPhysicalMemorySize)
    (loaded : load physical program = (.ok layout, after)) : ImageFaithful ⟨after, layout⟩ program := by
  have megabyte : kDefaultPhysicalMemorySize = 1048576 := rfl
  have stack : kStackSize = 4096 := rfl
  obtain ⟨room, inside⟩ := loads_of_load (by omega) loaded
  obtain ⟨rfl, sizes, words, bytes⟩ := load_contents (by omega) loaded
  have packed : (layoutFor physical.nextFreeAddress program).Packed := layoutFor_packed (by omega)
  have dataAddress := packed.dataAddress
  rw [base_layoutFor, codeSize_layoutFor] at dataAddress
  have outside : ∀ (offset : Address) width, program.data.length < offset.toNat + width →
      (ProcessMemory.mk after (layoutFor physical.nextFreeAddress program)).validateDataOffset offset width =
        .error (ProcessMemory.segmentError "data" offset) :=
    fun offset width beyond => ProcessMemory.validateDataOffset_error beyond
  refine ⟨?_, ?_, ?_, ?_, ?_, ?_⟩
  · intro i word at?
    have bound : i < program.code.length := (List.getElem?_eq_some_iff.mp at?).1
    have index : (BitVec.ofNat 32 i).toNat = i := by
      rw [BitVec.toNat_ofNat, Nat.mod_eq_of_lt (by omega)]
    have inside : (BitVec.ofNat 32 i).toNat * 4 + 4 ≤ (layoutFor physical.nextFreeAddress program).codeSize := by
      rw [index, codeSize_layoutFor]
      omega
    have address := packed.codeWordAddress inside
    rw [index, base_layoutFor] at address
    have read : (ProcessMemory.mk after (layoutFor physical.nextFreeAddress program)).readCodeWord (BitVec.ofNat 32 i) =
        .ok (after.wordAt (ProcessMemory.codeWordAddress (layoutFor physical.nextFreeAddress program)
          (BitVec.ofNat 32 i))) :=
      PhysicalMemory.readWord_ok (by dsimp only; omega)
    rw [read, words i word at? _ (by rw [base_layoutFor]; omega)]
  · intro j byte at?
    have bound : j < program.data.length := (List.getElem?_eq_some_iff.mp at?).1
    have index : (BitVec.ofNat 32 j).toNat = j := by
      rw [BitVec.toNat_ofNat, Nat.mod_eq_of_lt (by omega)]
    have inside : (BitVec.ofNat 32 j).toNat ≤ (layoutFor physical.nextFreeAddress program).dataSize := by
      rw [index, dataSize_layoutFor]
      omega
    have address := packed.dataOffsetAddress inside
    rw [index, base_layoutFor, codeSize_layoutFor] at address
    have checked : (ProcessMemory.mk after (layoutFor physical.nextFreeAddress program)).validateDataOffset
        (BitVec.ofNat 32 j) 1 = .ok () :=
      ProcessMemory.validateDataOffset_ok (by rw [index, dataSize_layoutFor]; omega)
    rw [ProcessMemory.readDataByte, checked]
    change after.readByte ((layoutFor physical.nextFreeAddress program).dataAddress + BitVec.ofNat 32 j) = _
    rw [PhysicalMemory.readByte, PhysicalMemory.validateRange_ok (by omega), address]
    refine congrArg Except.ok ?_
    have stored := bytes j byte at?
    rwa [dataAddress] at stored
  · intro offset beyond
    rw [ProcessMemory.readDataWord, outside offset wordSize beyond]
    exact ⟨_, rfl⟩
  · intro offset value beyond
    rw [ProcessMemory.writeDataWord, outside offset wordSize beyond]
    exact ⟨_, rfl⟩
  · intro offset beyond
    rw [ProcessMemory.readDataByte, outside offset 1 beyond]
    exact ⟨_, rfl⟩
  · intro offset value beyond
    rw [ProcessMemory.writeDataByte, outside offset 1 beyond]
    exact ⟨_, rfl⟩

/-- Two code words and three bytes of data. -/
def wordsAndBytes : AssembledProgram := ⟨[0x1900F007, 0x17000000], [1, 2, 3]⟩

theorem loaded_image_faithful_wordsAndBytes :
    ∃ layout after, load {} wordsAndBytes = (.ok layout, after) ∧ ImageFaithful ⟨after, layout⟩ wordsAndBytes := by
  have loads : Loads {} wordsAndBytes := by decide
  obtain ⟨after, loaded, -⟩ := load_of_loads loads (by decide)
  exact ⟨_, after, loaded, loaded_image_faithful rfl loaded⟩

end ProgramLoader

end VirtualMachine
