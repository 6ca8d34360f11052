import VirtualMachine.Memory.Layout
import VirtualMachine.Os.ProgramLoader

namespace VirtualMachine

open LittleEndian

/-- Code, data and stack of a program fit the region of a process. -/
def AssembledProgram.Fits (program : AssembledProgram) : Prop :=
  4 * program.code.length + program.data.length + kStackSize ≤ kDefaultProcessMemorySize

instance (program : AssembledProgram) : Decidable program.Fits := inferInstanceAs (Decidable (_ ≤ _))

namespace ProgramLoader

/-- A region is free, and code and data end inside physical memory. -/
def Loads (physical : PhysicalMemory) (program : AssembledProgram) : Prop :=
  physical.nextFreeAddress.toNat + kDefaultProcessMemorySize ≤ physical.size ∧
    physical.nextFreeAddress.toNat + 4 * program.code.length + program.data.length ≤ physical.size

instance (physical : PhysicalMemory) (program : AssembledProgram) : Decidable (Loads physical program) :=
  inferInstanceAs (Decidable (_ ∧ _))

/-- A load changes only bytes at or above `start`, and keeps the size. -/
structure ChangesFrom (start finish : Nat) (before after : PhysicalMemory) : Prop where
  size : after.size = before.size
  nextFree : after.nextFreeAddress = before.nextFreeAddress
  outside : ∀ k, k < start ∨ finish ≤ k → after.memory k = before.memory k

theorem ChangesFrom.refl (start finish : Nat) (physical : PhysicalMemory) :
    ChangesFrom start finish physical physical :=
  ⟨rfl, rfl, fun _ _ => rfl⟩

theorem ChangesFrom.trans {start finish : Nat} {a b c : PhysicalMemory} (first : ChangesFrom start finish a b)
    (last : ChangesFrom start finish b c) : ChangesFrom start finish a c :=
  ⟨last.size.trans first.size, last.nextFree.trans first.nextFree,
    fun k apart => (last.outside k apart).trans (first.outside k apart)⟩

theorem ChangesFrom.mono {start finish start' finish' : Nat} {before after : PhysicalMemory}
    (changes : ChangesFrom start finish before after) (below : start' ≤ start) (above : finish ≤ finish') :
    ChangesFrom start' finish' before after :=
  ⟨changes.size, changes.nextFree, fun k apart => changes.outside k (by omega)⟩

section Code

variable {layout : MemoryRegionLayout} {i : Nat}

theorem writeCodeWord_address (code : layout.codeOffset.toNat = 0) (bounded : layout.base.toNat + 4 * i < 2 ^ 32) :
    (ProcessMemory.codeWordAddress layout (BitVec.ofNat 32 i)).toNat = layout.base.toNat + 4 * i := by
  have codeAddress : layout.codeAddress.toNat = layout.base.toNat := by
    rw [MemoryRegionLayout.codeAddress, BitVec.toNat_add, code, Nat.mod_eq_of_lt (by omega), Nat.add_zero]
  rw [ProcessMemory.codeWordAddress, BitVec.toNat_ofNat, BitVec.toNat_ofNat, codeAddress, wordSize,
    Nat.mod_eq_of_lt (a := i) (by omega), Nat.mod_eq_of_lt (by omega)]
  omega

/-- The loop writes word after word until the end of the code or of the memory. -/
theorem loadCodeFrom_spec (words : List Word) (physical : PhysicalMemory) (code : layout.codeOffset.toNat = 0)
    (start : layout.base.toNat + 4 * i ≤ physical.size) (bounded : physical.size < 2 ^ 32) :
    ∃ outcome after, ProcessMemory.loadCodeFrom layout i words physical = (outcome, after) ∧
      ChangesFrom (layout.base.toNat + 4 * i) (layout.base.toNat + 4 * (i + words.length)) physical after ∧
      (outcome = .ok () ↔ layout.base.toNat + 4 * (i + words.length) ≤ physical.size) := by
  induction words generalizing i physical with
  | nil => exact ⟨.ok (), physical, rfl, .refl _ _ _, by simpa using start⟩
  | cons word rest ih =>
    have address := writeCodeWord_address (i := i) code (by omega)
    simp only [ProcessMemory.loadCodeFrom, ProcessMemory.writeCodeWord]
    by_cases fits : layout.base.toNat + 4 * i + 4 ≤ physical.size
    · rw [PhysicalMemory.writeWord_ok word (by omega)]
      obtain ⟨outcome, after, ran, changes, success⟩ :=
        ih (i := i + 1) (physical.putWord (ProcessMemory.codeWordAddress layout (BitVec.ofNat 32 i)) word)
          (by simp only [PhysicalMemory.size_putWord]; omega) (by simpa using bounded)
      refine ⟨outcome, after, ran, ⟨changes.size, changes.nextFree, fun k apart => ?_⟩, ?_⟩
      · simp only [List.length_cons] at apart
        rw [changes.outside k (by omega), PhysicalMemory.memory_putWord_outside (by omega)]
      · rw [success, List.length_cons, PhysicalMemory.size_putWord]
        omega
    · rw [PhysicalMemory.writeWord_error word (by omega)]
      refine ⟨_, physical, rfl, .refl _ _ _, ?_⟩
      simp only [List.length_cons, reduceCtorEq, false_iff]
      omega

end Code

section Data

variable {layout : MemoryRegionLayout} {physical : PhysicalMemory}

theorem writeBytes_ok {address : Address} {buffer : List Byte} (fits : address.toNat + buffer.length ≤ physical.size) :
    ∃ after, physical.writeBytes address buffer = .ok after ∧
      ChangesFrom address.toNat (address.toNat + buffer.length) physical after := by
  rw [PhysicalMemory.writeBytes, PhysicalMemory.validateRange_ok fits]
  exact ⟨_, rfl, rfl, rfl, fun k apart => write_outside apart⟩

theorem create_spec (physical : PhysicalMemory) {data : List Byte} (size : layout.dataSize = data.length) :
    (data = [] ∨ layout.dataAddress.toNat + data.length ≤ physical.size) ∧
        (∃ after, (ProcessMemory.mk physical layout).create data = .ok after ∧
          ChangesFrom layout.dataAddress.toNat (layout.dataAddress.toNat + data.length) physical after) ∨
      ¬ (data = [] ∨ layout.dataAddress.toNat + data.length ≤ physical.size) ∧
        ∃ e, (ProcessMemory.mk physical layout).create data = .error e := by
  by_cases empty : data = []
  · subst empty
    exact Or.inl ⟨Or.inl rfl, physical, rfl, .refl _ _ _⟩
  · have nonempty : data.isEmpty = false := by simpa using empty
    have checked : (ProcessMemory.mk physical layout).validateDataOffset 0 data.length = .ok () :=
      ProcessMemory.validateDataOffset_ok (by simp [size])
    simp only [ProcessMemory.create, nonempty, checked, Bool.false_eq_true, if_false, empty, false_or]
    by_cases fits : layout.dataAddress.toNat + data.length ≤ physical.size
    · exact Or.inl ⟨fits, writeBytes_ok fits⟩
    · refine Or.inr ⟨fits, PhysicalMemory.rangeError layout.dataAddress, ?_⟩
      show physical.writeBytes layout.dataAddress data = _
      rw [PhysicalMemory.writeBytes, PhysicalMemory.validateRange_error (by omega)]
      rfl

end Data

variable {physical : PhysicalMemory} {program : AssembledProgram}

@[simp] theorem base_layoutFor (base : Address) : (layoutFor base program).base = base := rfl

@[simp] theorem codeSize_layoutFor (base : Address) :
    (layoutFor base program).codeSize = program.code.length * 4 := rfl

@[simp] theorem dataSize_layoutFor (base : Address) : (layoutFor base program).dataSize = program.data.length := rfl

@[simp] theorem stackSize_layoutFor (base : Address) : (layoutFor base program).stackSize = kStackSize := rfl

@[simp] theorem totalSize_layoutFor (base : Address) :
    (layoutFor base program).totalSize = kDefaultProcessMemorySize := rfl

/-- The layout of a program whose code and data end inside memory. -/
theorem layoutFor_packed {base : Address}
    (inside : base.toNat + 4 * program.code.length + program.data.length + kStackSize < 2 ^ 32) :
    (layoutFor base program).Packed where
  code := rfl
  data := by
    simp only [layoutFor, BitVec.toNat_ofNat, wordSize, kStackSize] at *
    omega
  stack := by
    simp only [layoutFor, BitVec.toNat_ofNat, wordSize, kStackSize] at *
    omega
  bounded := by
    simp only [layoutFor, wordSize] at *
    omega

theorem layoutFor_fitting {base : Address} (fits : program.Fits)
    (inside : base.toNat + kDefaultProcessMemorySize < 2 ^ 32) : (layoutFor base program).Fitting where
  toPacked := layoutFor_packed (by simp only [AssembledProgram.Fits] at fits; omega)
  room := by
    simp only [AssembledProgram.Fits] at fits
    simp only [layoutFor, wordSize]
    omega

/-- The code loop of a load, on the memory the data has been written to. -/
theorem loadCode_spec (program : AssembledProgram) {middle : PhysicalMemory}
    (room : physical.nextFreeAddress.toNat ≤ physical.size) (bounded : physical.size < 2 ^ 32)
    (size : middle.size = physical.size) :
    ∃ outcome after,
      (ProcessMemory.mk middle (layoutFor physical.nextFreeAddress program)).loadCode program.code =
        (outcome, after) ∧
      ChangesFrom physical.nextFreeAddress.toNat
        (physical.nextFreeAddress.toNat + 4 * program.code.length) middle after ∧
      (outcome = .ok () ↔ physical.nextFreeAddress.toNat + 4 * program.code.length ≤ physical.size) := by
  have codeOffset : (layoutFor physical.nextFreeAddress program).codeOffset.toNat = 0 := rfl
  obtain ⟨outcome, after, ran, changes, success⟩ := loadCodeFrom_spec (i := 0) program.code middle codeOffset
    (by rw [base_layoutFor, size]; omega) (by omega)
  rw [base_layoutFor, size, Nat.zero_add] at success
  rw [base_layoutFor, Nat.zero_add] at changes
  exact ⟨outcome, after, ran, changes, success⟩

/-- A load that succeeds: its layout, and the only bytes it can have changed. -/
theorem load_of_loads (loads : Loads physical program) (bounded : physical.size + kStackSize < 2 ^ 32) :
    ∃ after, load physical program = (.ok (layoutFor physical.nextFreeAddress program), after) ∧
      ChangesFrom physical.nextFreeAddress.toNat
        (physical.nextFreeAddress.toNat + 4 * program.code.length + program.data.length)
          (physical.allocated kDefaultProcessMemorySize) after := by
  obtain ⟨room, inside⟩ := loads
  have packed : (layoutFor physical.nextFreeAddress program).Packed := layoutFor_packed (by omega)
  have dataSize : (layoutFor physical.nextFreeAddress program).dataSize = program.data.length := rfl
  have dataAddress := packed.dataAddress
  rw [base_layoutFor, codeSize_layoutFor] at dataAddress
  rw [load]
  rw [PhysicalMemory.allocateRegion_ok room]
  dsimp only
  rcases create_spec (physical.allocated kDefaultProcessMemorySize) dataSize
    with ⟨_, middle, created, changed⟩ | ⟨refused, _⟩
  · obtain ⟨outcome, after, ran, changes, success⟩ := loadCode_spec program (by omega) (by omega)
      (changed.size.trans (PhysicalMemory.size_allocated _))
    have done : outcome = .ok () := success.mpr (by omega)
    simp only [created, ran, done]
    exact ⟨after, rfl, (changed.mono (by omega) (by omega)).trans (changes.mono (Nat.le_refl _) (by omega))⟩
  · exact absurd (Or.inr (by rw [dataAddress, PhysicalMemory.size_allocated]; omega)) refused

/-- A load that fails: it leaves the allocator alone or takes one region. -/
theorem load_of_not_loads (refused : ¬ Loads physical program) (bounded : physical.size < 2 ^ 32) :
    ∃ e after, load physical program = (.error e, after) ∧ after.size = physical.size ∧
      (after.nextFreeAddress = physical.nextFreeAddress ∨
        physical.nextFreeAddress.toNat + kDefaultProcessMemorySize ≤ physical.size ∧
          after.nextFreeAddress = (physical.allocated kDefaultProcessMemorySize).nextFreeAddress) := by
  by_cases room : physical.nextFreeAddress.toNat + kDefaultProcessMemorySize ≤ physical.size
  · rw [load]
    rw [PhysicalMemory.allocateRegion_ok room]
    dsimp only
    have dataSize : (layoutFor physical.nextFreeAddress program).dataSize = program.data.length := rfl
    rcases create_spec (physical.allocated kDefaultProcessMemorySize) dataSize
      with ⟨data, middle, created, changed⟩ | ⟨_, e, failed⟩
    · obtain ⟨outcome, after, ran, changes, success⟩ := loadCode_spec program (by omega) (by omega)
        (changed.size.trans (PhysicalMemory.size_allocated _))
      have sizes : after.size = physical.size :=
        changes.size.trans (changed.size.trans (PhysicalMemory.size_allocated _))
      have nextFree : after.nextFreeAddress = (physical.allocated kDefaultProcessMemorySize).nextFreeAddress :=
        changes.nextFree.trans changed.nextFree
      simp only [created, ran]
      cases outcome with
      | error e => exact ⟨e, after, rfl, sizes, Or.inr ⟨room, nextFree⟩⟩
      | ok done =>
        have codeInside := success.mp rfl
        refine absurd ⟨room, ?_⟩ refused
        rcases data with empty | dataInside
        · rw [empty, List.length_nil]
          omega
        · -- Code that ends inside memory leaves the offset of the data exact.
          have offset : (layoutFor physical.nextFreeAddress program).dataAddress.toNat =
              physical.nextFreeAddress.toNat + 4 * program.code.length := by
            simp only [MemoryRegionLayout.dataAddress, layoutFor, BitVec.toNat_add, BitVec.toNat_ofNat, wordSize]
            omega
          rwa [offset, PhysicalMemory.size_allocated] at dataInside
    · rw [failed]
      refine ⟨e, physical.allocated kDefaultProcessMemorySize, rfl, ?_, Or.inr ⟨room, rfl⟩⟩
      rw [PhysicalMemory.size_allocated]
  · rw [load]
    rw [PhysicalMemory.allocateRegion_error (by omega)]
    exact ⟨_, physical, rfl, rfl, Or.inl rfl⟩

/-- Whether it fails or not, the load of a program that fits its region writes
nothing below the region it allocates. -/
theorem load_below (fits : program.Fits) (bounded : physical.size < 2 ^ 32) {k : Nat}
    (below : k < physical.nextFreeAddress.toNat) : (load physical program).2.memory k = physical.memory k := by
  rw [load]
  by_cases room : physical.nextFreeAddress.toNat + kDefaultProcessMemorySize ≤ physical.size
  · rw [PhysicalMemory.allocateRegion_ok room]
    dsimp only
    have fitting : (layoutFor physical.nextFreeAddress program).Fitting := layoutFor_fitting fits (by omega)
    have dataAddress := fitting.toPacked.dataAddress
    rw [base_layoutFor] at dataAddress
    have dataSize : (layoutFor physical.nextFreeAddress program).dataSize = program.data.length := rfl
    rcases create_spec (physical.allocated kDefaultProcessMemorySize) dataSize with
      ⟨_, middle, created, changed⟩ | ⟨_, e, failed⟩
    · obtain ⟨outcome, after, ran, changes, _⟩ := loadCode_spec program (by omega) (by omega)
        (changed.size.trans (PhysicalMemory.size_allocated _))
      have kept : after.memory k = physical.memory k :=
        (changes.outside k (Or.inl below)).trans (changed.outside k (Or.inl (by omega)))
      simp only [created, ran]
      cases outcome <;> exact kept
    · rw [failed]
      rfl
  · rw [PhysicalMemory.allocateRegion_error (by omega)]

end ProgramLoader

end VirtualMachine
