import VirtualMachine.Os.ImageContents

namespace VirtualMachine

open LittleEndian

/-- The byte of a code image this far from its start. -/
def codeByte? (code : List Word) (distance : Nat) : Option Byte :=
  code[distance / 4]?.map (fun word => byteOf word (distance % 4))

namespace ProgramLoader

/-- There is a region and room for the data alone, but the image does not end in
memory. Offsets are 32-bit, so that the data of such an image can have room. -/
structure Spills (physical : PhysicalMemory) (program : AssembledProgram) : Prop where
  region : physical.nextFreeAddress.toNat + kDefaultProcessMemorySize ≤ physical.size
  beyond : physical.size < physical.nextFreeAddress.toNat + 4 * program.code.length + program.data.length
  data : program.data = [] ∨
    (layoutFor physical.nextFreeAddress program).dataAddress.toNat + program.data.length ≤ physical.size

/-- What the load of such an image puts at an address: the words of the code up
to the end of memory, over the data. -/
def spilledByte? (physical : PhysicalMemory) (program : AssembledProgram) (k : Nat) : Option Byte :=
  let base := physical.nextFreeAddress.toNat
  let dataStart := (layoutFor physical.nextFreeAddress program).dataAddress.toNat
  (if base ≤ k ∧ base + 4 * ((k - base) / 4) + 4 ≤ physical.size then codeByte? program.code (k - base) else none).or
    (if dataStart ≤ k then program.data[k - dataStart]? else none)

theorem loadCodeFrom_memory {layout : MemoryRegionLayout} {i : Nat} (words : List Word) (physical : PhysicalMemory)
    (code : layout.codeOffset.toNat = 0) (start : layout.base.toNat + 4 * i ≤ physical.size)
    (bounded : physical.size < 2 ^ 32) (k : Nat) :
    (ProcessMemory.loadCodeFrom layout i words physical).2.memory k =
      (if layout.base.toNat + 4 * i ≤ k ∧ layout.base.toNat + 4 * ((k - layout.base.toNat) / 4) + 4 ≤ physical.size then
        codeByte? words (k - (layout.base.toNat + 4 * i)) else none).getD (physical.memory k) := by
  induction words generalizing i physical with
  | nil =>
    have none_ : codeByte? [] (k - (layout.base.toNat + 4 * i)) = none := rfl
    rw [none_, ite_self]
    rfl
  | cons word rest ih =>
    have address := writeCodeWord_address (i := i) code (by omega)
    by_cases fits : layout.base.toNat + 4 * i + 4 ≤ physical.size
    · have written : (ProcessMemory.mk physical layout).writeCodeWord (BitVec.ofNat 32 i) word =
          .ok (physical.putWord (ProcessMemory.codeWordAddress layout (BitVec.ofNat 32 i)) word) :=
        PhysicalMemory.writeWord_ok word (by dsimp only; omega)
      have later := ih (i := i + 1) (physical.putWord (ProcessMemory.codeWordAddress layout (BitVec.ofNat 32 i)) word)
        (by rw [PhysicalMemory.size_putWord]; omega) bounded
      have stored : (physical.putWord (ProcessMemory.codeWordAddress layout (BitVec.ofNat 32 i)) word).memory k =
          if layout.base.toNat + 4 * i ≤ k ∧ k < layout.base.toNat + 4 * i + 4 then
            byteOf word (k - (layout.base.toNat + 4 * i)) else physical.memory k := by
        rw [← address]
        exact write_apply _ _ _ _ _
      rw [ProcessMemory.loadCodeFrom, written]
      refine later.trans ?_
      rw [PhysicalMemory.size_putWord, stored]
      by_cases below : k < layout.base.toNat + 4 * i
      · rw [if_neg (by omega), if_neg (by omega), if_neg (by omega)]
      by_cases here : k < layout.base.toNat + 4 * i + 4
      · have first : codeByte? (word :: rest) (k - (layout.base.toNat + 4 * i)) =
            some (byteOf word (k - (layout.base.toNat + 4 * i))) := by
          rw [codeByte?, Nat.div_eq_of_lt (by omega), Nat.mod_eq_of_lt (by omega)]
          rfl
        rw [if_neg (by omega), if_pos (by omega), if_pos (by omega), first]
        rfl
      · have next : codeByte? (word :: rest) (k - (layout.base.toNat + 4 * i)) =
            codeByte? rest (k - (layout.base.toNat + 4 * (i + 1))) := by
          have distance : k - (layout.base.toNat + 4 * i) = k - (layout.base.toNat + 4 * (i + 1)) + 4 := by omega
          rw [codeByte?, codeByte?, distance, Nat.add_mod_right, Nat.add_div_right _ (by decide)]
          rfl
        have apart : ¬ (layout.base.toNat + 4 * i ≤ k ∧ k < layout.base.toNat + 4 * i + 4) := by omega
        rw [if_neg apart, next]
        by_cases inside : layout.base.toNat + 4 * ((k - layout.base.toNat) / 4) + 4 ≤ physical.size
        · rw [if_pos ⟨by omega, inside⟩, if_pos ⟨by omega, inside⟩]
        · rw [if_neg (fun both => inside both.2), if_neg (fun both => inside both.2)]
    · have refused : (ProcessMemory.mk physical layout).writeCodeWord (BitVec.ofNat 32 i) word =
          .error (PhysicalMemory.rangeError (ProcessMemory.codeWordAddress layout (BitVec.ofNat 32 i))) :=
        PhysicalMemory.writeWord_error word (by dsimp only; omega)
      rw [ProcessMemory.loadCodeFrom, refused, if_neg (by omega)]
      rfl

variable {physical : PhysicalMemory} {program : AssembledProgram}

/-- A load that fails otherwise writes nothing. -/
theorem load_memory_of_not_spills (refused : ¬ Loads physical program) (contained : ¬ Spills physical program) :
    ∃ e after, load physical program = (.error e, after) ∧ after.memory = physical.memory := by
  by_cases room : physical.nextFreeAddress.toNat + kDefaultProcessMemorySize ≤ physical.size
  · have beyond : physical.size < physical.nextFreeAddress.toNat + 4 * program.code.length + program.data.length :=
      Nat.lt_of_not_le (fun inside => refused ⟨room, inside⟩)
    have dataSize : (layoutFor physical.nextFreeAddress program).dataSize = program.data.length := rfl
    rw [load]
    rw [PhysicalMemory.allocateRegion_ok room]
    dsimp only
    rcases create_spec (physical.allocated kDefaultProcessMemorySize) dataSize with ⟨data, _⟩ | ⟨_, e, failed⟩
    · rw [PhysicalMemory.size_allocated] at data
      exact absurd ⟨room, beyond, data⟩ contained
    · rw [failed]
      exact ⟨e, _, rfl, PhysicalMemory.memory_allocated _⟩
  · rw [load]
    rw [PhysicalMemory.allocateRegion_error (Nat.lt_of_not_le room)]
    exact ⟨_, _, rfl, rfl⟩

/-- A load that runs out of memory has written all it could. -/
theorem load_memory_of_spills (spills : Spills physical program) (bounded : physical.size < 2 ^ 32) :
    ∃ e after, load physical program = (.error e, after) ∧
      ∀ k, after.memory k = (spilledByte? physical program k).getD (physical.memory k) := by
  obtain ⟨room, beyond, data⟩ := spills
  have dataSize : (layoutFor physical.nextFreeAddress program).dataSize = program.data.length := rfl
  have refused : ¬ Loads physical program := fun loads => absurd loads.2 (Nat.not_le.mpr beyond)
  obtain ⟨e, after, failed, _⟩ := load_of_not_loads refused bounded
  refine ⟨e, after, failed, fun k => ?_⟩
  rw [load] at failed
  rw [PhysicalMemory.allocateRegion_ok room] at failed
  dsimp only at failed
  rcases create_spec (physical.allocated kDefaultProcessMemorySize) dataSize
    with ⟨_, middle, created, changed⟩ | ⟨none_, _⟩
  · have sizes : middle.size = physical.size := changed.size.trans (PhysicalMemory.size_allocated _)
    have words := @loadCodeFrom_memory (layoutFor physical.nextFreeAddress program) 0 program.code middle rfl
      (by rw [base_layoutFor]; omega) (by omega) k
    have left : ((ProcessMemory.mk middle (layoutFor physical.nextFreeAddress program)).loadCode program.code).2 =
        after := by
      rw [created] at failed
      dsimp only at failed
      revert failed
      rcases (ProcessMemory.mk middle (layoutFor physical.nextFreeAddress program)).loadCode
        program.code with ⟨_ | done, other⟩
      · intro failed
        exact (Prod.mk.inj failed).2
      · intro failed
        cases (Prod.mk.inj failed).1
    rw [← left]
    refine words.trans ?_
    rw [create_memory created, base_layoutFor, sizes, spilledByte?, Nat.mul_zero, Nat.add_zero,
      PhysicalMemory.memory_allocated]
    cases if physical.nextFreeAddress.toNat ≤ k ∧
        physical.nextFreeAddress.toNat + 4 * ((k - physical.nextFreeAddress.toNat) / 4) + 4 ≤ physical.size then
      codeByte? program.code (k - physical.nextFreeAddress.toNat) else none with
    | none => rw [Option.none_or, Option.getD_none]
    | some byte => rw [Option.some_or, Option.getD_some, Option.getD_some]
  · rw [PhysicalMemory.size_allocated] at none_
    exact absurd data none_

end ProgramLoader

end VirtualMachine
