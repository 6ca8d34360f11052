import VirtualMachine.Types
import VirtualMachine.Library.LittleEndian

namespace VirtualMachine

open LittleEndian

/-- `memory_` as a store with its length beside it; nothing is read or written
at or beyond `size`. -/
@[ext]
structure PhysicalMemory where
  size : Nat := kDefaultPhysicalMemorySize
  memory : Store := fun _ => 0
  nextFreeAddress : Address := 0

namespace PhysicalMemory

def rangeError (address : Address) : Exception :=
  .vmException ("memory access out of bounds at address " ++ toString address.toNat)

/-- The sum is one of `std::size_t`, so an access near the top of the address space
does not wrap around. -/
def validateRange (physical : PhysicalMemory) (address : Address) (size : Nat) : Except Exception Unit :=
  if address.toNat + size > physical.size then
    .error (rangeError address)
  else .ok ()

def readByte (physical : PhysicalMemory) (address : Address) : Except Exception Byte := do
  physical.validateRange address 1
  return physical.memory address.toNat

def writeByte (physical : PhysicalMemory) (address : Address) (value : Byte) :
    Except Exception PhysicalMemory := do
  physical.validateRange address 1
  return { physical with memory := Function.update physical.memory address.toNat value }

def readWord (physical : PhysicalMemory) (address : Address) : Except Exception Word := do
  physical.validateRange address wordSize
  return ofBytes 32 wordSize (fun i => physical.memory (address.toNat + i))

def writeWord (physical : PhysicalMemory) (address : Address) (value : Word) :
    Except Exception PhysicalMemory := do
  physical.validateRange address wordSize
  return { physical with memory := write physical.memory address.toNat wordSize (byteOf value) }

/-- The bytes that are put into a buffer of the caller, which has the length `size`. -/
def readBytes (physical : PhysicalMemory) (address : Address) (size : Nat) : Except Exception (List Byte) := do
  physical.validateRange address size
  return (List.range size).map (fun i => physical.memory (address.toNat + i))

def writeBytes (physical : PhysicalMemory) (address : Address) (buffer : List Byte) :
    Except Exception PhysicalMemory := do
  physical.validateRange address buffer.length
  return { physical with
    memory := write physical.memory address.toNat buffer.length (fun i => buffer.getD i 0) }

/-- The next region begins where the last one ended; nothing is ever given back. -/
def allocateRegion (physical : PhysicalMemory) (size : Nat) : Except Exception (Address × PhysicalMemory) :=
  let base := physical.nextFreeAddress
  if base.toNat + size > physical.size then
    .error (.vmException "not enough physical memory to allocate region")
  else .ok (base, { physical with nextFreeAddress := physical.nextFreeAddress + BitVec.ofNat 32 size })

/-- The word at an address, bounds aside. -/
def wordAt (physical : PhysicalMemory) (address : Address) : Word :=
  ofBytes 32 wordSize (fun i => physical.memory (address.toNat + i))

/-- The memory after a word write, bounds aside. -/
def putWord (physical : PhysicalMemory) (address : Address) (value : Word) : PhysicalMemory :=
  { physical with memory := write physical.memory address.toNat wordSize (byteOf value) }

/-- The memory after a region of this size has been taken. -/
def allocated (physical : PhysicalMemory) (size : Nat) : PhysicalMemory :=
  { physical with nextFreeAddress := physical.nextFreeAddress + BitVec.ofNat 32 size }

variable {physical : PhysicalMemory} {address : Address}

@[simp] theorem size_allocated (size : Nat) : (physical.allocated size).size = physical.size := rfl

@[simp] theorem memory_allocated (size : Nat) : (physical.allocated size).memory = physical.memory := rfl

/-- A region that fits is handed out at the next free address. -/
theorem allocateRegion_ok {size : Nat} (room : physical.nextFreeAddress.toNat + size ≤ physical.size) :
    physical.allocateRegion size = .ok (physical.nextFreeAddress, physical.allocated size) := by
  unfold allocateRegion
  dsimp only
  rw [if_neg (by omega)]
  rfl

/-- One that does not is refused, and the allocator keeps its state. -/
theorem allocateRegion_error {size : Nat} (full : physical.size < physical.nextFreeAddress.toNat + size) :
    physical.allocateRegion size = .error (.vmException "not enough physical memory to allocate region") := by
  unfold allocateRegion
  dsimp only
  rw [if_pos full]

/-- The 32-bit sum does not wrap as long as the regions stay below 4 GiB. -/
theorem nextFreeAddress_allocated {size : Nat} (bounded : physical.nextFreeAddress.toNat + size < 2 ^ 32) :
    (physical.allocated size).nextFreeAddress.toNat = physical.nextFreeAddress.toNat + size := by
  rw [allocated, BitVec.toNat_add, BitVec.toNat_ofNat, Nat.add_mod_mod, Nat.mod_eq_of_lt bounded]

/-- Every access function is `validateRange` and then the access. The lemmas below
say for each what it does within the memory and that it throws outside. -/
theorem validateRange_ok {size : Nat} (fits : address.toNat + size ≤ physical.size) :
    physical.validateRange address size = .ok () := by
  rw [validateRange, if_neg (by omega)]

theorem validateRange_error {size : Nat} (outside : physical.size < address.toNat + size) :
    physical.validateRange address size = .error (rangeError address) := by
  rw [validateRange, if_pos outside]

theorem readWord_ok (fits : address.toNat + 4 ≤ physical.size) :
    physical.readWord address = .ok (physical.wordAt address) := by
  rw [readWord, validateRange_ok fits]
  rfl

theorem readWord_error (outside : physical.size < address.toNat + 4) :
    physical.readWord address = .error (rangeError address) := by
  rw [readWord, validateRange_error outside]
  rfl

theorem writeWord_ok (value : Word) (fits : address.toNat + 4 ≤ physical.size) :
    physical.writeWord address value = .ok (physical.putWord address value) := by
  rw [writeWord, validateRange_ok fits]
  rfl

theorem writeWord_error (value : Word) (outside : physical.size < address.toNat + 4) :
    physical.writeWord address value = .error (rangeError address) := by
  rw [writeWord, validateRange_error outside]
  rfl

@[simp] theorem size_putWord (value : Word) : (physical.putWord address value).size = physical.size := rfl

@[simp] theorem nextFreeAddress_putWord (value : Word) :
    (physical.putWord address value).nextFreeAddress = physical.nextFreeAddress := rfl

/-- A word write leaves the other bytes alone. -/
theorem memory_putWord_outside {value : Word} {k : Nat} (outside : k < address.toNat ∨ address.toNat + 4 ≤ k) :
    (physical.putWord address value).memory k = physical.memory k :=
  write_outside outside

/-- The word that was written is read back. -/
@[simp] theorem wordAt_putWord_same (value : Word) : (physical.putWord address value).wordAt address = value :=
  ofBytes_write_same physical.memory address.toNat value (by decide)

/-- A word that does not overlap with it keeps its value. -/
theorem wordAt_putWord_disjoint {target : Address} {value : Word}
    (apart : address.toNat + 4 ≤ target.toNat ∨ target.toNat + 4 ≤ address.toNat) :
    (physical.putWord target value).wordAt address = physical.wordAt address :=
  ofBytes_write_disjoint apart

/-- A word depends on its own four bytes only. -/
theorem wordAt_congr {other : PhysicalMemory}
    (same : ∀ k, address.toNat ≤ k → k < address.toNat + 4 → physical.memory k = other.memory k) :
    physical.wordAt address = other.wordAt address :=
  ofBytes_congr (fun i bound => same _ (by omega) (by simp only [wordSize] at bound; omega))

end PhysicalMemory

end VirtualMachine
