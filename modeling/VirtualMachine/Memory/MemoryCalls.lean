import VirtualMachine.Memory.PhysicalMemory
import VirtualMachine.Library.WriteHistory

namespace VirtualMachine

open WriteHistory

/-- A call of the interface `IMemory`. A buffer is passed as its contents; one
that is read into is as long as the read. -/
inductive MemoryCall
  | readByte (address : Address)
  | writeByte (address : Address) (value : Byte)
  | readWord (address : Address)
  | writeWord (address : Address) (value : Word)
  | readBytes (address : Address) (buffer : List Byte)
  | writeBytes (address : Address) (buffer : List Byte)
  deriving DecidableEq, Repr

/-- What a call returns, or leaves in the buffer. -/
inductive MemoryAnswer
  | done
  | byte (value : Byte)
  | word (value : Word)
  | bytes (buffer : List Byte)
  deriving DecidableEq, Repr

namespace PhysicalMemory

/-- The end of a write; one that throws leaves the memory as it is. -/
def finishWrite (physical : PhysicalMemory) :
    Except Exception PhysicalMemory → Except Exception MemoryAnswer × PhysicalMemory
  | .error e => (.error e, physical)
  | .ok after => (.ok .done, after)

def perform (physical : PhysicalMemory) : MemoryCall → Except Exception MemoryAnswer × PhysicalMemory
  | .readByte address => ((physical.readByte address).map .byte, physical)
  | .writeByte address value => physical.finishWrite (physical.writeByte address value)
  | .readWord address => ((physical.readWord address).map .word, physical)
  | .writeWord address value => physical.finishWrite (physical.writeWord address value)
  | .readBytes address buffer => ((physical.readBytes address buffer.length).map .bytes, physical)
  | .writeBytes address buffer => physical.finishWrite (physical.writeBytes address buffer)

/-- The memory after a sequence of calls, failed ones included. -/
def after (physical : PhysicalMemory) (calls : List MemoryCall) : PhysicalMemory :=
  calls.foldl (fun physical call => (physical.perform call).2) physical

end PhysicalMemory

namespace MemoryCall

def address : MemoryCall → Address
  | readByte address | writeByte address _ | readWord address | writeWord address _ | readBytes address _
  | writeBytes address _ => address

def width : MemoryCall → Nat
  | readByte _ | writeByte _ _ => 1
  | readWord _ | writeWord _ _ => 4
  | readBytes _ buffer | writeBytes _ buffer => buffer.length

/-- The bytes of the call lie in a memory of this size. -/
def Fits (size : Nat) (call : MemoryCall) : Prop := call.address.toNat + call.width ≤ size

instance (size : Nat) (call : MemoryCall) : Decidable (call.Fits size) := inferInstanceAs (Decidable (_ ≤ _))

/-- The bytes that a call writes. A word is written as its digits to the base
256, the lowest one first. -/
def written : MemoryCall → Write Nat Byte
  | writeByte address value, k => if k = address.toNat then some value else none
  | writeWord address value, k =>
    if address.toNat ≤ k ∧ k < address.toNat + 4 then some (BitVec.ofNat 8 (value.toNat / 256 ^ (k - address.toNat)))
    else none
  | writeBytes address buffer, k => if address.toNat ≤ k then buffer[k - address.toNat]? else none
  | _, _ => none

/-- The byte at `k` after these calls on a new memory of this size: the last one
that has been written there, and 0 before. -/
def lastByte (size : Nat) (calls : List MemoryCall) (k : Nat) : Byte :=
  (last? k ((calls.filter (fun call => call.Fits size)).map written)).getD 0

/-- What a call is to return on memory that holds these bytes. -/
def answer (content : Nat → Byte) : MemoryCall → MemoryAnswer
  | readByte address => .byte (content address.toNat)
  | readWord address =>
    .word (BitVec.ofNat 32 ((content address.toNat).toNat + 2 ^ 8 * (content (address.toNat + 1)).toNat +
      2 ^ 16 * (content (address.toNat + 2)).toNat + 2 ^ 24 * (content (address.toNat + 3)).toNat))
  | readBytes address buffer => .bytes ((List.range buffer.length).map (fun i => content (address.toNat + i)))
  | _ => .done

end MemoryCall

namespace PhysicalMemory

open LittleEndian MemoryCall

variable {physical : PhysicalMemory} {call : MemoryCall}

theorem wordAt_eq (physical : PhysicalMemory) (address : Address) :
    physical.wordAt address = BitVec.ofNat 32 ((physical.memory address.toNat).toNat +
      2 ^ 8 * (physical.memory (address.toNat + 1)).toNat + 2 ^ 16 * (physical.memory (address.toNat + 2)).toNat +
      2 ^ 24 * (physical.memory (address.toNat + 3)).toNat) := by
  have none : (ofBytes 32 0 (fun i => physical.memory (address.toNat + i))).toNat = 0 := rfl
  have sum : (physical.wordAt address).toNat = (physical.memory address.toNat).toNat +
      2 ^ 8 * (physical.memory (address.toNat + 1)).toNat + 2 ^ 16 * (physical.memory (address.toNat + 2)).toNat +
      2 ^ 24 * (physical.memory (address.toNat + 3)).toNat := by
    rw [wordAt, wordSize, toNat_ofBytes_succ _ (by decide), toNat_ofBytes_succ _ (by decide),
      toNat_ofBytes_succ _ (by decide), toNat_ofBytes_succ _ (by decide), none, Nat.zero_add, Nat.mul_zero,
      Nat.pow_zero, Nat.one_mul, Nat.add_zero]
  rw [← sum, BitVec.ofNat_toNat, BitVec.setWidth_eq]

theorem write_byteOf (store : Store) (address : Nat) (value : Word) (k : Nat) :
    write store address wordSize (byteOf value) k =
      if address ≤ k ∧ k < address + 4 then BitVec.ofNat 8 (value.toNat / 256 ^ (k - address)) else store k := by
  rw [write_apply, byteOf_eq]

/-- A call whose bytes lie in memory. -/
theorem perform_fits (fits : call.Fits physical.size) :
    physical.perform call =
      (.ok (call.answer physical.memory), { physical with memory := apply physical.memory call.written }) := by
  cases call with
  | readByte address =>
    have checked : physical.validateRange address 1 = .ok () := validateRange_ok fits
    rw [perform, PhysicalMemory.readByte, checked]
    rfl
  | writeByte address value =>
    have checked : physical.validateRange address 1 = .ok () := validateRange_ok fits
    rw [perform, PhysicalMemory.writeByte, checked]
    refine congrArg (fun memory => (Except.ok MemoryAnswer.done, { physical with memory := memory }))
      (funext fun k => ?_)
    rw [Function.update_apply, apply, written]
    split <;> rfl
  | readWord address =>
    have inside : address.toNat + 4 ≤ physical.size := fits
    rw [perform, readWord_ok inside, wordAt_eq]
    rfl
  | writeWord address value =>
    have inside : address.toNat + 4 ≤ physical.size := fits
    rw [perform, writeWord_ok value inside]
    refine congrArg (fun memory => (Except.ok MemoryAnswer.done, { physical with memory := memory }))
      (funext fun k => ?_)
    rw [write_byteOf, apply, written]
    split <;> rfl
  | readBytes address buffer =>
    have checked : physical.validateRange address buffer.length = .ok () := validateRange_ok fits
    rw [perform, PhysicalMemory.readBytes, checked]
    rfl
  | writeBytes address buffer =>
    have checked : physical.validateRange address buffer.length = .ok () := validateRange_ok fits
    rw [perform, PhysicalMemory.writeBytes, checked]
    refine congrArg (fun memory => (Except.ok MemoryAnswer.done, { physical with memory := memory }))
      (funext fun k => ?_)
    rw [write_apply, apply, written]
    by_cases above : address.toNat ≤ k
    · rw [if_pos above, List.getD_eq_getElem?_getD]
      by_cases below : k < address.toNat + buffer.length
      · rw [if_pos ⟨above, below⟩, List.getElem?_eq_getElem (by omega)]
        rfl
      · rw [if_neg (fun inside => below inside.2), List.getElem?_eq_none (by omega)]
        rfl
    · rw [if_neg above, if_neg (fun inside => above inside.1)]
      rfl

/-- A call that reaches beyond the memory throws and changes nothing. -/
theorem perform_outside (outside : ¬ call.Fits physical.size) :
    physical.perform call = (.error (rangeError call.address), physical) := by
  have beyond : physical.size < call.address.toNat + call.width := Nat.lt_of_not_le outside
  cases call with
  | readByte address =>
    have refused : physical.validateRange address 1 = .error (rangeError address) := validateRange_error beyond
    rw [perform, PhysicalMemory.readByte, refused]
    rfl
  | writeByte address value =>
    have refused : physical.validateRange address 1 = .error (rangeError address) := validateRange_error beyond
    rw [perform, PhysicalMemory.writeByte, refused]
    rfl
  | readWord address =>
    have past : physical.size < address.toNat + 4 := beyond
    rw [perform, readWord_error past]
    rfl
  | writeWord address value =>
    have past : physical.size < address.toNat + 4 := beyond
    rw [perform, writeWord_error value past]
    rfl
  | readBytes address buffer =>
    have refused : physical.validateRange address buffer.length = .error (rangeError address) :=
      validateRange_error beyond
    rw [perform, PhysicalMemory.readBytes, refused]
    rfl
  | writeBytes address buffer =>
    have refused : physical.validateRange address buffer.length = .error (rangeError address) :=
      validateRange_error beyond
    rw [perform, PhysicalMemory.writeBytes, refused]
    rfl

theorem size_perform (physical : PhysicalMemory) (call : MemoryCall) :
    (physical.perform call).2.size = physical.size := by
  by_cases fits : call.Fits physical.size
  · rw [perform_fits fits]
  · rw [perform_outside fits]

theorem size_after (physical : PhysicalMemory) (calls : List MemoryCall) :
    (physical.after calls).size = physical.size := by
  induction calls generalizing physical with
  | nil => rfl
  | cons call calls ih => exact (ih _).trans (size_perform physical call)

/-- The calls that throw leave no trace; the others write what they say. -/
theorem memory_after (physical : PhysicalMemory) (calls : List MemoryCall) :
    (physical.after calls).memory =
      ((calls.filter (fun call => call.Fits physical.size)).map written).foldl apply physical.memory := by
  induction calls generalizing physical with
  | nil => rfl
  | cons call calls ih =>
    have stepped : physical.after (call :: calls) = (physical.perform call).2.after calls := rfl
    rw [stepped, ih, size_perform]
    by_cases fits : call.Fits physical.size
    · rw [perform_fits fits, List.filter_cons, if_pos (decide_eq_true fits), List.map_cons, List.foldl_cons]
    · rw [perform_outside fits, List.filter_cons, if_neg (by simpa using fits)]

/-- A new memory of any size is an array of bytes: after any calls, a call
throws exactly when it reaches beyond the end, and changes nothing then; else it
returns what has been written last, read as bytes or as little-endian words. -/
theorem memory_refines_bytes (size : Nat) (calls : List MemoryCall) (call : MemoryCall) :
    (call.Fits size → ((after { size := size } calls).perform call).1 = .ok (call.answer (lastByte size calls))) ∧
      (¬ call.Fits size →
        (after { size := size } calls).perform call = (.error (rangeError call.address),
          after { size := size } calls)) := by
  have same : (after { size := size } calls).size = size := size_after _ calls
  have content : (after { size := size } calls).memory = lastByte size calls := by
    rw [memory_after]
    exact funext fun k => foldl_apply _ _ k
  constructor
  · intro fits
    rw [perform_fits (by rw [same]; exact fits), content]
  · intro outside
    exact perform_outside (by rw [same]; exact outside)

end PhysicalMemory

end VirtualMachine
