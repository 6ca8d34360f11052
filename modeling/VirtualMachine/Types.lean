import Mathlib.Logic.Function.Basic
import Mathlib.Data.List.Basic
import Mathlib.Tactic.Common
import Mathlib.Tactic.IntervalCases

namespace VirtualMachine

abbrev Byte := BitVec 8
abbrev Word := BitVec 32
abbrev Address := BitVec 32

/-- Ids count the successful loads of one machine, so they never wrap. -/
abbrev ProcessId := Nat

/-- A `std::string`. -/
abbrev Text := List Char

/-- Decoded register fields are masked to four bits, so the range check of
`RegisterFile::get` and `set` cannot fail on them. -/
abbrev RegisterIndex := BitVec 4

def kRegisterCount : Nat := 16
def kDefaultProcessMemorySize : Nat := 64 * 1024
def kDefaultPhysicalMemorySize : Nat := 1024 * 1024
def kStackSize : Nat := 4096

/-- `sizeof(Word)`. -/
abbrev wordSize : Nat := 4

inductive Opcode
  | MOV | ADD | SUB | MUL | DIV | MOD | INC | DEC | AND | OR | XOR | NOT | CMP
  | JMP | JE | JNE | JG | JGE | JL | JLE
  | LOAD | STORE | CALL | HALT | NOP | PUSH | POP | RET
  deriving DecidableEq, Repr

def Opcode.toByte : Opcode → Byte
  | MOV => 0 | ADD => 1 | SUB => 2 | MUL => 3 | DIV => 4 | MOD => 5 | INC => 6 | DEC => 7
  | AND => 8 | OR => 9 | XOR => 10 | NOT => 11 | CMP => 12
  | JMP => 13 | JE => 14 | JNE => 15 | JG => 16 | JGE => 17 | JL => 18 | JLE => 19
  | LOAD => 20 | STORE => 21 | CALL => 22 | HALT => 23 | NOP => 24
  | PUSH => 25 | POP => 26 | RET => 27

/-- The enumerator an opcode byte stands for; the other bytes reach the
registry as values of no enumerator. -/
def Opcode.ofByte? (byte : Byte) : Option Opcode :=
  match byte.toNat with
  | 0 => some MOV | 1 => some ADD | 2 => some SUB | 3 => some MUL | 4 => some DIV
  | 5 => some MOD | 6 => some INC | 7 => some DEC | 8 => some AND | 9 => some OR
  | 10 => some XOR | 11 => some NOT | 12 => some CMP | 13 => some JMP | 14 => some JE
  | 15 => some JNE | 16 => some JG | 17 => some JGE | 18 => some JL | 19 => some JLE
  | 20 => some LOAD | 21 => some STORE | 22 => some CALL | 23 => some HALT | 24 => some NOP
  | 25 => some PUSH | 26 => some POP | 27 => some RET
  | _ => none

inductive SyscallId
  | Print | Scan | Exit | Yield | Load
  deriving DecidableEq, Repr

def SyscallId.toByte : SyscallId → Byte
  | Print => 0 | Scan => 1 | Exit => 2 | Yield => 3 | Load => 4

/-- `static_cast<SyscallId>` of the four-bit field `rs1`. -/
def SyscallId.ofField? (field : RegisterIndex) : Option SyscallId :=
  match field.toNat with
  | 0 => some Print | 1 => some Scan | 2 => some Exit | 3 => some Yield | 4 => some Load
  | _ => none

structure CpuFlags where
  zero : Bool := false
  sign : Bool := false
  carry : Bool := false
  overflow : Bool := false
  deriving DecidableEq, Repr

/-- An instruction as the core sees it. Its opcode is a byte: a word of memory need
not be an instruction at all. -/
structure DecodedInstruction where
  opcode : Byte
  rd : RegisterIndex
  rs1 : RegisterIndex
  rs2 : RegisterIndex
  imm : BitVec 16
  deriving DecidableEq, Repr

/-- What the program throws: its own two classes, and the two that `std::stol`
and `std::stoi` throw through the assembler. `diverged` is thrown by no source
line: it marks a loop of the model that has used up its fuel. -/
inductive Exception
  | vmException (message : String)
  | assemblerError (line : Nat) (message : String)
  | invalidArgument
  | outOfRange
  | diverged
  deriving DecidableEq, Repr

def kImmediateMarker : Byte := 0x0F

/-- The immediate is cut to its twelve low bits, and nothing checks that it fits. -/
def encodeInstruction (opcode rd rs1 rs2 : Byte) (imm : BitVec 16) : Word :=
  let imm12 : Word := imm.signExtend 32 &&& 0x0FFF
  (opcode.setWidth 32 <<< 24) |||
    ((rd &&& 0x0F).setWidth 32 <<< 20) |||
    ((rs1 &&& 0x0F).setWidth 32 <<< 16) |||
    ((rs2 &&& 0x0F).setWidth 32 <<< 12) |||
    imm12

/-- The fields of a word, with the immediate sign-extended from twelve bits to
sixteen. -/
def decodeInstruction (raw : Word) : DecodedInstruction :=
  let imm12 : BitVec 32 := raw &&& 0x0FFF
  let imm12 := if imm12 &&& 0x800 ≠ 0 then imm12 ||| ~~~0x0FFF else imm12
  { opcode := ((raw >>> 24) &&& 0xFF).setWidth 8
    rd := ((raw >>> 20) &&& 0x0F).setWidth 4
    rs1 := ((raw >>> 16) &&& 0x0F).setWidth 4
    rs2 := ((raw >>> 12) &&& 0x0F).setWidth 4
    imm := imm12.setWidth 16 }

/-- Every opcode comes back from its byte. -/
theorem Opcode.ofByte?_toByte (opcode : Opcode) : Opcode.ofByte? opcode.toByte = some opcode := by
  cases opcode <;> rfl

theorem Opcode.toByte_injective : Function.Injective Opcode.toByte := by
  intro left right same
  have known := Opcode.ofByte?_toByte left
  rw [same, Opcode.ofByte?_toByte] at known
  exact (Option.some.inj known).symm

theorem SyscallId.ofField?_toByte (id : SyscallId) :
    SyscallId.ofField? (id.toByte.setWidth 4) = some id := by
  cases id <;> rfl

/-- The bits of a mask with ones below some place. -/
theorem getLsbD_lowMask {w k : Nat} (i : Nat) :
    (BitVec.ofNat w (2 ^ k - 1)).getLsbD i = (decide (i < w) && decide (i < k)) := by
  rw [BitVec.getLsbD_ofNat, Nat.testBit_two_pow_sub_one]

/-- The field that `(raw >> shift) & mask` selects. -/
theorem maskedField (raw : Word) (shift width : Nat) (fits : width ≤ 32) :
    ((raw >>> shift) &&& BitVec.ofNat 32 (2 ^ width - 1)).setWidth width = raw.extractLsb' shift width := by
  apply BitVec.eq_of_getLsbD_eq
  intro i bound
  have low : i < 32 := by omega
  simp only [BitVec.getLsbD_setWidth, BitVec.getLsbD_and, BitVec.getLsbD_ushiftRight, getLsbD_lowMask,
    BitVec.getLsbD_extractLsb', bound, low, decide_true, Bool.true_and, Bool.and_true]

/-- The fields are stretches of the word: eight bits of opcode, three times four of
registers and twelve of immediate. -/
theorem decodeInstruction_opcode (raw : Word) : (decodeInstruction raw).opcode = raw.extractLsb' 24 8 :=
  maskedField raw 24 8 (by decide)

theorem decodeInstruction_rd (raw : Word) : (decodeInstruction raw).rd = raw.extractLsb' 20 4 :=
  maskedField raw 20 4 (by decide)

theorem decodeInstruction_rs1 (raw : Word) : (decodeInstruction raw).rs1 = raw.extractLsb' 16 4 :=
  maskedField raw 16 4 (by decide)

theorem decodeInstruction_rs2 (raw : Word) : (decodeInstruction raw).rs2 = raw.extractLsb' 12 4 :=
  maskedField raw 12 4 (by decide)

/-- The test for the sign bit of the immediate field. -/
theorem signBit_iff (raw : Word) : (raw &&& 0x0FFF) &&& 0x800 ≠ 0 ↔ raw.getLsbD 11 = true := by
  have single : ∀ i, i < 32 → (0x800 : Word).getLsbD i = decide (i = 11) := by decide
  have low : (0x0FFF : Word).getLsbD 11 = true := rfl
  constructor
  · intro nonzero
    by_contra clear
    apply nonzero
    apply BitVec.eq_of_getLsbD_eq
    intro i bound
    rw [BitVec.getLsbD_and, BitVec.getLsbD_and, single i bound]
    by_cases here : i = 11
    · subst here
      rw [Bool.eq_false_iff.mpr clear]
      rfl
    · simp [here]
  · intro set zero
    have bit := congrArg (fun value : BitVec 32 => value.getLsbD 11) zero
    simp only [BitVec.getLsbD_and, single 11 (by decide), set, low] at bit
    cases bit

/-- The sign correction of `decodeInstruction` is a sign extension of the
twelve low bits. -/
theorem decodeInstruction_imm (raw : Word) :
    (decodeInstruction raw).imm = (raw.extractLsb' 0 12).signExtend 16 := by
  have low : ∀ i, i < 32 → (0x0FFF : Word).getLsbD i = decide (i < 12) := by decide
  have high : ∀ i, i < 32 → (~~~0x0FFF : Word).getLsbD i = decide (12 ≤ i) := by decide
  have sign : (raw.extractLsb' 0 12).msb = raw.getLsbD 11 := by
    rw [BitVec.msb_eq_getLsbD_last, BitVec.getLsbD_extractLsb']
    rfl
  apply BitVec.eq_of_getLsbD_eq
  intro i bound
  have inWord : i < 32 := by omega
  simp only [decodeInstruction, signBit_iff, BitVec.getLsbD_setWidth, BitVec.getLsbD_signExtend, sign,
    BitVec.getLsbD_extractLsb', bound, decide_true, Bool.true_and, Nat.zero_add]
  cases set : raw.getLsbD 11 with
  | true =>
    rw [if_pos rfl, BitVec.getLsbD_or, BitVec.getLsbD_and, low i inWord, high i inWord]
    by_cases field : i < 12
    · simp [field]
    · simp [field, Nat.le_of_not_lt field]
  | false =>
    rw [if_neg (by decide), BitVec.getLsbD_and, low i inWord]
    by_cases field : i < 12
    · simp [field]
    · simp [field]

end VirtualMachine
