import VirtualMachine.Os.SyscallHandler

namespace VirtualMachine

namespace ProcessMemory

/-- This byte is at offset `k` of the data segment. -/
def DataByte (memory : ProcessMemory) (k : Nat) (byte : Byte) : Prop :=
  k < 2 ^ 32 ∧ memory.readDataByte (BitVec.ofNat 32 k) = .ok byte

/-- The string at offset `k`: the bytes up to but excluding the first zero byte. -/
def Spells (memory : ProcessMemory) : Nat → List Byte → Prop
  | k, [] => memory.DataByte k 0
  | k, byte :: rest => memory.DataByte k byte ∧ byte ≠ 0 ∧ memory.Spells (k + 1) rest

/-- These bytes, none of them zero, are read one after the other from offset `k`
on; behind the offset `2 ^ 32 - 1` comes the offset 0. -/
def Reads (memory : ProcessMemory) : Nat → List Byte → Prop
  | _, [] => True
  | k, byte :: rest => memory.readDataByte (BitVec.ofNat 32 k) = .ok byte ∧ byte ≠ 0 ∧ memory.Reads (k + 1) rest

variable {memory : ProcessMemory} {k : Nat} {path other : List Byte}

theorem Spells.unique (spells : memory.Spells k path) (also : memory.Spells k other) : path = other := by
  induction path generalizing k other with
  | nil =>
    cases other with
    | nil => rfl
    | cons byte rest =>
      obtain ⟨here, nonzero, -⟩ := also
      exact absurd (Except.ok.inj (here.2.symm.trans spells.2)) nonzero
  | cons byte path ih =>
    obtain ⟨here, nonzero, later⟩ := spells
    cases other with
    | nil => exact absurd (Except.ok.inj (here.2.symm.trans also.2)) nonzero
    | cons byte' rest =>
      obtain ⟨here', -, later'⟩ := also
      rw [Except.ok.inj (here.2.symm.trans here'.2), ih later later']

/-- A string is what is read up to a zero byte, short of the last offset. -/
theorem spells_iff : memory.Spells k path ↔ memory.Reads k path ∧ memory.DataByte (k + path.length) 0 := by
  induction path generalizing k with
  | nil => exact (true_and _).to_iff.symm
  | cons byte path ih =>
    rw [Spells, Reads, ih, List.length_cons, Nat.add_right_comm k 1, Nat.add_assoc k]
    constructor
    · rintro ⟨here, nonzero, reads, ends⟩
      exact ⟨⟨here.2, nonzero, reads⟩, ends⟩
    · rintro ⟨⟨here, nonzero, reads⟩, ends⟩
      have bound := ends.1
      exact ⟨⟨by omega, here⟩, nonzero, reads, ends⟩

end ProcessMemory

namespace SyscallHandler

variable {memory : ProcessMemory} {argAddress : Word} {count offset : Nat} {path : List Byte}

/-- One round of the loop. -/
theorem readLoadPath_succ_iff :
    readLoadPath memory argAddress (count + 1) offset = .ok path ↔
      ∃ byte, memory.readDataByte (BitVec.ofNat 32 (argAddress.toNat + offset)) = .ok byte ∧
        (byte = 0 ∧ path = [] ∨
          byte ≠ 0 ∧ ∃ rest, path = byte :: rest ∧ readLoadPath memory argAddress count (offset + 1) = .ok rest) := by
  have address : argAddress + BitVec.ofNat 32 offset = BitVec.ofNat 32 (argAddress.toNat + offset) := by
    rw [BitVec.ofNat_add, BitVec.ofNat_toNat, BitVec.setWidth_eq]
  rw [readLoadPath, address]
  cases read : memory.readDataByte (BitVec.ofNat 32 (argAddress.toNat + offset)) with
  | error e =>
    refine iff_of_false (by intro impossible; cases impossible) ?_
    rintro ⟨byte, impossible, -⟩
    cases impossible
  | ok byte =>
    dsimp only
    by_cases zero : byte = 0
    · rw [if_pos zero]
      constructor
      · intro same
        cases same
        exact ⟨byte, rfl, .inl ⟨zero, rfl⟩⟩
      · rintro ⟨_, same, ⟨-, rfl⟩ | ⟨nonzero, -⟩⟩
        · rfl
        · cases same
          exact absurd zero nonzero
    · rw [if_neg zero]
      cases later : readLoadPath memory argAddress count (offset + 1) with
      | error e =>
        refine iff_of_false (by intro impossible; cases impossible) ?_
        rintro ⟨_, same, ⟨isZero, -⟩ | ⟨-, rest, -, impossible⟩⟩
        · cases same
          exact zero isZero
        · cases impossible
      | ok rest =>
        constructor
        · intro whole
          cases whole
          exact ⟨byte, rfl, .inr ⟨zero, rest, rfl, rfl⟩⟩
        · rintro ⟨_, same, ⟨isZero, -⟩ | ⟨-, rest', rfl, same'⟩⟩
          · cases same
            exact absurd isZero zero
          · cases same
            cases same'
            rfl

/-- The loop ends at a zero byte or at its limit. -/
theorem readLoadPath_iff :
    readLoadPath memory argAddress count offset = .ok path ↔
      memory.Reads (argAddress.toNat + offset) path ∧
        (path.length = count ∨ path.length < count ∧
          memory.readDataByte (BitVec.ofNat 32 (argAddress.toNat + offset + path.length)) = .ok 0) := by
  induction count generalizing offset path with
  | zero =>
    have ends : readLoadPath memory argAddress 0 offset = .ok [] := rfl
    rw [ends]
    constructor
    · intro same
      cases same
      exact ⟨trivial, .inl rfl⟩
    · rintro ⟨-, empty | ⟨impossible, -⟩⟩
      · rw [List.length_eq_zero_iff.mp empty]
      · exact absurd impossible (Nat.not_lt_zero _)
  | succ count ih =>
    rw [readLoadPath_succ_iff]
    cases path with
    | nil =>
      constructor
      · rintro ⟨_, read, ⟨rfl, -⟩ | ⟨-, rest, impossible, -⟩⟩
        · exact ⟨trivial, .inr ⟨Nat.succ_pos _, read⟩⟩
        · cases impossible
      · rintro ⟨-, impossible | ⟨-, read⟩⟩
        · cases impossible
        · exact ⟨0, read, .inl ⟨rfl, rfl⟩⟩
    | cons first path =>
      have next : argAddress.toNat + offset + 1 = argAddress.toNat + (offset + 1) := Nat.add_assoc _ _ _
      have shifted : argAddress.toNat + offset + (first :: path).length =
          argAddress.toNat + (offset + 1) + path.length := by
        rw [List.length_cons]
        omega
      rw [ProcessMemory.Reads, next, shifted, List.length_cons, Nat.add_right_cancel_iff, Nat.add_lt_add_iff_right]
      have later := @ih (offset + 1) path
      constructor
      · rintro ⟨_, read, ⟨-, impossible⟩ | ⟨nonzero, _, same, rest⟩⟩
        · cases impossible
        · cases same
          obtain ⟨reads, ends⟩ := later.mp rest
          exact ⟨⟨read, nonzero, reads⟩, ends⟩
      · rintro ⟨⟨read, nonzero, reads⟩, ends⟩
        exact ⟨first, read, .inr ⟨nonzero, path, rfl, later.mpr ⟨reads, ends⟩⟩⟩

end SyscallHandler

namespace ExecutionContext

/-- The load system call hands the string at its argument to the callback, and
no part of it only, or it fails without a call. -/
structure LoadsString (ctx : ExecutionContext) (argAddress : Word) : Prop where
  outcome : (∃ path, SyscallHandler.handle (some .Load) argAddress ctx = (.ok (.load path), ctx) ∧
      ctx.memory.Spells argAddress.toNat path) ∨
    ∃ e, SyscallHandler.handle (some .Load) argAddress ctx = (.error e, ctx)
  whole : ∀ path string, (SyscallHandler.handle (some .Load) argAddress ctx).1 = .ok (.load path) →
    ctx.memory.Spells argAddress.toNat string → ¬ (path <+: string ∧ path ≠ string)

/-- The string does not end within the 256 bytes of the loop, nor right behind them. -/
def TruncatesPath (ctx : ExecutionContext) (argAddress : Word) : Prop :=
  (∃ path, path.length = 256 ∧ ctx.memory.Reads argAddress.toNat path) ∧
    ¬ ctx.memory.DataByte (argAddress.toNat + 256) 0

/-- The loop comes to its zero byte only after the offset has wrapped. -/
def WrapsPath (ctx : ExecutionContext) (argAddress : Word) : Prop :=
  ∃ path, path.length < 256 ∧ 2 ^ 32 ≤ argAddress.toNat + path.length ∧ ctx.memory.Reads argAddress.toNat path ∧
    ctx.memory.readDataByte (BitVec.ofNat 32 (argAddress.toNat + path.length)) = .ok 0

variable {ctx : ExecutionContext} {argAddress : Word}

theorem readLoadPath_eq_ok {path : List Byte} :
    SyscallHandler.readLoadPath ctx.memory argAddress 256 0 = .ok path ↔
      ctx.memory.Reads argAddress.toNat path ∧ (path.length = 256 ∨ path.length < 256 ∧
        ctx.memory.readDataByte (BitVec.ofNat 32 (argAddress.toNat + path.length)) = .ok 0) :=
  SyscallHandler.readLoadPath_iff

/-- What is handed to the callback ends with the zero byte of the string. -/
theorem LoadsString.ends (loads : ctx.LoadsString argAddress) {path : List Byte}
    (read : SyscallHandler.readLoadPath ctx.memory argAddress 256 0 = .ok path) :
    ctx.memory.DataByte (argAddress.toNat + path.length) 0 := by
  rcases loads.outcome with ⟨given, handled, spells⟩ | ⟨e, failed⟩
  · rw [SyscallHandler.handle, read] at handled
    cases handled
    exact (ProcessMemory.spells_iff.mp spells).2
  · rw [SyscallHandler.handle, read] at failed
    cases failed

theorem LoadsString.not_truncates (loads : ctx.LoadsString argAddress) : ¬ ctx.TruncatesPath argAddress := by
  rintro ⟨⟨path, length, reads⟩, missing⟩
  have ends := loads.ends (readLoadPath_eq_ok.mpr ⟨reads, .inl length⟩)
  rw [length] at ends
  exact missing ends

theorem LoadsString.not_wraps (loads : ctx.LoadsString argAddress) : ¬ ctx.WrapsPath argAddress := by
  rintro ⟨path, short, wrapped, reads, zero⟩
  have ends := loads.ends (readLoadPath_eq_ok.mpr ⟨reads, .inr ⟨short, zero⟩⟩)
  exact absurd ends.1 (Nat.not_lt.mpr wrapped)

/-- The load system call hands over the string at its argument, or fails without a
call, exactly when the string ends within the 256 bytes of the loop or right behind
them, and the loop does not wrap around the end of the address space. -/
theorem load_path_exact_iff (ctx : ExecutionContext) (argAddress : Word) :
    ctx.LoadsString argAddress ↔ ¬ ctx.TruncatesPath argAddress ∧ ¬ ctx.WrapsPath argAddress := by
  constructor
  · intro loads
    exact ⟨loads.not_truncates, loads.not_wraps⟩
  · rintro ⟨whole, straight⟩
    have spelled : ∀ path, SyscallHandler.readLoadPath ctx.memory argAddress 256 0 = .ok path →
        ctx.memory.Spells argAddress.toNat path := by
      intro path read
      obtain ⟨reads, ends⟩ := readLoadPath_eq_ok.mp read
      refine ProcessMemory.spells_iff.mpr ⟨reads, ?_⟩
      rcases ends with length | ⟨short, zero⟩
      · rw [length]
        exact not_not.mp (fun missing => whole ⟨⟨path, length, reads⟩, missing⟩)
      · refine ⟨Nat.lt_of_not_le (fun wrapped => straight ⟨path, short, wrapped, reads, zero⟩), zero⟩
    constructor
    · cases read : SyscallHandler.readLoadPath ctx.memory argAddress 256 0 with
      | error e => exact .inr ⟨e, by rw [SyscallHandler.handle, read]⟩
      | ok path => exact .inl ⟨path, by rw [SyscallHandler.handle, read], spelled path read⟩
    · rintro path string handled spells ⟨-, shorter⟩
      cases read : SyscallHandler.readLoadPath ctx.memory argAddress 256 0 with
      | error e =>
        rw [SyscallHandler.handle, read] at handled
        cases handled
      | ok given =>
        rw [SyscallHandler.handle, read] at handled
        cases handled
        exact shorter ((spelled _ read).unique spells)

/-- A string of 299 bytes at the start of the data. -/
def longPath : ExecutionContext :=
  { process := { id := 1, layout := { dataSize := 300 } }
    physical := { size := 300, memory := fun k => if k = 299 then 0 else 97 } }

theorem reads_longPath (n k : Nat) (inside : k + n ≤ 299) : longPath.memory.Reads k (List.replicate n 97) := by
  induction n generalizing k with
  | zero => trivial
  | succ n ih =>
    have offset : (BitVec.ofNat 32 k).toNat = k := by
      rw [BitVec.toNat_ofNat, Nat.mod_eq_of_lt (by omega)]
    have address : longPath.memory.layout.dataAddress + BitVec.ofNat 32 k = BitVec.ofNat 32 k := BitVec.zero_add _
    have inside : (BitVec.ofNat 32 k).toNat + 1 ≤ longPath.memory.layout.dataSize := by
      rw [offset]
      show k + 1 ≤ 300
      omega
    have read := ProcessMemory.readDataByte_ok inside (by rw [address]; exact inside)
    rw [address, offset] at read
    have byte : longPath.memory.physical.memory k = 97 := if_neg (by omega)
    rw [byte] at read
    exact ⟨read, by decide, ih (k + 1) (by omega)⟩

theorem load_path_exact_fails_for_longPath :
    ¬ ∀ (ctx : ExecutionContext) (argAddress : Word), ctx.LoadsString argAddress := by
  intro exact_
  refine (exact_ longPath 0).not_truncates
    ⟨⟨List.replicate 256 97, List.length_replicate, reads_longPath 256 0 (by decide)⟩, ?_⟩
  rintro ⟨-, zero⟩
  exact absurd zero (by decide)

end ExecutionContext

end VirtualMachine
