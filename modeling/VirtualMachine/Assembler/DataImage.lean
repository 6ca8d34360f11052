import Mathlib.Tactic.NormNum
import Mathlib.Tactic.Positivity
import VirtualMachine.Assembler.Translation

namespace VirtualMachine

open LittleEndian VirtualMachine.Parser

/-- The bytes of a value that a cast to a narrower type keeps. -/
theorem byteOf_setWidth {w v : Nat} (value : BitVec v) {i : Nat} (inside : 8 * (i + 1) ≤ w) :
    byteOf (value.setWidth w) i = byteOf value i := by
  apply BitVec.eq_of_getLsbD_eq
  intro k bound
  have low : 8 * i + k < w := by omega
  rw [getLsbD_byteOf, getLsbD_byteOf, BitVec.getLsbD_setWidth, decide_eq_true low, Bool.true_and]

/-- How `secondPass` stores a symbol: the casts to narrower types drop only
bytes that it does not store. -/
theorem storeSymbol_eq (data : List Byte) (symbol : DataSymbol) :
    storeSymbol data symbol = storeBytes data symbol.offset.toNat (dataTypeSize symbol.type) (byteOf symbol.value) := by
  have same : ∀ (count : Nat) (byte byte' : Nat → Byte), (∀ i, i < count → byte i = byte' i) →
      storeBytes data symbol.offset.toNat count byte = storeBytes data symbol.offset.toNat count byte' := by
    intro count byte byte' each
    unfold storeBytes
    refine List.foldl_ext _ _ _ fun data i member => ?_
    rw [each i (List.mem_range.mp member)]
  unfold storeSymbol
  split
  · rename_i type
    rw [type]
    rfl
  · rename_i type
    rw [type]
    exact same 2 _ _ (fun i bound => byteOf_setWidth symbol.value (by omega))
  · rename_i type
    rw [type]
    exact same 4 _ _ (fun i bound => byteOf_setWidth symbol.value (by omega))
  · rename_i type
    rw [type]
    rfl

/-- What the data holds after a symbol has been stored. -/
theorem storeBytes_getElem? (data : List Byte) (offset count : Nat) (byte : Nat → Byte) (j : Nat)
    (inside : offset + count ≤ data.length) :
    (storeBytes data offset count byte)[j]? =
      if offset ≤ j ∧ j < offset + count then some (byte (j - offset)) else data[j]? := by
  induction count with
  | zero =>
    rw [if_neg (by omega)]
    rfl
  | succ count ih =>
    have step : storeBytes data offset (count + 1) byte =
        (storeBytes data offset count byte).set (offset + count) (byte count) := by
      unfold storeBytes
      rw [List.range_succ, List.foldl_append]
      rfl
    have length := Source.storeBytes_length data offset count byte
    rw [step, List.getElem?_set, ih (by omega)]
    by_cases last : offset + count = j
    · subst last
      rw [if_pos rfl, if_pos (by omega), if_pos (by omega), Nat.add_sub_cancel_left]
    · rw [if_neg last]
      congr 1
      simp only [eq_iff_iff]
      omega

namespace Source

/-- A declared symbol with the literal it is given. -/
def Statement.datum? : Statement → Option (Text × DataType × Text)
  | .declaration type name literal => (dataType? type).map (fun dataType => (name, dataType, literal))
  | _ => none

def declaredData (statements : List Statement) : List (Text × DataType × Text) := statements.filterMap Statement.datum?

/-- What `parseNumberToken` leaves of a literal. -/
def storedValue (literal : Text) : BitVec 64 := (BitVec.ofInt 16 (literalValue literal)).signExtend 64

/-- The symbols that declarations make, one after the other. -/
def symbolsFrom : Address → List (Text × DataType × Text) → List DataSymbol
  | _, [] => []
  | offset, (name, dataType, literal) :: later =>
    { name := name, type := dataType, value := storedValue literal, offset := offset } ::
      symbolsFrom (offset + BitVec.ofNat 32 (dataTypeSize dataType)) later

/-- The name and the type of each. -/
def dataTypes (declared : List (Text × DataType × Text)) : List (Text × DataType) :=
  declared.map (fun datum => (datum.1, datum.2.1))

variable {parser after : Parser} {statement : Statement} {statements : List Statement}

theorem immediate?_eq {literal : Text} {value : BitVec 16} (is : immediate? literal = some value) :
    value = BitVec.ofInt 16 (literalValue literal) ∧
      -9223372036854775808 ≤ literalValue literal ∧ literalValue literal < 9223372036854775808 := by
  unfold immediate? stol stringToInteger at is
  split at is
  · cases is
  · split at is
    · cases is
    · rename_i inRange
      cases is
      refine ⟨rfl, ?_⟩
      omega

theorem dataTypes_declaredData (statements : List Statement) :
    dataTypes (declaredData statements) = declarations statements := by
  rw [dataTypes, declaredData, List.map_filterMap]
  refine congrArg (fun f => statements.filterMap f) (funext fun statement => ?_)
  cases statement with
  | declaration type name literal =>
    rw [Statement.datum?, Statement.declaration?]
    cases dataType? type <;> rfl
  | openSection target => rfl
  | label name => rfl
  | instruction read => rfl

theorem symbolsFrom_append (offset : Address) (before later : List (Text × DataType × Text)) :
    symbolsFrom offset (before ++ later) =
      symbolsFrom offset before ++ symbolsFrom (offset + BitVec.ofNat 32 (declaredBytes (dataTypes before))) later := by
  induction before generalizing offset with
  | nil => exact congrArg (fun place => symbolsFrom place later) (BitVec.add_zero _).symm
  | cons datum before ih =>
    obtain ⟨name, dataType, literal⟩ := datum
    have bytes : declaredBytes (dataTypes ((name, dataType, literal) :: before)) =
        dataTypeSize dataType + declaredBytes (dataTypes before) := declaredBytes_cons _ _
    rw [List.cons_append, symbolsFrom, symbolsFrom, ih, bytes, BitVec.ofNat_add, BitVec.add_assoc, List.cons_append]

theorem symbolsFrom_getElem? (offset : Address) (declared : List (Text × DataType × Text)) (index : Nat) :
    (symbolsFrom offset declared)[index]? =
      declared[index]?.map (fun datum =>
        { name := datum.1, type := datum.2.1, value := storedValue datum.2.2
          offset := offset + BitVec.ofNat 32 (declaredBytes (dataTypes (declared.take index))) }) := by
  induction declared generalizing offset index with
  | nil => rfl
  | cons datum declared ih =>
    obtain ⟨name, dataType, literal⟩ := datum
    cases index with
    | zero =>
      refine congrArg some ?_
      rw [DataSymbol.mk.injEq]
      exact ⟨rfl, rfl, rfl, (BitVec.add_zero _).symm⟩
    | succ index =>
      have bytes : declaredBytes (dataTypes ((name, dataType, literal) :: declared.take index)) =
          dataTypeSize dataType + declaredBytes (dataTypes (declared.take index)) := declaredBytes_cons _ _
      rw [symbolsFrom, List.getElem?_cons_succ, List.getElem?_cons_succ, ih, List.take_succ_cons, bytes,
        BitVec.ofNat_add, BitVec.add_assoc]

theorem symbols_of_performs (performs : statement.perform false parser = some after) :
    after.dataSymbols = parser.dataSymbols ++ symbolsFrom parser.dataOffset (declaredData [statement]) ∧
      ∀ datum ∈ declaredData [statement],
        -9223372036854775808 ≤ literalValue datum.2.2 ∧ literalValue datum.2.2 < 9223372036854775808 := by
  cases statement with
  | openSection target =>
    cases performs
    exact ⟨(List.append_nil _).symm, fun _ member => absurd member List.not_mem_nil⟩
  | declaration type name literal =>
    obtain ⟨dataType, known, performs⟩ := Option.bind_eq_some_iff.mp performs
    obtain ⟨value, valued, performs⟩ := Option.bind_eq_some_iff.mp performs
    cases performs
    have declared : declaredData [.declaration type name literal] = [(name, dataType, literal)] := by
      rw [declaredData, List.filterMap_cons_some (by rw [Statement.datum?, known]; rfl)]
      rfl
    obtain ⟨rfl, range⟩ := immediate?_eq valued
    rw [declared]
    refine ⟨rfl, fun datum member => ?_⟩
    rw [List.mem_singleton.mp member]
    exact range
  | label name =>
    cases performs
    exact ⟨(List.append_nil _).symm, fun _ member => absurd member List.not_mem_nil⟩
  | instruction read =>
    obtain ⟨word, _, rfl⟩ := Option.map_eq_some_iff.mp performs
    exact ⟨(List.append_nil _).symm, fun _ member => absurd member List.not_mem_nil⟩

/-- The symbols of the first pass, with the values they are stored with. -/
theorem symbols_of_run (ran : statements.foldlM (Statement.perform false) parser = some after) :
    after.dataSymbols = parser.dataSymbols ++ symbolsFrom parser.dataOffset (declaredData statements) ∧
      ∀ datum ∈ declaredData statements,
        -9223372036854775808 ≤ literalValue datum.2.2 ∧ literalValue datum.2.2 < 9223372036854775808 := by
  induction statements generalizing parser with
  | nil =>
    cases ran
    exact ⟨(List.append_nil _).symm, fun _ member => absurd member List.not_mem_nil⟩
  | cons statement statements ih =>
    obtain ⟨middle, first, rest⟩ := PartialFold.cons_iff.mp ran
    obtain ⟨symbols, ranges⟩ := symbols_of_performs first
    obtain ⟨symbols', ranges'⟩ := ih rest
    have offset := (data_of_performs_false first).2
    have split : declaredData (statement :: statements) = declaredData [statement] ++ declaredData statements := by
      rw [declaredData, declaredData, declaredData, ← List.filterMap_append]
      rfl
    rw [split]
    refine ⟨?_, fun datum member => ?_⟩
    · rw [symbolsFrom_append, dataTypes_declaredData, symbols', symbols, offset, List.append_assoc]
    · rcases List.mem_append.mp member with here | later
      · exact ranges datum here
      · exact ranges' datum later

theorem declaredBytes_take_succ {declared : List (Text × DataType)} {index : Nat} {declaration : Text × DataType}
    (at? : declared[index]? = some declaration) :
    declaredBytes (declared.take (index + 1)) = declaredBytes (declared.take index) + dataTypeSize declaration.2 := by
  rw [List.take_add_one, at?, Option.toList_some, declaredBytes_append, declaredBytes_cons]
  rfl

theorem declaredBytes_take_le (declared : List (Text × DataType)) {first last : Nat} (ordered : first ≤ last) :
    declaredBytes (declared.take first) ≤ declaredBytes (declared.take last) := by
  obtain ⟨more, rfl⟩ := Nat.exists_eq_add_of_le ordered
  rw [List.take_add, declaredBytes_append]
  exact Nat.le_add_right _ _

theorem declaredBytes_take_total (declared : List (Text × DataType)) (index : Nat) :
    declaredBytes (declared.take index) ≤ declaredBytes declared := by
  have ordered := declaredBytes_take_le declared (Nat.le_max_left index declared.length)
  rw [List.take_of_length_le (Nat.le_max_right index declared.length)] at ordered
  exact ordered

/-- Symbols that end inside the data keep their bytes: what is stored later is
stored above them. -/
theorem stored_byte {declared : List (Text × DataType × Text)} {data : List Byte} {offset : Address}
    (inside : offset.toNat + declaredBytes (dataTypes declared) ≤ data.length) (bounded : data.length < 2 ^ 32) :
    (∀ j, j < offset.toNat → ((symbolsFrom offset declared).foldl storeSymbol data)[j]? = data[j]?) ∧
      ∀ index datum k, declared[index]? = some datum → k < dataTypeSize datum.2.1 →
        ((symbolsFrom offset declared).foldl storeSymbol data)[offset.toNat +
          declaredBytes (dataTypes (declared.take index)) + k]? =
          some (byteOf (storedValue datum.2.2) k) := by
  induction declared generalizing data offset with
  | nil =>
    refine ⟨fun _ _ => rfl, ?_⟩
    intro index datum k at?
    cases at?
  | cons first declared ih =>
    obtain ⟨name, dataType, literal⟩ := first
    have bytes : ∀ later, declaredBytes (dataTypes ((name, dataType, literal) :: later)) =
        dataTypeSize dataType + declaredBytes (dataTypes later) := fun later => declaredBytes_cons _ _
    rw [bytes] at inside
    have next : (offset + BitVec.ofNat 32 (dataTypeSize dataType)).toNat = offset.toNat + dataTypeSize dataType := by
      rw [BitVec.toNat_add, BitVec.toNat_ofNat, Nat.add_mod_mod, Nat.mod_eq_of_lt (by omega)]
    have stored : ∀ j, (storeSymbol data ⟨name, dataType, storedValue literal, offset⟩)[j]? =
        if offset.toNat ≤ j ∧ j <
          offset.toNat + dataTypeSize dataType then some (byteOf (storedValue literal) (j - offset.toNat))
        else data[j]? := by
      intro j
      rw [storeSymbol_eq]
      exact storeBytes_getElem? _ _ _ _ _ (by dsimp only; omega)
    have length : (storeSymbol data ⟨name, dataType, storedValue literal, offset⟩).length = data.length :=
      storeSymbol_length _ _
    obtain ⟨below, above⟩ := @ih (storeSymbol data ⟨name, dataType, storedValue literal, offset⟩)
      (offset + BitVec.ofNat 32 (dataTypeSize dataType)) (by rw [next, length]; omega) (by rw [length]; omega)
    rw [symbolsFrom, List.foldl_cons]
    refine ⟨?_, ?_⟩
    · intro j low
      rw [below j (by omega), stored, if_neg (by omega)]
    · intro index datum k at? small
      cases index with
      | zero =>
        cases at?
        have zero : declaredBytes (dataTypes (((name, dataType, literal) :: declared).take 0)) = 0 := rfl
        change k < dataTypeSize dataType at small
        rw [zero, Nat.add_zero, below _ (by omega), stored, if_pos (by omega), Nat.add_sub_cancel_left]
      | succ index =>
        have later := above index datum k at? small
        rw [next] at later
        rw [List.take_succ_cons, bytes, ← later]
        congr 1
        omega

/-- The number has this many bytes, with or without a sign. -/
def Representable (type : DataType) (n : Int) : Prop :=
  -2 ^ (8 * dataTypeSize type - 1) ≤ n ∧ n < 2 ^ (8 * dataTypeSize type)

/-- The encoding of a number that has this many bytes, byte by byte. -/
def encodingByte (type : DataType) (n : Int) (k : Nat) : Byte := byteOf (BitVec.ofInt (8 * dataTypeSize type) n) k

/-- A number of more than two bytes is its own low sixteen bits, sign-extended. -/
def KeptBySixteenBits (type : DataType) (n : Int) : Prop :=
  match type with
  | .Byte => True
  | .DByte => True
  | .Word => -32768 ≤ n ∧ n < 32768 ∨ 4294934528 ≤ n
  | .QWord => -32768 ≤ n ∧ n < 32768

theorem storedValue_toNat (literal : Text) :
    ((storedValue literal).toNat : Int) =
      if literalValue literal % 65536 < 32768 then literalValue literal % 65536
      else literalValue literal % 65536 + 18446744073709486080 := by
  have low : ((BitVec.ofInt 16 (literalValue literal)).toNat : Int) = literalValue literal % 65536 := by
    rw [BitVec.toNat_ofInt]
    omega
  have sign : (BitVec.ofInt 16 (literalValue literal)).msb =
      decide (2 ^ 15 ≤ (BitVec.ofInt 16 (literalValue literal)).toNat) := BitVec.msb_eq_decide _
  rw [storedValue, BitVec.toNat_signExtend, sign, BitVec.toNat_setWidth]
  by_cases small : literalValue literal % 65536 < 32768
  · have positive : ¬ 2 ^ 15 ≤ (BitVec.ofInt 16 (literalValue literal)).toNat := by omega
    rw [decide_eq_false positive, if_neg Bool.false_ne_true, if_pos small]
    omega
  · have negative : 2 ^ 15 ≤ (BitVec.ofInt 16 (literalValue literal)).toNat := by omega
    rw [decide_eq_true negative, if_pos rfl, if_neg small]
    omega

/-- The bytes of a symbol are those of its literal if the narrowing to sixteen
bits has kept it. -/
theorem storedValue_bytes_iff {type : DataType} {literal : Text}
    (long : -9223372036854775808 ≤ literalValue literal ∧ literalValue literal < 9223372036854775808)
    (representable : Representable type (literalValue literal)) :
    (∀ k, k < dataTypeSize type → byteOf (storedValue literal) k = encodingByte type (literalValue literal) k) ↔
      KeptBySixteenBits type (literalValue literal) := by
  have bytes : (∀ k, k < dataTypeSize type → byteOf (storedValue literal) k =
    encodingByte type (literalValue literal) k) ↔
      (storedValue literal).setWidth (8 * dataTypeSize type) =
        BitVec.ofInt (8 * dataTypeSize type) (literalValue literal) := by
    constructor
    · intro each
      rw [← @ofBytes_byteOf _ (dataTypeSize type) (BitVec.ofInt _ _) le_rfl,
        ← @ofBytes_byteOf _ (dataTypeSize type) ((storedValue literal).setWidth _) le_rfl]
      refine ofBytes_congr (fun k bound => ?_)
      rw [byteOf_setWidth _ (by omega), each k bound]
      rfl
    · intro same k bound
      rw [encodingByte, ← same, byteOf_setWidth _ (by omega)]
  have value := storedValue_toNat literal
  obtain ⟨low, high⟩ := representable
  have width : ∀ w, ((storedValue literal).setWidth w = BitVec.ofInt w (literalValue literal) ↔
      ((storedValue literal).toNat : Int) % (2 ^ w : Nat) = literalValue literal % (2 ^ w : Nat)) := by
    intro w
    have nonneg : 0 ≤ literalValue literal % (2 ^ w : Nat) := Int.emod_nonneg _ (by positivity)
    rw [← BitVec.toNat_inj, BitVec.toNat_setWidth, BitVec.toNat_ofInt]
    omega
  rw [bytes, width]
  cases type with
  | Byte =>
    refine iff_of_true ?_ trivial
    have size : 2 ^ (8 * dataTypeSize .Byte) = 256 := rfl
    rw [size]
    split at value <;> omega
  | DByte =>
    refine iff_of_true ?_ trivial
    have size : 2 ^ (8 * dataTypeSize .DByte) = 65536 := rfl
    rw [size]
    split at value <;> omega
  | Word =>
    have size : 2 ^ (8 * dataTypeSize .Word) = 4294967296 := rfl
    norm_num [dataTypeSize] at low high
    rw [size, KeptBySixteenBits]
    split at value <;> omega
  | QWord =>
    have size : 2 ^ (8 * dataTypeSize .QWord) = 18446744073709551616 := rfl
    rw [size, KeptBySixteenBits]
    split at value <;> omega

/-- The image of a source holds the declared symbols one behind the other, each
with the encoding of its literal. -/
structure DataImageFaithful (source : Text) (program : AssembledProgram) (statements : List Statement) : Prop where
  length : program.data.length = declaredBytes (declarations statements)
  symbols : (dataSymbols source).map (fun symbol => (symbol.name, symbol.type)) = declarations statements
  consecutive : ∀ (i : Nat) symbol, (dataSymbols source)[i]? = some symbol →
    symbol.offset.toNat = declaredBytes ((declarations statements).take i)
  disjoint : ∀ (i j : Nat) symbol symbol', (dataSymbols source)[i]? = some symbol →
    (dataSymbols source)[j]? = some symbol' →
    i < j → symbol.offset.toNat + dataTypeSize symbol.type ≤ symbol'.offset.toNat
  encoded : ∀ (i : Nat) symbol name literal, (dataSymbols source)[i]? = some symbol →
    (declaredData statements)[i]? = some (name, symbol.type, literal) →
    Representable symbol.type (literalValue literal) → ∀ k, k < dataTypeSize symbol.type →
    program.data[symbol.offset.toNat + k]? = some (encodingByte symbol.type (literalValue literal) k)

variable {source : Text} {program : AssembledProgram} {first second : Parser}

namespace Assembled

theorem dataSymbols_from (assembled : Assembled source program statements first second) :
    dataSymbols source = symbolsFrom 0 (declaredData statements) := by
  rw [assembled.dataSymbols_eq]
  exact (symbols_of_run assembled.firstPass).1.trans (List.nil_append _)

theorem literal_range (assembled : Assembled source program statements first second) {datum : Text × DataType × Text}
    (member : datum ∈ declaredData statements) :
    -9223372036854775808 ≤ literalValue datum.2.2 ∧ literalValue datum.2.2 < 9223372036854775808 :=
  (symbols_of_run assembled.firstPass).2 datum member

/-- Each symbol with its place, where the offsets do not wrap. -/
theorem datum_of_symbol (assembled : Assembled source program statements first second)
    (bounded : declaredBytes (declarations statements) < 2 ^ 32) {i : Nat} {symbol : DataSymbol}
    (at? : (dataSymbols source)[i]? = some symbol) :
    ∃ literal, (declaredData statements)[i]? = some (symbol.name, symbol.type, literal) ∧
      symbol.offset.toNat = declaredBytes ((declarations statements).take i) := by
  rw [assembled.dataSymbols_from, symbolsFrom_getElem?] at at?
  obtain ⟨⟨name, type, literal⟩, declared, rfl⟩ := Option.map_eq_some_iff.mp at?
  refine ⟨literal, declared, ?_⟩
  have least := declaredBytes_take_total (declarations statements) i
  have types : dataTypes ((declaredData statements).take i) = (declarations statements).take i := by
    rw [← dataTypes_declaredData, dataTypes, dataTypes, List.map_take]
  dsimp only
  rw [types, BitVec.toNat_add, BitVec.toNat_ofNat]
  change (0 + _) % 2 ^ 32 = _
  omega

/-- The byte of the image at a place of a symbol. -/
theorem image_byte (assembled : Assembled source program statements first second)
    (bounded : declaredBytes (declarations statements) < 2 ^ 32) {i : Nat} {datum : Text × DataType × Text}
    (declared : (declaredData statements)[i]? = some datum) {k : Nat} (small : k < dataTypeSize datum.2.1) :
    program.data[declaredBytes ((declarations statements).take i) + k]? = some (byteOf (storedValue datum.2.2) k) := by
  have offset : first.dataOffset = 0#32 + BitVec.ofNat 32 (declaredBytes (declarations statements)) :=
    (data_of_run_false assembled.firstPass).2
  have total : first.dataOffset.toNat = declaredBytes (declarations statements) := by
    rw [offset, BitVec.zero_add, BitVec.toNat_ofNat, Nat.mod_eq_of_lt bounded]
  have symbols : first.dataSymbols = symbolsFrom 0 (declaredData statements) := by
    rw [← assembled.dataSymbols_eq, assembled.dataSymbols_from]
  have image : program.data = (symbolsFrom 0 (declaredData statements)).foldl storeSymbol
      (List.replicate (declaredBytes (declarations statements)) 0) := by
    rw [assembled.data, dataImage, symbols, total]
  have types : dataTypes ((declaredData statements).take i) = (declarations statements).take i := by
    rw [← dataTypes_declaredData, dataTypes, dataTypes, List.map_take]
  have zero : (0 : Address).toNat = 0 := rfl
  have stored := (@stored_byte (declaredData statements) (List.replicate (declaredBytes (declarations statements)) 0) 0
    (by rw [dataTypes_declaredData, List.length_replicate, zero]; omega)
      (by rw [List.length_replicate]; omega)).2 i datum k
      declared small
  rw [types, zero, Nat.zero_add] at stored
  rw [image]
  exact stored

end Assembled

/-- The data image is faithful exactly when the data can be addressed in 32
bits and every literal that its symbol can represent survives sixteen bits. -/
theorem data_image_faithful_iff (accepted : assemble source = .ok program)
    (read : Source.read source = some statements) :
    DataImageFaithful source program statements ↔
      declaredBytes (declarations statements) < 2 ^ 32 ∧
        ∀ datum ∈ declaredData statements, Representable datum.2.1 (literalValue datum.2.2) →
          KeptBySixteenBits datum.2.1 (literalValue datum.2.2) := by
  obtain ⟨first, second, assembled⟩ := exists_assembled_of_read accepted read
  constructor
  · intro faithful
    have bounded : declaredBytes (declarations statements) < 2 ^ 32 := by
      rw [← faithful.length, assembled.data_length]
      exact Nat.mod_lt _ (by decide)
    refine ⟨bounded, fun datum member representable => ?_⟩
    obtain ⟨i, declared⟩ := List.mem_iff_getElem?.mp member
    obtain ⟨name, type, literal⟩ := datum
    have symbol : (dataSymbols source)[i]? = some ⟨name, type, storedValue literal,
        0 + BitVec.ofNat 32 (declaredBytes (dataTypes ((declaredData statements).take i)))⟩ := by
      rw [assembled.dataSymbols_from, symbolsFrom_getElem?, declared]
      rfl
    refine (storedValue_bytes_iff (assembled.literal_range member) representable).mp (fun k small => ?_)
    have encoded := faithful.encoded i _ name literal symbol declared representable k small
    rw [faithful.consecutive i _ symbol, assembled.image_byte bounded declared small] at encoded
    exact Option.some.inj encoded
  · rintro ⟨bounded, kept⟩
    refine ⟨?_, ?_, ?_, ?_, ?_⟩
    · rw [assembled.data_length, Nat.mod_eq_of_lt bounded]
    · have places := congrArg
        (List.map (fun place : Text × DataType × Address => (place.1, place.2.1))) assembled.symbols
      rw [List.map_map] at places
      rw [assembled.dataSymbols_eq]
      refine places.trans ?_
      have forget : ∀ (offset : Address) (declared : List (Text × DataType)),
          (layout offset declared).map (fun place => (place.1, place.2.1)) = declared := by
        intro offset declared
        induction declared generalizing offset with
        | nil => rfl
        | cons declaration declared ih =>
          rw [layout, List.map_cons, ih]
      exact forget 0 _
    · intro i symbol at?
      obtain ⟨_, _, offset⟩ := assembled.datum_of_symbol bounded at?
      exact offset
    · intro i j symbol symbol' at? at?' ordered
      obtain ⟨literal, declared, offset⟩ := assembled.datum_of_symbol bounded at?
      obtain ⟨_, _, offset'⟩ := assembled.datum_of_symbol bounded at?'
      have here : (declarations statements)[i]? = some (symbol.name, symbol.type) := by
        rw [← dataTypes_declaredData, dataTypes, List.getElem?_map, declared]
        rfl
      have less := declaredBytes_take_le (declarations statements) (show i + 1 ≤ j from ordered)
      rw [declaredBytes_take_succ here] at less
      rw [offset, offset']
      exact less
    · intro i symbol name literal at? declared representable k small
      obtain ⟨literal', declared', offset⟩ := assembled.datum_of_symbol bounded at?
      have member : (name, symbol.type, literal) ∈ declaredData statements := List.mem_of_getElem? declared
      have survives := kept _ member representable
      rw [offset, assembled.image_byte bounded declared small]
      exact congrArg some ((storedValue_bytes_iff (assembled.literal_range member) representable).mpr survives k small)

/-- A flag and a negative counter. -/
def flagAndCounter : Text := "DATA:\nBYTE flag 255\nCODE:\nhalt\nDATA:\nWORD counter -2\n".toList

def flagAndCounterStatements : List Statement :=
  [.openSection .Data, .declaration "BYTE".toList "flag".toList "255".toList, .openSection .Code,
    .instruction ⟨"halt".toList, []⟩, .openSection .Data, .declaration "WORD".toList "counter".toList "-2".toList]

theorem data_image_faithful_flagAndCounter :
    DataImageFaithful flagAndCounter ⟨[0x17000000], [255, 254, 255, 255, 255]⟩ flagAndCounterStatements := by
  have accepted : assemble flagAndCounter = .ok ⟨[0x17000000], [255, 254, 255, 255, 255]⟩ := by decide +kernel
  have read : Source.read flagAndCounter = some flagAndCounterStatements := by decide +kernel
  refine (data_image_faithful_iff accepted read).mpr ⟨by decide, fun datum member _ => ?_⟩
  have declared : declaredData flagAndCounterStatements =
      [("flag".toList, .Byte, "255".toList), ("counter".toList, .Word, "-2".toList)] := by decide +kernel
  rw [declared] at member
  rcases List.mem_cons.mp member with rfl | member
  · trivial
  · obtain rfl := List.mem_singleton.mp member
    exact Or.inl (by decide)

/-- A counter that needs seventeen bits. -/
def wideCounter : Text := "DATA:\nWORD counter 70000\n".toList

def wideCounterStatements : List Statement :=
  [.openSection .Data, .declaration "WORD".toList "counter".toList "70000".toList]

theorem data_image_faithful_fails_for_wideCounter :
    ¬ ∀ (source : Text) (program : AssembledProgram) (statements : List Statement), assemble source = .ok program →
        Source.read source = some statements → DataImageFaithful source program statements := by
  intro faithful
  have accepted : assemble wideCounter = .ok ⟨[], [0x70, 0x11, 0, 0]⟩ := by decide +kernel
  have read : Source.read wideCounter = some wideCounterStatements := by decide +kernel
  have declared : ("counter".toList, DataType.Word, "70000".toList) ∈ declaredData wideCounterStatements := by
    decide +kernel
  have survives := ((data_image_faithful_iff accepted read).mp (faithful _ _ _ accepted read)).2 _ declared
    (by unfold Representable; decide)
  rcases survives with ⟨_, low⟩ | high
  · exact absurd low (by decide)
  · exact absurd high (by decide)

end Source

end VirtualMachine
