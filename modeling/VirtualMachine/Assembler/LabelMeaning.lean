import VirtualMachine.Assembler.BranchTargets

namespace VirtualMachine

namespace Source

open VirtualMachine.Parser

/-- The number of instructions above the last definition of a name. -/
def lastDefinition? (name : Text) : List Statement → Option Nat
  | [] => none
  | statement :: rest =>
    match lastDefinition? name rest with
    | some below => some ((instructions [statement]).length + below)
    | none => if statement = .label name then some 0 else none

/-- Of the definition that decides a reference below `before`: the last one
above it, or where there is none the last one of all. -/
def decidingDefinition? (name : Text) (statements before : List Statement) : Option Nat :=
  (lastDefinition? name before).or (lastDefinition? name statements)

/-- The statement below `before` refers to the label. -/
def RefersTo (statements before : List Statement) (name : Text) : Prop :=
  ∃ instruction rest branch, statements = before ++ .instruction instruction :: rest ∧
    instruction.branch? = some (branch, name)

/-- All words that refer to one name have the same target field. -/
def OneMeaning (statements : List Statement) (program : AssembledProgram) : Prop :=
  ∀ name before before' word word', RefersTo statements before name → RefersTo statements before' name →
    program.code[(instructions before).length]? = some word →
      program.code[(instructions before').length]? = some word' →
    (decodeInstruction word).imm = (decodeInstruction word').imm

variable {source : Text} {program : AssembledProgram} {statements before rest : List Statement} {first second : Parser}
  {name : Text} {emit : Bool} {parser after : Parser}

/-- A run leaves a label where its last definition is, or leaves it alone. -/
theorem labels_of_run_last (ran : statements.foldlM (Statement.perform emit) parser = some after) :
    after.labels name =
      ((lastDefinition? name statements).map (fun count => parser.codeAddress + BitVec.ofNat 32 count)).or
        (parser.labels name) := by
  induction statements generalizing parser with
  | nil =>
    cases ran
    rfl
  | cons statement rest ih =>
    obtain ⟨middle, performed, ran⟩ := PartialFold.cons_iff.mp ran
    rw [ih ran, lastDefinition?]
    cases below : lastDefinition? name rest with
    | some count =>
      dsimp only
      rw [codeAddress_of_performs performed, Option.map_some, Option.map_some, Option.some_or, Option.some_or,
        BitVec.ofNat_add, BitVec.add_assoc]
    | none =>
      rw [Option.map_none, Option.none_or]
      dsimp only
      by_cases label : statement = .label name
      · subst label
        cases performed
        rw [if_pos rfl]
        have zero : parser.codeAddress + BitVec.ofNat 32 0 = parser.codeAddress := BitVec.add_zero _
        rw [Option.map_some, Option.some_or, zero]
        exact Function.update_self _ _ _
      · rw [if_neg label, Option.map_none, Option.none_or]
        exact labels_of_performs performed label

/-- The address that the second pass finds for a label, by what it has passed. -/
theorem Assembled.label_eq (assembled : Assembled source program statements first second) {middle : Parser}
    (ran : pass true { first with codeAddress := 0, code := [] } before = some middle) :
    middle.labels name = (decidingDefinition? name statements before).map (BitVec.ofNat 32) := by
  have firstRan : first.labels name =
    ((lastDefinition? name statements).map (fun count => 0#32 + BitVec.ofNat 32 count)).or none :=
    labels_of_run_last assembled.firstPass
  have secondRan : middle.labels name =
      ((lastDefinition? name before).map (fun count => 0#32 + BitVec.ofNat 32 count)).or (first.labels name) :=
    labels_of_run_last ran
  rw [secondRan, firstRan, decidingDefinition?, Option.or_none]
  simp only [BitVec.zero_add]
  cases lastDefinition? name before <;> rfl

theorem decode_branch_imm (branch : Branch) (address : Address) :
    (decodeInstruction (branch.encode address)).imm = ((address.setWidth 16).setWidth 12).signExtend 16 := by
  cases branch <;> exact decode_encode_imm _ _ _ _ _

/-- Two addresses have the same field if they agree in twelve bits. -/
theorem branch_imm_eq_iff (branch branch' : Branch) (count count' : Nat) :
    (decodeInstruction (branch.encode (BitVec.ofNat 32 count))).imm =
        (decodeInstruction (branch'.encode (BitVec.ofNat 32 count'))).imm ↔ count % 4096 = count' % 4096 := by
  have low : ∀ count : Nat, ((BitVec.ofNat 32 count).setWidth 16).toNat % 4096 = count % 4096 := by
    intro count
    rw [BitVec.toNat_setWidth, BitVec.toNat_ofNat]
    omega
  rw [decode_branch_imm, decode_branch_imm, ← BitVec.toNat_inj, signExtend_field_toNat, signExtend_field_toNat, low,
    low]
  have bounded : count % 4096 < 4096 := Nat.mod_lt _ (by decide)
  have bounded' : count' % 4096 < 4096 := Nat.mod_lt _ (by decide)
  split <;> split <;> omega

/-- The word that refers to a label, by the definition that decides it. -/
theorem Assembled.reference_word (assembled : Assembled source program statements first second)
    (refers : RefersTo statements before name) :
    ∃ count branch, decidingDefinition? name statements before = some count ∧
      program.code[(instructions before).length]? = some (Branch.encode (BitVec.ofNat 32 count) branch) := by
  obtain ⟨instruction, rest, branch, rfl, branches⟩ := refers
  obtain ⟨middle, word, passed, made, placed⟩ := assembled.word_below
  rw [word_of_branch branches, assembled.label_eq passed] at made
  obtain ⟨address, found, rfl⟩ := Option.map_eq_some_iff.mp made
  obtain ⟨count, decided, rfl⟩ := Option.map_eq_some_iff.mp found
  exact ⟨count, branch, decided, placed⟩

/-- All references to a name have one target exactly when the definitions that
decide them stand below the same number of instructions, up to the twelve bits
of the field. -/
theorem one_meaning_iff (accepted : assemble source = .ok program) (read : Source.read source = some statements) :
    OneMeaning statements program ↔
      ∀ name before before', RefersTo statements before name → RefersTo statements before' name →
        ∃ count count', decidingDefinition? name statements before = some count ∧
          decidingDefinition? name statements before' = some count' ∧ count % 4096 = count' % 4096 := by
  obtain ⟨first, second, assembled⟩ := exists_assembled_of_read accepted read
  constructor
  · intro one name before before' refers refers'
    obtain ⟨count, branch, decided, placed⟩ := assembled.reference_word refers
    obtain ⟨count', branch', decided', placed'⟩ := assembled.reference_word refers'
    exact ⟨count, count', decided, decided',
      (branch_imm_eq_iff branch branch' count count').mp (one name before before' _ _ refers refers' placed placed')⟩
  · intro agree name before before' word word' refers refers' at? at?'
    obtain ⟨count, branch, decided, placed⟩ := assembled.reference_word refers
    obtain ⟨count', branch', decided', placed'⟩ := assembled.reference_word refers'
    obtain ⟨known, known', is, is', same⟩ := agree name before before' refers refers'
    cases decided.symm.trans is
    cases decided'.symm.trans is'
    cases placed.symm.trans at?
    cases placed'.symm.trans at?'
    exact (branch_imm_eq_iff branch branch' count count').mpr same

/-- A loop between a jump and a push of its label. -/
def loopOnce : Text := "CODE:\njmp loop\nloop: push loop\n".toList

def loopOnceStatements : List Statement :=
  [.openSection .Code, .instruction ⟨"jmp".toList, [.name "loop".toList]⟩, .label "loop".toList,
    .instruction ⟨"push".toList, [.name "loop".toList]⟩]

theorem one_meaning_loopOnce :
    assemble loopOnce = .ok ⟨[0x0D000001, 0x1900F001], []⟩ ∧
      ∀ name before before', RefersTo loopOnceStatements before name → RefersTo loopOnceStatements before' name →
        ∃ count count', decidingDefinition? name loopOnceStatements before = some count ∧
          decidingDefinition? name loopOnceStatements before' = some count' ∧ count % 4096 = count' % 4096 := by
  have accepted : assemble loopOnce = .ok ⟨[0x0D000001, 0x1900F001], []⟩ := by decide +kernel
  have read : Source.read loopOnce = some loopOnceStatements := by decide +kernel
  refine ⟨accepted, (one_meaning_iff accepted read).mp ?_⟩
  intro name before before' word word' refers refers' at? at?'
  have targets : ∀ (i : Nat) (word : Word), (⟨[0x0D000001, 0x1900F001], []⟩ : AssembledProgram).code[i]? = some word →
      (decodeInstruction word).imm = 1 := by
    intro i word at?
    rcases List.mem_cons.mp (List.mem_of_getElem? at?) with rfl | last
    · decide
    · obtain rfl := List.mem_singleton.mp last
      decide
  rw [targets _ _ at?, targets _ _ at?']

/-- A label that is defined twice, with a jump below each definition. -/
def loopTwice : Text := "CODE:\nloop: jmp loop\nloop: jmp loop\n".toList

def loopTwiceStatements : List Statement :=
  [.openSection .Code, .label "loop".toList, .instruction ⟨"jmp".toList, [.name "loop".toList]⟩, .label "loop".toList,
    .instruction ⟨"jmp".toList, [.name "loop".toList]⟩]

theorem one_meaning_fails_for_loopTwice :
    ¬ ∀ (source : Text) (program : AssembledProgram) (statements : List Statement), assemble source = .ok program →
        Source.read source = some statements → OneMeaning statements program := by
  intro one
  have accepted : assemble loopTwice = .ok ⟨[0x0D000000, 0x0D000001], []⟩ := by decide +kernel
  have read : Source.read loopTwice = some loopTwiceStatements := by decide +kernel
  have above : RefersTo loopTwiceStatements [.openSection .Code, .label "loop".toList] "loop".toList :=
    ⟨_, _, .jump .JMP, rfl, rfl⟩
  have below : RefersTo loopTwiceStatements
      [.openSection .Code, .label "loop".toList, .instruction ⟨"jmp".toList, [.name "loop".toList]⟩,
        .label "loop".toList]
      "loop".toList := ⟨_, _, .jump .JMP, rfl, rfl⟩
  have same := one _ _ _ accepted read _ _ _ _ _ above below rfl rfl
  exact absurd same (by decide)

end Source

end VirtualMachine
