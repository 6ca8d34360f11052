import VirtualMachine.StackDiscipline

namespace VirtualMachine

open ProgramLoader TransitionSystem StackMove

namespace ExecutionContext

/-- The opcode of the next instruction. -/
def nextOpcode? (ctx : ExecutionContext) : Option Opcode :=
  ctx.fetch?.bind (fun instruction => Opcode.ofByte? instruction.opcode)

/-- The next instruction returns `Error` and leaves this message. -/
def FailsWith (ctx : ExecutionContext) (message : String) : Prop :=
  (beginInstruction ctx).1 = .ok (.finished .Error) ∧ (beginInstruction ctx).2.process.lastError = some message

/-- A stack of `stackSize / 4` words, of which `depth` are in use. -/
structure ExactLimits (ctx : ExecutionContext) (depth : Int) : Prop where
  nonnegative : 0 ≤ depth
  pop : ctx.nextOpcode? = some .POP ∨ ctx.nextOpcode? = some .RET → (ctx.FailsWith "stack underflow" ↔ depth = 0)
  push : ctx.nextOpcode? = some .PUSH →
    (ctx.FailsWith "stack overflow" ↔ depth = (ctx.process.layout.stackSize / 4 : Nat))

/-- The next instruction does not pop what has not been pushed, nor does it
push when SP is at the start of the stack. -/
structure AwayFromLimits (ctx : ExecutionContext) (depth : Int) : Prop where
  pop : ctx.nextOpcode? = some .POP ∨ ctx.nextOpcode? = some .RET → depth ≠ 0
  push : ctx.nextOpcode? = some .PUSH → ctx.registers.sp ≠ ctx.process.layout.stackAddress

/-- SP lies one word below the end of the stack and then below what has been
pushed. Pushes that failed behind the end of memory have moved it too. -/
structure Tracks (ctx : ExecutionContext) (depth : Int) : Prop extends ctx.StackSound where
  stackSize : ctx.process.layout.stackSize = kStackSize
  sp_eq : ∃ lost : Nat,
    (ctx.registers.sp.toNat : Int) + 4 * (depth + lost) = ctx.process.layout.stackAddress.toNat + 4092

variable {ctx : ExecutionContext} {depth : Int} {instruction : DecodedInstruction} {opcode : Opcode}

theorem exists_fetch_of_nextOpcode? (next : ctx.nextOpcode? = some opcode) :
    ∃ instruction, ctx.fetch? = some instruction ∧ Opcode.ofByte? instruction.opcode = some opcode :=
  Option.bind_eq_some_iff.mp next

/-- An instruction of the registry does what the table of effects says. -/
theorem beginInstruction_effect (fetched : ctx.fetch? = some instruction)
    (known : Opcode.ofByte? instruction.opcode = some opcode) (notCall : opcode ≠ .CALL) :
    beginInstruction ctx = finishExecute ((effect instruction ctx).apply ctx) := by
  have other : instruction.opcode ≠ Opcode.CALL.toByte := by
    intro call
    rw [call, Opcode.ofByte?_toByte] at known
    exact notCall (Option.some.inj known).symm
  rw [beginInstruction_of_fetch fetched, if_neg other, execute_eq]

theorem rangeError_ne (address : Nat) :
    "memory access out of bounds at address " ++ toString address ≠ "stack underflow" ∧
      "memory access out of bounds at address " ++ toString address ≠ "stack overflow" := by
  have long : 20 ≤ ("memory access out of bounds at address " ++ toString address).length := by
    rw [String.length_append]
    have first : "memory access out of bounds at address ".length = 39 := by decide
    omega
  constructor
  · intro same
    rw [same] at long
    exact absurd long (by decide)
  · intro same
    rw [same] at long
    exact absurd long (by decide)

theorem popEffect_underflow_iff (use : RegisterFile → Word → RegisterFile) {result : ExecutionResult}
    (ran : beginInstruction ctx = finishExecute ((ctx.popEffect use result).apply ctx)) (succeeds : result ≠ .Error) :
    ctx.FailsWith "stack underflow" ↔ ctx.memory.canPop ctx.registers.sp = false := by
  unfold FailsWith
  rw [ran]
  unfold popEffect
  dsimp only
  by_cases room : ctx.memory.canPop ctx.registers.sp = true
  · rw [if_pos room, room]
    refine iff_of_false ?_ (by decide)
    rintro ⟨failed, message⟩
    split at failed
    · cases failed
      exact succeeds rfl
    · rename_i outside
      rw [if_neg outside] at message
      exact (rangeError_ne _).1 (Option.some.inj message)
  · rw [if_neg room]
    exact iff_of_true ⟨rfl, rfl⟩ (Bool.not_eq_true _ ▸ room)

/-- A pop is refused where there is no word up to the end of the stack. -/
theorem underflow_iff (next : ctx.nextOpcode? = some .POP ∨ ctx.nextOpcode? = some .RET) :
    ctx.FailsWith "stack underflow" ↔ ctx.memory.canPop ctx.registers.sp = false := by
  rcases next with pop | ret
  · obtain ⟨instruction, fetched, known⟩ := exists_fetch_of_nextOpcode? pop
    have ran := beginInstruction_effect fetched known (by decide)
    rw [effect, known] at ran
    exact popEffect_underflow_iff _ ran (by decide)
  · obtain ⟨instruction, fetched, known⟩ := exists_fetch_of_nextOpcode? ret
    have ran := beginInstruction_effect fetched known (by decide)
    rw [effect, known] at ran
    exact popEffect_underflow_iff _ ran (by decide)

theorem overflow_iff (next : ctx.nextOpcode? = some .PUSH) :
    ctx.FailsWith "stack overflow" ↔ ctx.memory.canPush ctx.registers.sp = false := by
  obtain ⟨instruction, fetched, known⟩ := exists_fetch_of_nextOpcode? next
  have ran := beginInstruction_effect fetched known (by decide)
  rw [effect, known] at ran
  unfold FailsWith
  rw [ran]
  dsimp only
  unfold pushEffect
  dsimp only
  by_cases room : ctx.memory.canPush ctx.registers.sp = true
  · rw [if_pos room, room]
    refine iff_of_false ?_ (by decide)
    rintro ⟨failed, message⟩
    split at failed
    · cases failed
    · rename_i outside
      rw [if_neg outside] at message
      exact (rangeError_ne _).2 (Option.some.inj message)
  · rw [if_neg room]
    exact iff_of_true ⟨rfl, rfl⟩ (Bool.not_eq_true _ ▸ room)

/-- Only a `POP` or a `RET` lowers the stack. -/
theorem stackMove_height (ctx : ExecutionContext) :
    -1 ≤ ctx.stackMove.height ∧
      (ctx.stackMove.height < 0 → ctx.nextOpcode? = some .POP ∨ ctx.nextOpcode? = some .RET) := by
  have small : ∀ move : StackMove Word, -1 ≤ move.height := by
    intro move
    cases move <;> simp [height]
  refine ⟨small _, fun lower => ?_⟩
  unfold stackMove at lower
  unfold nextOpcode?
  cases fetched : ctx.fetch? with
  | none =>
    rw [fetched] at lower
    exact absurd lower (by simp [height])
  | some instruction =>
    rw [fetched] at lower
    rw [Option.bind_some]
    unfold moveOf at lower
    dsimp only at lower
    split at lower
    · split at lower <;> exact absurd lower (by simp [height])
    · rename_i pop
      exact .inl pop
    · rename_i ret
      exact .inr ret
    · exact absurd lower (by simp [height])

theorem Tracks.change {next : ExecutionContext} {move : StackMove Word} (tracks : ctx.Tracks depth)
    (change : StackChange ctx next move) :
    ∃ lost : Nat, (next.registers.sp.toNat : Int) + 4 * (depth + move.height + lost) =
      ctx.process.layout.stackAddress.toNat + 4092 := by
  obtain ⟨lost, sp_eq⟩ := tracks.sp_eq
  have down (room : ctx.memory.canPush ctx.registers.sp = true) :
      (ctx.registers.sp - 4).toNat = ctx.registers.sp.toNat - 4 ∧ 4 ≤ ctx.registers.sp.toNat := by
    have low := (ProcessMemory.canPush_iff.mp room).1
    exact ⟨ProcessMemory.toNat_sub_four (by omega), by omega⟩
  cases change with
  | push room inMemory moved written kept =>
    obtain ⟨lower, positive⟩ := down room
    refine ⟨lost, ?_⟩
    rw [moved, lower, height]
    omega
  | pop room moved kept =>
    have higher := MemoryRegionLayout.Packed.toNat_add_four tracks.packed room
    refine ⟨lost, ?_⟩
    rw [moved, higher, height]
    omega
  | keep moved kept =>
    rcases moved with same | ⟨room, _, moved⟩
    · refine ⟨lost, ?_⟩
      rw [same, height]
      omega
    · obtain ⟨lower, positive⟩ := down room
      refine ⟨lost + 1, ?_⟩
      rw [moved, lower, height]
      omega

theorem Tracks.processStep {action : ProcessStep} (tracks : ctx.Tracks depth) :
    (action.environment.act (ctx.advance action.loaded)).Tracks (depth + ctx.stackMove.height) := by
  have layout := (action.environment.layout (ctx.advance action.loaded)).trans (ctx.advance_frame action.loaded).layout
  obtain ⟨lost, sp_eq⟩ := tracks.change (ctx.advance_change action.loaded tracks.packed)
  refine ⟨tracks.toStackSound.processStep, ?_, lost, ?_⟩
  · rw [layout]
    exact tracks.stackSize
  · rw [layout, action.environment.registers]
    exact sp_eq

theorem Tracks.run {steps : List ProcessStep} {reached : ExecutionContext} (tracks : ctx.Tracks depth)
    (ran : TransitionSystem.run ExecutionContext.processStep ctx steps = some reached) :
    reached.Tracks (depth + rise (ctx.stackTrace steps)) := by
  induction steps generalizing ctx depth with
  | nil =>
    cases ran
    rw [stackTrace, rise_nil, Int.add_zero]
    exact tracks
  | cons action steps ih =>
    obtain ⟨next, taken, ran⟩ := run_cons_iff.mp ran
    cases taken
    rw [stackTrace, rise_cons, ← Int.add_assoc]
    exact ih tracks.processStep ran

/-- While SP is where the pushes have left it, no pop is refused. -/
theorem Tracks.canPop (tracks : ctx.Tracks depth) (nonnegative : 0 ≤ depth) :
    ctx.memory.canPop ctx.registers.sp = true := by
  obtain ⟨lost, sp_eq⟩ := tracks.sp_eq
  have stackSize := tracks.stackSize
  have size : kStackSize = 4096 := rfl
  refine ProcessMemory.canPop_iff.mpr ⟨tracks.sp.above, ?_⟩
  simp only [ExecutionContext.memory]
  omega

/-- A push is refused at the start of the stack only. -/
theorem Tracks.canPush_iff (tracks : ctx.Tracks depth) :
    ctx.memory.canPush ctx.registers.sp = true ↔ ctx.registers.sp ≠ ctx.process.layout.stackAddress := by
  obtain ⟨above, below, aligned⟩ := tracks.sp
  have differ : ctx.registers.sp ≠ ctx.process.layout.stackAddress ↔
      ctx.registers.sp.toNat ≠ ctx.process.layout.stackAddress.toNat := not_congr BitVec.toNat_inj.symm
  rw [ProcessMemory.canPush_iff, differ]
  simp only [ExecutionContext.memory]
  omega

/-- Away from the limits nothing is refused, and at the limits the code does
not do what the depth says. -/
theorem Tracks.exactLimits_iff (tracks : ctx.Tracks depth) (nonnegative : 0 ≤ depth) :
    ctx.ExactLimits depth ↔ ctx.AwayFromLimits depth := by
  obtain ⟨lost, sp_eq⟩ := tracks.sp_eq
  have above := tracks.sp.above
  have words : ctx.process.layout.stackSize / 4 = 1024 := by rw [tracks.stackSize]; rfl
  constructor
  · intro exact_
    refine ⟨fun next empty => ?_, fun next start => ?_⟩
    · have refused := (underflow_iff next).mp ((exact_.pop next).mpr empty)
      rw [tracks.canPop nonnegative] at refused
      cases refused
    · have refused : ctx.memory.canPush ctx.registers.sp = false := by
        rw [← Bool.not_eq_true, tracks.canPush_iff]
        exact fun differ => differ start
      have full := (exact_.push next).mp ((overflow_iff next).mpr refused)
      rw [words] at full
      omega
  · intro away
    refine ⟨nonnegative, fun next => iff_of_false ?_ (away.pop next), fun next => iff_of_false ?_ ?_⟩
    · rw [underflow_iff next, tracks.canPop nonnegative]
      decide
    · rw [overflow_iff next, tracks.canPush_iff.mpr (away.push next)]
      decide
    · rw [words]
      omega

theorem tracks_ofLoaded {os : VirtualOS} {layout : MemoryRegionLayout} {id : ProcessId} (placed : layout.Placed) :
    (ofLoaded os layout id).Tracks 0 := by
  have sp := placed.initialStackPointer
  refine ⟨stackSound_ofLoaded placed, placed.stackSize, 0, ?_⟩
  show ((VirtualOS.initialStackPointer layout).toNat : Int) + 4 * (0 + (0 : Nat)) = layout.stackAddress.toNat + 4092
  omega

/-- What has not been pushed is not popped, as long as the run stays away from
the limits. -/
theorem depth_nonneg {before : List ProcessStep} (nonnegative : 0 ≤ depth)
    (away : ∀ earlier reached, earlier <+: before → run processStep ctx earlier = some reached →
      reached.AwayFromLimits (depth + rise (ctx.stackTrace earlier))) :
    0 ≤ depth + rise (ctx.stackTrace before) := by
  induction before generalizing ctx depth with
  | nil =>
    rw [stackTrace, rise_nil]
    omega
  | cons action before ih =>
    have here := away [] ctx List.nil_prefix rfl
    rw [stackTrace, rise_nil, Int.add_zero] at here
    obtain ⟨atLeast, lowers⟩ := ctx.stackMove_height
    have next : 0 ≤ depth + ctx.stackMove.height := by
      by_cases lower : ctx.stackMove.height < 0
      · have deep := here.pop (lowers lower)
        omega
      · omega
    rw [stackTrace, rise_cons, ← Int.add_assoc]
    refine ih next (fun earlier reached first ran => ?_)
    have later := away (action :: earlier) reached (List.cons_prefix_cons.mpr ⟨rfl, first⟩)
      (run_cons_iff.mpr ⟨_, rfl, ran⟩)
    rw [stackTrace, rise_cons, ← Int.add_assoc] at later
    exact later

/-- Over the runs of a loaded process: the limits are those of a stack of
`stackSize / 4` words exactly when the run never comes to them. SP starts one
word below the end of the stack, so that the first pop too many and the last
push that should fit go wrong. -/
theorem exact_stack_limits_iff {os : VirtualOS} {program : AssembledProgram} {layout : MemoryRegionLayout}
    {physical : PhysicalMemory} (size : os.physicalMemory.size = kDefaultPhysicalMemorySize)
    (loaded : load os.physicalMemory program = (.ok layout, physical)) (id : ProcessId) (steps : List ProcessStep) :
    (∀ before reached, before <+: steps →
        run processStep (ofLoaded (os.emplaced physical layout) layout id) before = some reached →
        reached.ExactLimits (rise ((ofLoaded (os.emplaced physical layout) layout id).stackTrace before))) ↔
      ∀ before reached, before <+: steps →
        run processStep (ofLoaded (os.emplaced physical layout) layout id) before = some reached →
        reached.AwayFromLimits (rise ((ofLoaded (os.emplaced physical layout) layout id).stackTrace before)) := by
  have start : (ofLoaded (os.emplaced physical layout) layout id).Tracks 0 := tracks_ofLoaded (load_placed size loaded)
  have tracks : ∀ before reached, run processStep (ofLoaded (os.emplaced physical layout) layout id) before =
    some reached →
      reached.Tracks (rise ((ofLoaded (os.emplaced physical layout) layout id).stackTrace before)) := by
    intro before reached ran
    have there := start.run ran
    rw [Int.zero_add] at there
    exact there
  constructor
  · intro limits before reached earlier ran
    have here := limits before reached earlier ran
    exact ((tracks before reached ran).exactLimits_iff here.nonnegative).mp here
  · intro away before reached earlier ran
    refine ((tracks before reached ran).exactLimits_iff ?_).mpr (away before reached earlier ran)
    have nonnegative : 0 ≤ 0 + rise ((ofLoaded (os.emplaced physical layout) layout id).stackTrace before) :=
      depth_nonneg le_rfl (fun first there least ran => by
        rw [Int.zero_add]
        exact away first there (least.trans earlier) ran)
    rw [Int.zero_add] at nonnegative
    exact nonnegative

/-- A loaded program that has executed its `push 7` can pop it. -/
theorem exact_stack_limits_pushPop :
    ∃ layout physical, load {} pushPop = (.ok layout, physical) ∧
      ∀ before reached, before <+: [⟨true, .idle⟩] →
        run processStep (ofLoaded ((VirtualOS.create 100 []).emplaced physical layout) layout 1) before = some reached →
        reached.ExactLimits
          (rise ((ofLoaded ((VirtualOS.create 100 []).emplaced physical layout) layout 1).stackTrace before)) := by
  have loads : Loads {} pushPop := by decide
  obtain ⟨physical, loaded, -⟩ := load_of_loads loads (by decide)
  have size : (VirtualOS.create 100 []).physicalMemory.size = kDefaultPhysicalMemorySize := rfl
  have same : physical = (load {} pushPop).2 := by rw [loaded]
  refine ⟨_, physical, loaded, (exact_stack_limits_iff size loaded 1 _).mpr ?_⟩
  intro before reached earlier ran
  subst same
  rcases List.prefix_cons_iff.mp earlier with rfl | ⟨rest, rfl, none⟩
  · cases ran
    refine ⟨fun pops => ?_, fun _ => ?_⟩
    · exact absurd pops (by decide +kernel)
    · decide +kernel
  · obtain rfl := List.prefix_nil.mp none
    cases ran
    refine ⟨fun _ => ?_, fun pushes => ?_⟩
    · decide +kernel
    · exact absurd pushes (by decide +kernel)

/-- `pop r1`, with nothing on the stack. -/
def popFirst : AssembledProgram := ⟨[0x1A100000], []⟩

/-- The word at the initial SP is popped though nobody has pushed it. -/
theorem exact_stack_limits_fails_for_popFirst :
    ¬ ∀ (os : VirtualOS) (program : AssembledProgram) (layout : MemoryRegionLayout) (physical : PhysicalMemory),
        os.physicalMemory.size = kDefaultPhysicalMemorySize → load os.physicalMemory program = (.ok layout, physical) →
        ∀ (id : ProcessId) (steps before : List ProcessStep) (reached : ExecutionContext), before <+: steps →
          run processStep (ofLoaded (os.emplaced physical layout) layout id) before = some reached →
          reached.ExactLimits (rise ((ofLoaded (os.emplaced physical layout) layout id).stackTrace before)) := by
  intro limits
  have loads : Loads {} popFirst := by decide
  obtain ⟨physical, loaded, -⟩ := load_of_loads loads (by decide)
  have size : (VirtualOS.create 100 []).physicalMemory.size = kDefaultPhysicalMemorySize := rfl
  have same : physical = (load {} popFirst).2 := by rw [loaded]
  have away := (exact_stack_limits_iff size loaded 1 []).mp (limits _ _ _ _ size loaded 1 []) [] _ List.nil_prefix rfl
  subst same
  exact away.pop (.inl (by decide +kernel)) rfl

end ExecutionContext

end VirtualMachine
