import VirtualMachine.Cpu.ControlFlow
import VirtualMachine.Library.TransitionSystem
import VirtualMachine.Os.Loading

namespace VirtualMachine

open ProgramLoader TransitionSystem

/-- What may happen to a process between two of its instructions: the other
processes, the scheduler and the interface leave its registers and its place in
memory alone. -/
structure Environment where
  act : ExecutionContext → ExecutionContext
  registers : ∀ ctx, (act ctx).registers = ctx.registers
  layout : ∀ ctx, (act ctx).process.layout = ctx.process.layout
  size : ∀ ctx, (act ctx).physical.size = ctx.physical.size

/-- Nothing happens. -/
def Environment.idle : Environment := ⟨id, fun _ => rfl, fun _ => rfl, fun _ => rfl⟩

/-- One instruction of a process and what follows it. `loaded` tells whether its
load callback, if it is invoked, returns. -/
structure ProcessStep where
  loaded : Bool
  environment : Environment

namespace ExecutionContext

def processStep : TransitionSystem ExecutionContext ProcessStep := fun ctx action =>
  some (action.environment.act (ctx.advance action.loaded))

/-- The context of a process as it is emplaced. -/
def ofLoaded (os : VirtualOS) (layout : MemoryRegionLayout) (id : ProcessId) : ExecutionContext :=
  os.context (os.newProcess layout id)

/-- The next word fetched is a word of the process's own code, or the fetch is refused. -/
def FetchSafe (ctx : ExecutionContext) : Prop :=
  ctx.registers.pc.toNat < ctx.process.layout.codeSize / 4 ∨
    ∃ e, ctx.memory.readCodeWord ctx.registers.pc = .error e

/-- A value of PC that is the index of a code word, or whose address lies beyond
physical memory, which is the only check that a fetch makes. -/
def Target (ctx : ExecutionContext) (pc : Address) : Prop :=
  pc.toNat < ctx.process.layout.codeSize / 4 ∨
    ctx.physical.size < (ProcessMemory.codeWordAddress ctx.process.layout pc).toNat + 4

instance (ctx : ExecutionContext) (pc : Address) : Decidable (ctx.Target pc) := inferInstanceAs (Decidable (_ ∨ _))

/-- The next instruction does not leave the code: it is not the last word if it
goes on to the next one, and a jump or return that it takes ends in the code. -/
def StaysInCode (ctx : ExecutionContext) (action : ProcessStep) : Prop :=
  match ctx.nextControl action.loaded with
  | .stay => True
  | .next => ctx.Target (ctx.registers.pc + 1)
  | .jump target => ctx.Target target

theorem fetchSafe_iff {ctx : ExecutionContext} : ctx.FetchSafe ↔ ctx.Target ctx.registers.pc := by
  unfold FetchSafe Target
  refine or_congr_right ?_
  constructor
  · rintro ⟨e, refused⟩
    by_contra inside
    have read : ctx.memory.readCodeWord ctx.registers.pc = .ok _ := PhysicalMemory.readWord_ok (Nat.le_of_not_lt inside)
    rw [read] at refused
    cases refused
  · exact fun outside => ⟨_, PhysicalMemory.readWord_error outside⟩

/-- Whether the next fetch is safe depends on this instruction alone. -/
theorem fetchSafe_step (ctx : ExecutionContext) (action : ProcessStep) (next : ExecutionContext) (safe : ctx.FetchSafe)
    (taken : processStep ctx action = some next) : next.FetchSafe ↔ ctx.StaysInCode action := by
  cases taken
  have frame := ctx.advance_frame action.loaded
  have pc := ctx.advance_pc action.loaded
  rw [fetchSafe_iff] at safe ⊢
  unfold Target StaysInCode
  rw [action.environment.registers, action.environment.layout, action.environment.size, frame.layout, frame.size, pc]
  cases ctx.nextControl action.loaded with
  | stay => exact iff_of_true safe trivial
  | next => exact Iff.rfl
  | jump target => exact Iff.rfl

/-- In a run of a loaded process every fetch stays in its code exactly when the
program is not empty and no instruction of the run leaves the code: a fetch
itself is checked against physical memory only. -/
theorem fetchSafe_run_iff (os : VirtualOS) (program : AssembledProgram) (base : Address) (id : ProcessId)
    (steps : List ProcessStep) :
    (∀ before reached, before <+: steps →
      run processStep (ofLoaded os (layoutFor base program) id) before = some reached →
        reached.FetchSafe) ↔
      (ofLoaded os (layoutFor base program) id).Target 0 ∧
        Guarded processStep StaysInCode (ofLoaded os (layoutFor base program) id) steps := by
  have start : (ofLoaded os (layoutFor base program) id).FetchSafe ↔
      (ofLoaded os (layoutFor base program) id).Target 0 := fetchSafe_iff
  rw [← start]
  exact forall_reached_iff (fun _ _ => ⟨_, rfl⟩) fetchSafe_step

/-- One instruction that is not a `halt`. -/
def fallThroughSource : Text := "CODE:\nmov r0, 1\n".toList

/-- The process falls off its only instruction and the word after it is fetched. -/
theorem fetchSafe_fails_after_fallThrough :
    ¬ ∀ (source : Text) (program : AssembledProgram), VirtualOS.program? source = some program →
      ∀ (os : VirtualOS) (base : Address) (id : ProcessId) (steps before : List ProcessStep)
        (reached : ExecutionContext),
        before <+: steps → run processStep (ofLoaded os (layoutFor base program) id) before = some reached →
          reached.FetchSafe := by
  intro safe
  have accepted : VirtualOS.program? fallThroughSource = some ⟨[0xF001], []⟩ := by decide +kernel
  have reached := safe fallThroughSource _ accepted
    ((VirtualOS.create 100 []).loadProgramFromSource fallThroughSource).2 0 1
    [⟨true, .idle⟩] [⟨true, .idle⟩] _ (List.prefix_refl _) rfl
  rw [fetchSafe_iff] at reached
  exact absurd reached (by decide +kernel)

end ExecutionContext

end VirtualMachine
