import VirtualMachine.Os.Placement

namespace VirtualMachine

/-- `executeInstruction` once it has fetched its word, up to its end or to the
invocation of the load callback. -/
def executeWord (raw : Word) (ctx : ExecutionContext) : Except Exception Progress × ExecutionContext :=
  let instruction := decodeInstruction raw
  if instruction.opcode = Opcode.CALL.toByte then executeCall instruction ctx
  else finishExecute (InstructionRegistry.execute instruction ctx)

theorem beginInstruction_of_readCodeWord {ctx : ExecutionContext} {raw : Word}
    (read : ctx.memory.readCodeWord ctx.registers.pc = .ok raw) : beginInstruction ctx = executeWord raw ctx := by
  rw [beginInstruction, read]
  rfl

theorem executeWord_frame (raw : Word) (ctx : ExecutionContext) : InstructionFrame ctx (executeWord raw ctx).2 := by
  unfold executeWord
  dsimp only
  split
  · exact executeCall_frame (decodeInstruction raw) ctx
  · exact finishExecute_frame (decodeInstruction raw) ctx

namespace VirtualOS

/-- The same on the machine, for process `p`. -/
def executeWord (os : VirtualOS) (p : ProcessRef) (process : ProcessControlBlock) (raw : Word) :
    Except Exception Progress × VirtualOS :=
  match VirtualMachine.executeWord raw (os.context process) with
  | (outcome, ctx) => (outcome, os.update p ctx)

/-- The machine with these registers in process `p` and this input to scan. -/
def withRegistersAndInput (os : VirtualOS) (p : ProcessRef) (registers : RegisterFile) (input : List Word) :
    VirtualOS :=
  { os.modifyProcess p (fun process => process.setRegisters registers) with input := input }

end VirtualOS

/-- No byte outside the data and the stack of a process with this layout has
changed, none of its code has, and no control block but that of process `p`. -/
structure WriteConfined (p : ProcessRef) (layout : MemoryRegionLayout) (before after : VirtualOS) : Prop where
  bytes : ∀ k, ¬ Segment.Contains ⟨layout.dataAddress.toNat, layout.dataSize⟩ k →
    ¬ Segment.Contains ⟨layout.stackAddress.toNat, layout.stackSize⟩ k →
    after.physicalMemory.memory k = before.physicalMemory.memory k
  code : ∀ k, Segment.Contains ⟨layout.codeAddress.toNat, layout.codeSize⟩ k →
    after.physicalMemory.memory k = before.physicalMemory.memory k
  others : ∀ q, q ≠ p → after.process? q = before.process? q

theorem WriteConfined.of_frame {os : VirtualOS} {p : ProcessRef} {process : ProcessControlBlock}
    {ctx : ExecutionContext} (packed : process.layout.Packed) (frame : InstructionFrame (os.context process) ctx) :
    WriteConfined p process.layout os (os.update p ctx) where
  bytes := by
    intro k noData noStack
    rw [← packed.dataSegment_eq] at noData
    rw [← packed.stackSegment_eq] at noStack
    exact frame.memory packed k noData noStack
  code := by
    intro k inside
    rw [← packed.codeSegment_eq] at inside
    obtain ⟨noData, noStack⟩ := packed.code_not_written inside
    exact frame.memory packed k noData noStack
  others := by
    intro q other
    exact os.process?_update_other ctx other

namespace Machine

variable {κ : Type} [DecidableEq κ] [Fintype κ]

/-- Writes are confined: on every machine that any run reaches, for every
process of it, whatever its registers, its next word and the input are, the
execution of the word up to its end, or up to the callback if it is a load
system call, writes to its own data and stack only. -/
theorem write_confinement {quantum : Nat} {input : List Word} {files : FileSystem} {actions : List (Action κ)}
    {machine : Machine κ} (ran : run files (boot quantum input) actions = some machine) {p : ProcessRef}
    {process : ProcessControlBlock} (found : machine.process? p = some process) (raw : Word)
    (registers : RegisterFile) (scanned : List Word) :
    WriteConfined p process.layout (machine.os.withRegistersAndInput p registers scanned)
      ((machine.os.withRegistersAndInput p registers scanned).executeWord p
        (process.setRegisters registers) raw).2 := by
  have placed := placed_of_run ran
  have packed : (process.setRegisters registers).layout.Packed := (placed.layout found).toPacked
  have frame := executeWord_frame raw
    ((machine.os.withRegistersAndInput p registers scanned).context (process.setRegisters registers))
  have confined : WriteConfined p (process.setRegisters registers).layout
      (machine.os.withRegistersAndInput p registers scanned) _ := .of_frame packed frame
  exact confined

/-- A push by a process with one word of data. -/
theorem write_confinement_push :
    ∃ (machine : Machine (Fin 1)) (process : ProcessControlBlock),
      run (fun _ => none) (boot 100 []) [.load "DATA:\nWORD x 5\nCODE:\nhalt\n".toList] = some machine ∧
      machine.process? 0 = some process ∧
      WriteConfined 0 process.layout (machine.os.withRegistersAndInput 0 { sp := 4104 } [])
        ((machine.os.withRegistersAndInput 0 { sp := 4104 } []).executeWord 0 (process.setRegisters { sp := 4104 })
          0x1900F007).2 := by
  have loaded : (run (fun _ => none) (boot 100 []) [.load "DATA:\nWORD x 5\nCODE:\nhalt\n".toList]).any
      (fun machine : Machine (Fin 1) => (machine.process? 0).isSome) = true := by decide +kernel
  obtain ⟨machine, ran, present⟩ := (Option.any_eq_true _ _).mp loaded
  obtain ⟨process, found⟩ := Option.isSome_iff_exists.mp present
  exact ⟨machine, process, ran, found, write_confinement ran found _ _ _⟩

end Machine

end VirtualMachine
