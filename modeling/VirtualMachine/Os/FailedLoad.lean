import VirtualMachine.Assembler.Passes
import VirtualMachine.Os.Loading

namespace VirtualMachine

open ProgramLoader

namespace ProgramLoader

variable {physical : PhysicalMemory}

/-- Without a free region a load changes nothing. -/
theorem load_full (program : AssembledProgram)
    (full : physical.size < physical.nextFreeAddress.toNat + kDefaultProcessMemorySize) :
    ∃ e, load physical program = (.error e, physical) := by
  rw [load]
  rw [PhysicalMemory.allocateRegion_error full]
  exact ⟨_, rfl⟩

/-- A free region is taken before anything else is tried, and never given back. -/
theorem load_takes (program : AssembledProgram) (bounded : physical.size < 2 ^ 32)
    (room : physical.nextFreeAddress.toNat + kDefaultProcessMemorySize ≤ physical.size) :
    (load physical program).2.nextFreeAddress.toNat = physical.nextFreeAddress.toNat + kDefaultProcessMemorySize := by
  have taken : (physical.allocated kDefaultProcessMemorySize).nextFreeAddress.toNat =
      physical.nextFreeAddress.toNat + kDefaultProcessMemorySize :=
    PhysicalMemory.nextFreeAddress_allocated (by omega)
  have dataSize : (layoutFor physical.nextFreeAddress program).dataSize = program.data.length := rfl
  rw [load]
  rw [PhysicalMemory.allocateRegion_ok room]
  dsimp only
  rcases create_spec (physical.allocated kDefaultProcessMemorySize) dataSize
    with ⟨_, middle, created, changed⟩ | ⟨_, e, failed⟩
  · obtain ⟨outcome, after, ran, changes, _⟩ := loadCode_spec program (by omega) bounded
      (changed.size.trans (PhysicalMemory.size_allocated _))
    have nextFree := changes.nextFree.trans changed.nextFree
    simp only [created, ran]
    cases outcome with
    | error e =>
      dsimp only
      rw [nextFree, taken]
    | ok done =>
      dsimp only
      rw [nextFree, taken]
  · rw [failed]
    exact taken

end ProgramLoader

/-- Nothing that later loads depend on has changed. -/
structure Traceless (before after : VirtualOS) : Prop where
  processTable : after.processTable = before.processTable
  readyQueue : after.scheduler.readyQueue = before.scheduler.readyQueue
  memory : ∀ k, k < before.physicalMemory.size → after.physicalMemory.memory k = before.physicalMemory.memory k
  nextFree : after.physicalMemory.nextFreeAddress = before.physicalMemory.nextFreeAddress
  loadable : ∀ source p, (before.loadProgramFromSource source).1 = .ok p →
    (after.loadProgramFromSource source).1 = .ok p

theorem Traceless.refl (os : VirtualOS) : Traceless os os := ⟨rfl, rfl, fun _ _ => rfl, rfl, fun _ _ loaded => loaded⟩

namespace VirtualOS

/-- A load from a source fails where the first half of it does. -/
theorem loadProgramFromSource_error {os after : VirtualOS} {source : Text} {e : Exception}
    (failed : os.emplaceProgram source = (.error e, after)) : os.loadProgramFromSource source = (.error e, after) := by
  rw [loadProgramFromSource, failed]
  rfl

theorem emplaceProgram_of_error {os after : VirtualOS} {source : Text} {e : Exception}
    (failed : os.loadProgramFromSource source = (.error e, after)) : os.emplaceProgram source = (.error e, after) := by
  unfold loadProgramFromSource at failed
  generalize os.emplaceProgram source = result at failed ⊢
  rcases result with ⟨e' | p, left⟩
  · exact failed
  · cases (Prod.mk.inj failed).1

/-- A failed load leaves no trace exactly when no accepted image runs past the
end of memory from a region that is free. -/
theorem failed_load_traceless_iff (os : VirtualOS) (size : os.physicalMemory.size = kDefaultPhysicalMemorySize)
    (source : Text) :
    (∀ e after, os.loadProgramFromSource source = (.error e, after) → Traceless os after) ↔
      ∀ program, assemble source = .ok program →
        os.physicalMemory.nextFreeAddress.toNat + kDefaultProcessMemorySize ≤ kDefaultPhysicalMemorySize →
        os.physicalMemory.nextFreeAddress.toNat + 4 * program.code.length + program.data.length ≤
          kDefaultPhysicalMemorySize := by
  have megabyte : kDefaultPhysicalMemorySize = 1048576 := rfl
  have region : kDefaultProcessMemorySize = 65536 := rfl
  constructor
  · intro traceless program accepted room
    by_contra outside
    have refused : ¬ Loads os.physicalMemory program := fun loads => outside (size ▸ loads.2)
    obtain ⟨e, physical, failed, _⟩ := load_of_not_loads refused (by omega)
    have emplaced : os.emplaceProgram source = (.error e, { os with physicalMemory := physical }) := by
      rw [emplaceProgram, accepted]
      change os.emplaceLoaded (load os.physicalMemory program) = _
      rw [failed]
      rfl
    have kept := (traceless _ _ (loadProgramFromSource_error emplaced)).nextFree
    have taken := @load_takes os.physicalMemory program (by omega) (by omega)
    rw [failed] at taken
    have same : physical.nextFreeAddress = os.physicalMemory.nextFreeAddress := kept
    rw [same] at taken
    omega
  · intro inside e after threw
    have emplaced := emplaceProgram_of_error threw
    unfold emplaceProgram at emplaced
    cases assembled : assemble source with
    | error _ =>
      rw [assembled] at emplaced
      cases emplaced
      exact .refl os
    | ok program =>
      rw [assembled] at emplaced
      have emplaced : os.emplaceLoaded (load os.physicalMemory program) = (.error e, after) := emplaced
      -- The image ends in memory, so only the lack of a region is left.
      have full : os.physicalMemory.size < os.physicalMemory.nextFreeAddress.toNat + kDefaultProcessMemorySize := by
        by_contra room
        have loads : Loads os.physicalMemory program :=
          ⟨Nat.le_of_not_lt room, size ▸ inside program assembled (by omega)⟩
        obtain ⟨physical, loaded, _⟩ := load_of_loads loads (by rw [size]; decide)
        rw [loaded] at emplaced
        cases (Prod.mk.inj emplaced).1
      obtain ⟨e', unchanged⟩ := load_full program full
      rw [unchanged] at emplaced
      cases emplaced
      exact .refl os

/-- Nothing is left of a source that the assembler rejects. -/
theorem failed_load_traceless_unknownLabel :
    assemble "CODE:\njmp nowhere\n".toList = .error (.assemblerError 2 "unknown label: nowhere") ∧
      ∀ e after, (create 100 []).loadProgramFromSource "CODE:\njmp nowhere\n".toList = (.error e, after) →
        Traceless (create 100 []) after := by
  have rejected : assemble "CODE:\njmp nowhere\n".toList = .error (.assemblerError 2 "unknown label: nowhere") := by
    decide +kernel
  refine ⟨rejected, (failed_load_traceless_iff (create 100 []) rfl _).mpr ?_⟩
  intro program accepted
  rw [rejected] at accepted
  cases accepted

/-- The code of this many instructions runs past the end of an empty memory,
and its region stays taken. -/
theorem failed_load_traceless_fails_for_longCode :
    ¬ ∀ (os : VirtualOS) (source : Text) (e : Exception) (after : VirtualOS),
        os.physicalMemory.size = kDefaultPhysicalMemorySize → os.loadProgramFromSource source = (.error e, after) →
        Traceless os after := by
  intro traceless
  obtain ⟨program, accepted, length, _⟩ := Source.accepted_halts 262145
  have inside := (failed_load_traceless_iff (create 100 []) rfl _).mp
    (fun e after threw => traceless _ _ e after rfl threw)
    program accepted (by decide)
  rw [length] at inside
  have beyond : ¬ (0 : Nat) + 4 * 262145 + program.data.length ≤ 1048576 := by omega
  exact beyond inside

end VirtualOS

end VirtualMachine
