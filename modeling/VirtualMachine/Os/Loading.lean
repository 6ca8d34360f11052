import VirtualMachine.Os.LoadedImage
import VirtualMachine.Os.VirtualOS

namespace VirtualMachine

open ProgramLoader

/-- What the allocator guarantees while every loaded program fits its region:
the regions lie apart from each other, below the next free address. -/
structure Allocated (physical : PhysicalMemory) (layouts : List MemoryRegionLayout) : Prop where
  size : physical.size = kDefaultPhysicalMemorySize
  next : physical.nextFreeAddress.toNat ≤ kDefaultPhysicalMemorySize
  regions : ∀ layout ∈ layouts, layout.region.finish ≤ physical.nextFreeAddress.toNat
  disjoint : layouts.Pairwise (fun left right => left.region.Disjoint right.region)
  fitting : ∀ layout ∈ layouts, layout.Fitting

namespace Allocated

variable {before after : PhysicalMemory} {layouts : List MemoryRegionLayout} {program : AssembledProgram}

/-- A memory without regions. -/
theorem boot : Allocated {} [] where
  size := rfl
  next := Nat.zero_le _
  regions := by simp
  disjoint := .nil
  fitting := by simp

/-- Every segment of a loaded program ends below the next free address. -/
theorem segment_finish (allocated : Allocated before layouts) {layout : MemoryRegionLayout} {segment : Segment}
    (member : layout ∈ layouts) (segmentMember : segment ∈ layout.segments) :
    segment.finish ≤ before.nextFreeAddress.toNat :=
  ((allocated.fitting layout member).segment_within_region segmentMember).2.trans (allocated.regions layout member)

/-- A new region starts where all others have ended. -/
theorem loaded (allocated : Allocated before layouts) (loads : Loads before program) (fits : program.Fits)
    (size : after.size = kDefaultPhysicalMemorySize)
    (next : after.nextFreeAddress.toNat = before.nextFreeAddress.toNat + kDefaultProcessMemorySize) :
    Allocated after (layoutFor before.nextFreeAddress program :: layouts) := by
  have room := loads.1
  rw [allocated.size] at room
  have below : before.nextFreeAddress.toNat + kDefaultProcessMemorySize < 2 ^ 32 :=
    Nat.lt_of_le_of_lt room (by decide)
  refine ⟨size, by omega, ?_, ?_, ?_⟩
  · intro layout member
    rcases List.mem_cons.mp member with rfl | old
    · simp only [Segment.finish, MemoryRegionLayout.region, base_layoutFor, totalSize_layoutFor, next]
      omega
    · exact (allocated.regions layout old).trans (by omega)
  · refine List.pairwise_cons.mpr ⟨fun layout member => Or.inr ?_, allocated.disjoint⟩
    simpa [MemoryRegionLayout.region] using allocated.regions layout member
  · intro layout member
    rcases List.mem_cons.mp member with rfl | old
    · exact layoutFor_fitting fits below
    · exact allocated.fitting layout old

/-- What only grows, or only rearranges the layouts, keeps the regions apart. -/
theorem mono (allocated : Allocated before layouts) (size : after.size = kDefaultPhysicalMemorySize)
    (grows : before.nextFreeAddress.toNat ≤ after.nextFreeAddress.toNat)
    (next : after.nextFreeAddress = before.nextFreeAddress ∨
      after.nextFreeAddress.toNat ≤ kDefaultPhysicalMemorySize) : Allocated after layouts where
  size := size
  next := by
    rcases next with same | bounded
    · rw [same]
      exact allocated.next
    · exact bounded
  regions layout member := (allocated.regions layout member).trans grows
  disjoint := allocated.disjoint
  fitting := allocated.fitting

theorem perm {other : List MemoryRegionLayout} (allocated : Allocated before layouts) (perm : other.Perm layouts) :
    Allocated before other where
  size := allocated.size
  next := allocated.next
  regions layout member := allocated.regions layout (perm.mem_iff.mp member)
  disjoint := (perm.pairwise_iff (fun apart => apart.symm)).mpr allocated.disjoint
  fitting layout member := allocated.fitting layout (perm.mem_iff.mp member)

end Allocated

/-- A load by its outcome, with what it leaves of the allocator. -/
theorem ProgramLoader.load_cases {physical : PhysicalMemory} (size : physical.size = kDefaultPhysicalMemorySize)
    (program : AssembledProgram) :
    Loads physical program ∧
        (∃ after, load physical program = (.ok (layoutFor physical.nextFreeAddress program), after) ∧
          after.size = kDefaultPhysicalMemorySize ∧
          after.nextFreeAddress.toNat = physical.nextFreeAddress.toNat + kDefaultProcessMemorySize) ∨
      ¬ Loads physical program ∧
        ∃ e after, load physical program = (.error e, after) ∧
          after.size = kDefaultPhysicalMemorySize ∧
          physical.nextFreeAddress.toNat ≤ after.nextFreeAddress.toNat ∧
          (after.nextFreeAddress = physical.nextFreeAddress ∨
            after.nextFreeAddress.toNat ≤ kDefaultPhysicalMemorySize) := by
  have bounded : physical.size + kStackSize < 2 ^ 32 := by rw [size]; decide
  by_cases loads : Loads physical program
  · obtain ⟨after, loaded, changes⟩ := load_of_loads loads bounded
    refine Or.inl ⟨loads, after, loaded, ?_, ?_⟩
    · rw [changes.size, PhysicalMemory.size_allocated, size]
    · rw [changes.nextFree, PhysicalMemory.nextFreeAddress_allocated (by have := loads.1; omega)]
  · obtain ⟨e, after, failed, sizes, next⟩ := load_of_not_loads loads (by omega)
    refine Or.inr ⟨loads, e, after, failed, sizes.trans size, ?_, ?_⟩
    · rcases next with same | ⟨room, taken⟩
      · rw [same]
      · rw [taken, PhysicalMemory.nextFreeAddress_allocated (by omega)]
        omega
    · rcases next with same | ⟨room, taken⟩
      · exact Or.inl same
      · rw [taken, PhysicalMemory.nextFreeAddress_allocated (by omega)]
        exact Or.inr (by omega)

/-- What a load, whether it fails or not, leaves of what has been there before. -/
structure ProgramLoader.Leaves (before after : PhysicalMemory) : Prop where
  size : after.size = before.size
  grows : before.nextFreeAddress.toNat ≤ after.nextFreeAddress.toNat
  next : after.nextFreeAddress = before.nextFreeAddress ∨ after.nextFreeAddress.toNat ≤ kDefaultPhysicalMemorySize
  below : ∀ k, k < before.nextFreeAddress.toNat → after.memory k = before.memory k

theorem ProgramLoader.Leaves.refl (physical : PhysicalMemory) : Leaves physical physical :=
  ⟨rfl, Nat.le_refl _, Or.inl rfl, fun _ _ => rfl⟩

/-- Whatever becomes of a load, the bytes of the regions before it stay. -/
theorem ProgramLoader.load_leaves {physical : PhysicalMemory} {program : AssembledProgram}
    (size : physical.size = kDefaultPhysicalMemorySize) (fits : program.Fits) :
    Leaves physical (load physical program).2 := by
  have below : ∀ k, k < physical.nextFreeAddress.toNat → (load physical program).2.memory k = physical.memory k :=
    fun k below => load_below fits (by rw [size]; decide) below
  rcases load_cases size program with ⟨loads, after, ran, sizes, next⟩ | ⟨_, e, after, ran, sizes, grows, next⟩
  · have room := loads.1
    rw [size] at room
    rw [ran] at below ⊢
    exact ⟨sizes.trans size.symm, by dsimp only; omega, Or.inr (by dsimp only; omega), below⟩
  · rw [ran] at below ⊢
    exact ⟨sizes.trans size.symm, grows, next, below⟩

/-- And so do the regions. -/
theorem Allocated.leaves {before after : PhysicalMemory} {layouts : List MemoryRegionLayout}
    (allocated : Allocated before layouts) (leaves : Leaves before after) : Allocated after layouts :=
  allocated.mono (leaves.size.trans allocated.size) leaves.grows leaves.next

namespace VirtualOS

/-- The machine with a new process for an image that has been loaded. -/
def emplaced (os : VirtualOS) (physical : PhysicalMemory) (layout : MemoryRegionLayout) : VirtualOS :=
  { os with physicalMemory := physical, processTable := (os.processTable.emplace (os.newProcess layout)).2 }

/-- The program of a source, if the assembler accepts it. -/
def program? (source : Text) : Option AssembledProgram := (assemble source).toOption

/-- A program made from this source fits its region. -/
def SourceFits (source : Text) : Prop := ∀ program ∈ program? source, program.Fits

instance (source : Text) : Decidable (SourceFits source) :=
  inferInstanceAs (Decidable (∀ program ∈ program? source, _))

/-- What a call that has failed to load this source can leave of memory. -/
def FailedLoad (source : Text) (before after : PhysicalMemory) : Prop :=
  after = before ∨ ∃ program e, program? source = some program ∧ load before program = (.error e, after)

theorem FailedLoad.leaves {source : Text} {before after : PhysicalMemory} (failed : FailedLoad source before after)
    (size : before.size = kDefaultPhysicalMemorySize) (fits : SourceFits source) : Leaves before after := by
  rcases failed with rfl | ⟨program, e, accepted, ran⟩
  · exact .refl _
  · have leaves := load_leaves size (fits program accepted)
    rwa [ran] at leaves

/-- A call that loads a source fails and can only have used up memory, or it
adds one process. -/
theorem emplaceProgram_cases (os : VirtualOS) (source : Text) :
    program? source = none ∧ (∃ e, os.emplaceProgram source = (.error e, os)) ∨
      ∃ program, program? source = some program ∧
        ((∃ e physical, load os.physicalMemory program = (.error e, physical) ∧
            os.emplaceProgram source = (.error e, { os with physicalMemory := physical })) ∨
          ∃ layout physical, load os.physicalMemory program = (.ok layout, physical) ∧
            os.emplaceProgram source = (.ok os.processTable.processes.length, os.emplaced physical layout)) := by
  unfold emplaceProgram program?
  cases assemble source with
  | error e => exact Or.inl ⟨rfl, e, rfl⟩
  | ok program =>
    refine Or.inr ⟨program, rfl, ?_⟩
    show (∃ e physical, _ ∧ os.emplaceLoaded _ = _) ∨ ∃ layout physical, _ ∧ os.emplaceLoaded _ = _
    obtain ⟨outcome, physical⟩ := load os.physicalMemory program
    cases outcome with
    | error e => exact Or.inl ⟨e, physical, rfl, rfl⟩
    | ok layout => exact Or.inr ⟨layout, physical, rfl, rfl⟩

/-- The same, with what a failure leaves of memory. -/
theorem emplaceProgram_outcome (os : VirtualOS) (source : Text) :
    (∃ e physical, FailedLoad source os.physicalMemory physical ∧
        os.emplaceProgram source = (.error e, { os with physicalMemory := physical })) ∨
      ∃ program layout physical, program? source = some program ∧
        load os.physicalMemory program = (.ok layout, physical) ∧
        os.emplaceProgram source = (.ok os.processTable.processes.length, os.emplaced physical layout) := by
  rcases os.emplaceProgram_cases source with
    ⟨_, e, failed⟩ | ⟨program, accepted, ⟨e, physical, ran, failed⟩ | ⟨layout, physical, loaded, emplaced⟩⟩
  · exact Or.inl ⟨e, os.physicalMemory, Or.inl rfl, failed⟩
  · exact Or.inl ⟨e, physical, Or.inr ⟨program, e, accepted, ran⟩, failed⟩
  · exact Or.inr ⟨program, layout, physical, accepted, loaded, emplaced⟩

section Emplaced

variable (os : VirtualOS) (physical : PhysicalMemory) (layout : MemoryRegionLayout) {q : ProcessRef}

@[simp] theorem length_emplaced :
    (os.emplaced physical layout).processTable.processes.length = os.processTable.processes.length + 1 := by
  simp [emplaced, ProcessTable.emplace]

/-- A new process is put at the end of the table, so the pointers to the others are
still to the same ones. -/
theorem process?_emplaced_old (old : q < os.processTable.processes.length) :
    (os.emplaced physical layout).process? q = os.process? q := by
  simp only [process?, emplaced, ProcessTable.emplace]
  exact List.getElem?_append_left old

theorem process?_emplaced_new :
    (os.emplaced physical layout).process? os.processTable.processes.length =
      some (os.newProcess layout os.processTable.nextProcessId) := by
  simp [process?, emplaced, ProcessTable.emplace]

end Emplaced

/-- What a call that has failed to load this file can leave of memory. -/
def FailedFile (files : FileSystem) (path : List Byte) (before after : PhysicalMemory) : Prop :=
  after = before ∨ ∃ source, files path = some source ∧ FailedLoad source before after

theorem FailedFile.leaves {files : FileSystem} {path : List Byte} {before after : PhysicalMemory}
    (failed : FailedFile files path before after) (size : before.size = kDefaultPhysicalMemorySize)
    (fits : ∀ source ∈ files path, SourceFits source) : Leaves before after := by
  rcases failed with rfl | ⟨source, opened, failed⟩
  · exact .refl _
  · exact failed.leaves size (fits source opened)

/-- The same for a call that loads a file. -/
theorem emplaceFile_cases (files : FileSystem) (os : VirtualOS) (path : List Byte) :
    (∃ e physical, FailedFile files path os.physicalMemory physical ∧
        os.emplaceFile files path = (.error e, { os with physicalMemory := physical })) ∨
      ∃ source program layout physical, files path = some source ∧ program? source = some program ∧
        load os.physicalMemory program = (.ok layout, physical) ∧
        os.emplaceFile files path = (.ok os.processTable.processes.length, os.emplaced physical layout) := by
  unfold emplaceFile openProgram
  cases opened : files path with
  | none => exact Or.inl ⟨_, os.physicalMemory, Or.inl rfl, rfl⟩
  | some source =>
    dsimp only
    rcases os.emplaceProgram_outcome source with
      ⟨e, physical, left, failed⟩ | ⟨program, layout, physical, accepted, loaded, emplaced⟩
    · exact Or.inl ⟨e, physical, Or.inr ⟨source, opened, left⟩, failed⟩
    · exact Or.inr ⟨source, program, layout, physical, rfl, accepted, loaded, emplaced⟩

/-- The file can be opened, is accepted by the assembler, and there is room for its image. -/
def LoadSucceeds (files : FileSystem) (os : VirtualOS) (path : List Byte) : Prop :=
  ∃ source program, files path = some source ∧ program? source = some program ∧ Loads os.physicalMemory program

/-- A file is loaded exactly where nothing is in the way. -/
theorem emplaceFile_ok_iff (files : FileSystem) (os : VirtualOS)
    (size : os.physicalMemory.size = kDefaultPhysicalMemorySize) (path : List Byte) :
    (∃ child, (os.emplaceFile files path).1 = .ok child) ↔ LoadSucceeds files os path := by
  constructor
  · rintro ⟨child, loaded⟩
    rcases emplaceFile_cases files os path with
      ⟨e, physical, _, failed⟩ | ⟨source, program, layout, physical, opened, accepted, ran, _⟩
    · rw [failed] at loaded
      cases loaded
    · rcases load_cases size program with ⟨loads, _⟩ | ⟨_, e, after, failed, _⟩
      · exact ⟨source, program, opened, accepted, loads⟩
      · rw [ran] at failed
        cases failed
  · rintro ⟨source, program, opened, accepted, loads⟩
    unfold emplaceFile openProgram
    rw [opened]
    dsimp only
    rcases os.emplaceProgram_cases source with
      ⟨rejected, _⟩ | ⟨other, same, ⟨e, physical, failed, _⟩ | ⟨layout, physical, _, emplaced⟩⟩
    · rw [rejected] at accepted
      cases accepted
    · rw [accepted] at same
      cases same
      rcases load_cases size program with ⟨_, after, loaded, _⟩ | ⟨refused, _⟩
      · rw [loaded] at failed
        cases failed
      · exact absurd loads refused
    · exact ⟨_, by rw [emplaced]⟩

end VirtualOS

end VirtualMachine
