import VirtualMachine.Os.Loading
import Mathlib.Data.List.Induction

namespace VirtualMachine

open ProgramLoader

/-- A call that loads a program, on the loader alone or through the operating system. -/
inductive LoadCall
  | load (program : AssembledProgram)
  | loadProgramFromSource (source : Text)

/-- The program a call loads, if its source is accepted. -/
def LoadCall.program? : LoadCall → Option AssembledProgram
  | load program => some program
  | loadProgramFromSource source => VirtualOS.program? source

/-- A machine, with the layouts that direct calls of the loader have returned. -/
structure LoadHistory where
  os : VirtualOS
  resources : List MemoryRegionLayout := []

namespace LoadHistory

/-- A direct call of the loader has returned or thrown. -/
def afterLoad (history : LoadHistory) : Except Exception MemoryRegionLayout × PhysicalMemory → LoadHistory
  | (.error _, physical) => { history with os := { history.os with physicalMemory := physical } }
  | (.ok layout, physical) =>
    { os := { history.os with physicalMemory := physical }, resources := history.resources ++ [layout] }

def call (history : LoadHistory) : LoadCall → LoadHistory
  | .load program => history.afterLoad (ProgramLoader.load history.os.physicalMemory program)
  | .loadProgramFromSource source => { history with os := (history.os.loadProgramFromSource source).2 }

def after (quantum : Nat) (input : List Word) (calls : List LoadCall) : LoadHistory :=
  calls.foldl call { os := VirtualOS.create quantum input }

/-- The layouts of everything loaded so far. -/
def layouts (history : LoadHistory) : List MemoryRegionLayout :=
  history.resources ++ history.os.processTable.processes.map (fun process => process.layout)

/-- Each segment lies in its own region and in memory, and no two overlap. -/
structure SegmentsSafe (history : LoadHistory) : Prop where
  inside : ∀ layout ∈ history.layouts, ∀ segment ∈ layout.segments,
    segment.Within layout.region ∧ segment.finish ≤ history.os.physicalMemory.size
  disjoint : (history.layouts.flatMap MemoryRegionLayout.segments).Pairwise Segment.Disjoint

/-- If the call loads a program, the program fits its region. -/
def LoadsFitting (history : LoadHistory) (call : LoadCall) : Prop :=
  ∀ program, call.program? = some program → Loads history.os.physicalMemory program → program.Fits

/-- The allocator's guarantee for everything loaded so far. -/
def Safe (history : LoadHistory) : Prop := Allocated history.os.physicalMemory history.layouts

theorem Safe.segmentsSafe {history : LoadHistory} (safe : history.Safe) : history.SegmentsSafe where
  inside := by
    intro layout member segment segmentMember
    have within := (safe.fitting layout member).segment_within_region segmentMember
    have finish := safe.segment_finish member segmentMember
    exact ⟨within, by rw [safe.size]; exact finish.trans safe.next⟩
  disjoint := by
    rw [List.pairwise_flatMap]
    refine ⟨fun layout member => (safe.fitting layout member).toPacked.segments_pairwise, ?_⟩
    refine safe.disjoint.imp_of_mem ?_
    intro left right leftMember rightMember apart a aMember b bMember
    exact apart.mono ((safe.fitting left leftMember).segment_within_region aMember)
      ((safe.fitting right rightMember).segment_within_region bMember)

/-- What a call leaves when it has loaded this program. -/
structure Loaded (before after : LoadHistory) (program : AssembledProgram) : Prop where
  size : after.os.physicalMemory.size = kDefaultPhysicalMemorySize
  next : after.os.physicalMemory.nextFreeAddress.toNat =
    before.os.physicalMemory.nextFreeAddress.toNat + kDefaultProcessMemorySize
  layouts : after.layouts.Perm (layoutFor before.os.physicalMemory.nextFreeAddress program :: before.layouts)

/-- What a call leaves when it has loaded nothing. -/
structure Refused (before after : LoadHistory) : Prop where
  size : after.os.physicalMemory.size = kDefaultPhysicalMemorySize
  grows : before.os.physicalMemory.nextFreeAddress.toNat ≤ after.os.physicalMemory.nextFreeAddress.toNat
  next : after.os.physicalMemory.nextFreeAddress = before.os.physicalMemory.nextFreeAddress ∨
    after.os.physicalMemory.nextFreeAddress.toNat ≤ kDefaultPhysicalMemorySize
  layouts : after.layouts = before.layouts

variable {history : LoadHistory}

theorem load_cases (size : history.os.physicalMemory.size = kDefaultPhysicalMemorySize) (program : AssembledProgram) :
    Loads history.os.physicalMemory program ∧ history.Loaded (history.call (.load program)) program ∨
      ¬ Loads history.os.physicalMemory program ∧ history.Refused (history.call (.load program)) := by
  rcases ProgramLoader.load_cases size program with
    ⟨loads, after, loaded, sizes, next⟩ | ⟨refused, e, after, failed, sizes, grows, next⟩
  · refine Or.inl ⟨loads, ?_⟩
    rw [LoadHistory.call, loaded]
    refine ⟨sizes, next, ?_⟩
    simp only [LoadHistory.layouts, afterLoad, List.append_assoc, List.singleton_append]
    exact List.perm_middle
  · refine Or.inr ⟨refused, ?_⟩
    rw [LoadHistory.call, failed]
    exact ⟨sizes, grows, next, rfl⟩

theorem loadProgramFromSource_cases (size : history.os.physicalMemory.size = kDefaultPhysicalMemorySize)
    (source : Text) :
    (∃ program, VirtualOS.program? source = some program ∧ Loads history.os.physicalMemory program ∧
        history.Loaded (history.call (.loadProgramFromSource source)) program) ∨
      (∀ program, VirtualOS.program? source = some program → ¬ Loads history.os.physicalMemory program) ∧
        history.Refused (history.call (.loadProgramFromSource source)) := by
  have called : history.call (.loadProgramFromSource source) =
      { history with os := (VirtualOS.finishEmplace (history.os.emplaceProgram source)).2 } := rfl
  rw [called]
  rcases history.os.emplaceProgram_cases source with ⟨rejected, e, failed⟩ | ⟨program, accepted, outcome⟩
  · refine Or.inr ⟨by simp [rejected], ?_⟩
    rw [failed]
    exact ⟨size, le_rfl, Or.inl rfl, rfl⟩
  · rcases ProgramLoader.load_cases size program with
      ⟨loads, after, loaded, sizes, next⟩ | ⟨refused, e, after, failed, sizes, grows, next⟩
    · rcases outcome with ⟨e, physical, failed, _⟩ | ⟨layout, physical, ran, emplaced⟩
      · rw [loaded] at failed
        cases failed
      · rw [loaded] at ran
        cases ran
        refine Or.inl ⟨program, accepted, loads, ?_⟩
        rw [emplaced]
        refine ⟨sizes, next, ?_⟩
        simp only [LoadHistory.layouts, VirtualOS.finishEmplace, VirtualOS.notifyProcessReady, VirtualOS.setState,
          VirtualOS.modifyProcess, VirtualOS.emplaced]
        rw [ProcessTable.map_modify _ _ (fun process => process.setState .Ready) (fun process => process.layout)
          (fun _ => rfl), ProcessTable.emplace, List.map_append, ← List.append_assoc]
        exact List.perm_append_comm
    · rcases outcome with ⟨e', physical, ran, emplaced⟩ | ⟨layout, physical, loaded, _⟩
      · rw [failed] at ran
        cases ran
        refine Or.inr ⟨fun other same => ?_, ?_⟩
        · rw [accepted] at same
          cases same
          exact refused
        · rw [emplaced]
          exact ⟨sizes, grows, next, rfl⟩
      · rw [failed] at loaded
        cases loaded

/-- A call by what becomes of its program. -/
theorem call_cases (size : history.os.physicalMemory.size = kDefaultPhysicalMemorySize) (call : LoadCall) :
    (∃ program, call.program? = some program ∧ Loads history.os.physicalMemory program ∧
        history.Loaded (history.call call) program) ∨
      (∀ program, call.program? = some program → ¬ Loads history.os.physicalMemory program) ∧
        history.Refused (history.call call) := by
  cases call with
  | load program =>
    rcases load_cases size program with ⟨loads, loaded⟩ | ⟨refused, unchanged⟩
    · exact Or.inl ⟨program, rfl, loads, loaded⟩
    · refine Or.inr ⟨fun other same => ?_, unchanged⟩
      cases same
      exact refused
  | loadProgramFromSource source => exact loadProgramFromSource_cases size source

theorem Safe.call (safe : history.Safe) {call : LoadCall} (fitting : history.LoadsFitting call) :
    (history.call call).Safe := by
  rcases call_cases safe.size call with ⟨program, known, loads, loaded⟩ | ⟨_, refused⟩
  · exact (Allocated.loaded safe loads (fitting program known loads) loaded.size loaded.next).perm loaded.layouts
  · rw [Safe, refused.layouts]
    exact Allocated.mono safe refused.size refused.grows refused.next

/-- A program that is loaded into safe segments fits its region. -/
theorem loadsFitting_of_segmentsSafe (size : history.os.physicalMemory.size = kDefaultPhysicalMemorySize)
    {call : LoadCall} (safe : (history.call call).SegmentsSafe) : history.LoadsFitting call := by
  intro program known loads
  rcases call_cases size call with ⟨other, same, _, loaded⟩ | ⟨refused, _⟩
  · rw [known] at same
    cases same
    have member := loaded.layouts.mem_iff.mpr List.mem_cons_self
    have stack := (safe.inside _ member _ (by simp [MemoryRegionLayout.segments] :
      (layoutFor history.os.physicalMemory.nextFreeAddress program).stackSegment ∈ _)).1.2
    obtain ⟨room, inside⟩ := loads
    rw [size] at room inside
    have bound : kDefaultPhysicalMemorySize + kStackSize < 2 ^ 32 := by decide
    have packed : (layoutFor history.os.physicalMemory.nextFreeAddress program).Packed := layoutFor_packed (by omega)
    have offset := packed.stack
    simp only [Segment.finish, MemoryRegionLayout.stackSegment, MemoryRegionLayout.region, base_layoutFor,
      codeSize_layoutFor, dataSize_layoutFor, stackSize_layoutFor, totalSize_layoutFor] at stack offset
    simp only [AssembledProgram.Fits]
    omega
  · exact absurd loads (refused program known)

section Sequences

variable {quantum : Nat} {input : List Word}

theorem after_concat (calls : List LoadCall) (call : LoadCall) :
    after quantum input (calls ++ [call]) = (after quantum input calls).call call := by
  simp [after]

theorem size_after (calls : List LoadCall) :
    (after quantum input calls).os.physicalMemory.size = kDefaultPhysicalMemorySize := by
  induction calls using List.reverseRecOn with
  | nil => rfl
  | append_singleton calls call ih =>
    rw [after_concat]
    rcases call_cases ih call with ⟨_, _, _, loaded⟩ | ⟨_, refused⟩
    · exact loaded.size
    · exact refused.size

/-- Loads of fitting programs keep all regions apart. -/
theorem safe_after (calls : List LoadCall)
    (fitting : ∀ before call, before ++ [call] <+: calls → (after quantum input before).LoadsFitting call) :
    (after quantum input calls).Safe := by
  induction calls using List.reverseRecOn with
  | nil => exact Allocated.boot
  | append_singleton calls call ih =>
    rw [after_concat]
    refine Safe.call (ih fun before next earlier => ?_) (fitting calls call (List.prefix_refl _))
    exact fitting before next (earlier.trans (List.prefix_append calls [call]))

end Sequences

/-- A sequence of loads keeps all segments apart, inside their regions and
inside memory exactly when every program it loads fits its region: the loader
itself never compares the size of a program with the size of a region. -/
theorem segmentsSafe_iff_loadsFitting (quantum : Nat) (input : List Word) (calls : List LoadCall) :
    (∀ before, before <+: calls → (after quantum input before).SegmentsSafe) ↔
      ∀ before call, before ++ [call] <+: calls → (after quantum input before).LoadsFitting call := by
  constructor
  · intro safe before call earlier
    have loaded := safe _ earlier
    rw [after_concat] at loaded
    exact loadsFitting_of_segmentsSafe (size_after before) loaded
  · intro fitting before earlier
    exact (safe_after before fun first call next => fitting first call (next.trans earlier)).segmentsSafe

/-- A program whose code fills a region and leaves no room for the stack. -/
def fullRegion : AssembledProgram := { code := List.replicate 16384 0, data := [] }

theorem segmentsSafe_fails_for_fullRegion :
    ¬ ∀ (quantum : Nat) (input : List Word) (calls before : List LoadCall),
      before <+: calls → (after quantum input before).SegmentsSafe := by
  intro safe
  have size : (after 100 [] []).os.physicalMemory.size = kDefaultPhysicalMemorySize := rfl
  have loaded := safe 100 [] ([] ++ [.load fullRegion]) _ (List.prefix_refl _)
  rw [after_concat] at loaded
  have length : fullRegion.code.length = 16384 := List.length_replicate
  have noData : fullRegion.data.length = 0 := rfl
  have accepted : Loads (after 100 [] []).os.physicalMemory fullRegion := by
    rw [Loads, size, length, noData]
    decide
  have fits : fullRegion.Fits := loadsFitting_of_segmentsSafe size loaded fullRegion rfl accepted
  simp only [AssembledProgram.Fits, length, noData] at fits
  exact absurd fits (by decide)

end LoadHistory

end VirtualMachine
