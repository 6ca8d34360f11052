import VirtualMachine.Memory.ProcessMemory

namespace VirtualMachine

/-- A stretch of addresses, by its start and its size. -/
structure Segment where
  start : Nat
  size : Nat
  deriving DecidableEq, Repr

namespace Segment

def finish (segment : Segment) : Nat := segment.start + segment.size

def Contains (segment : Segment) (k : Nat) : Prop := segment.start ≤ k ∧ k < segment.finish

def Disjoint (left right : Segment) : Prop := left.finish ≤ right.start ∨ right.finish ≤ left.start

def Within (inner outer : Segment) : Prop := outer.start ≤ inner.start ∧ inner.finish ≤ outer.finish

instance (segment : Segment) (k : Nat) : Decidable (segment.Contains k) := inferInstanceAs (Decidable (_ ∧ _))
instance (left right : Segment) : Decidable (left.Disjoint right) := inferInstanceAs (Decidable (_ ∨ _))
instance (inner outer : Segment) : Decidable (inner.Within outer) := inferInstanceAs (Decidable (_ ∧ _))

/-- Stretches that are apart share no address; what lies within them is apart as
well. -/
theorem Disjoint.symm {left right : Segment} (apart : left.Disjoint right) : right.Disjoint left := Or.symm apart

theorem Disjoint.mono {left right left' right' : Segment} (apart : left.Disjoint right)
    (leftWithin : left'.Within left) (rightWithin : right'.Within right) : left'.Disjoint right' := by
  simp only [Disjoint, Within] at *
  omega

theorem Disjoint.not_contains {left right : Segment} {k : Nat} (apart : left.Disjoint right)
    (inside : left.Contains k) : ¬ right.Contains k := by
  simp only [Disjoint, Contains] at *
  omega

end Segment

namespace MemoryRegionLayout

variable (layout : MemoryRegionLayout)

def region : Segment := ⟨layout.base.toNat, layout.totalSize⟩

def codeSegment : Segment := ⟨layout.base.toNat + layout.codeOffset.toNat, layout.codeSize⟩

def dataSegment : Segment := ⟨layout.base.toNat + layout.dataOffset.toNat, layout.dataSize⟩

def stackSegment : Segment := ⟨layout.base.toNat + layout.stackOffset.toNat, layout.stackSize⟩

def segments : List Segment := [layout.codeSegment, layout.dataSegment, layout.stackSegment]

/-- The three segments follow one another from the base on, and none of the
32-bit sums that form their addresses wraps. -/
structure Packed (layout : MemoryRegionLayout) : Prop where
  code : layout.codeOffset.toNat = 0
  data : layout.dataOffset.toNat = layout.codeSize
  stack : layout.stackOffset.toNat = layout.codeSize + layout.dataSize
  bounded : layout.base.toNat + layout.codeSize + layout.dataSize + layout.stackSize < 2 ^ 32

/-- The segments end inside the region. -/
structure Fitting (layout : MemoryRegionLayout) : Prop extends Packed layout where
  room : layout.codeSize + layout.dataSize + layout.stackSize ≤ layout.totalSize

variable {layout}

/-- The three segment addresses as numbers, each behind the segment before it. -/
theorem Packed.codeAddress (packed : layout.Packed) : layout.codeAddress.toNat = layout.base.toNat := by
  have bounded := packed.bounded
  rw [MemoryRegionLayout.codeAddress, BitVec.toNat_add, packed.code, Nat.mod_eq_of_lt (by omega), Nat.add_zero]

theorem Packed.dataAddress (packed : layout.Packed) :
    layout.dataAddress.toNat = layout.base.toNat + layout.codeSize := by
  have bounded := packed.bounded
  rw [MemoryRegionLayout.dataAddress, BitVec.toNat_add, packed.data, Nat.mod_eq_of_lt (by omega)]

theorem Packed.stackAddress (packed : layout.Packed) :
    layout.stackAddress.toNat = layout.base.toNat + layout.codeSize + layout.dataSize := by
  have bounded := packed.bounded
  rw [MemoryRegionLayout.stackAddress, BitVec.toNat_add, packed.stack, Nat.mod_eq_of_lt (by omega)]
  omega

/-- A pop has room to move SP above the word that it reads. -/
theorem Packed.toNat_add_four {memory : ProcessMemory} {sp : Address} (packed : memory.layout.Packed)
    (room : memory.canPop sp = true) : (sp + 4).toNat = sp.toNat + 4 := by
  have high := (ProcessMemory.canPop_iff.mp room).2
  have stackAddress := packed.stackAddress
  have bounded := packed.bounded
  have four : (4 : Address).toNat = 4 := rfl
  exact BitVec.toNat_add_of_lt (by omega)

/-- The address of a code word inside the code segment. -/
theorem Packed.codeWordAddress (packed : layout.Packed) {pc : Address} (inside : pc.toNat * 4 + 4 ≤ layout.codeSize) :
    (ProcessMemory.codeWordAddress layout pc).toNat = layout.base.toNat + pc.toNat * 4 := by
  have bounded := packed.bounded
  rw [ProcessMemory.codeWordAddress, BitVec.toNat_ofNat, packed.codeAddress, wordSize, Nat.mod_eq_of_lt (by omega)]

/-- The address of a data access that passes the segment check. -/
theorem Packed.dataOffsetAddress (packed : layout.Packed) {offset : Address} (inside : offset.toNat ≤ layout.dataSize) :
    (layout.dataAddress + offset).toNat = layout.base.toNat + layout.codeSize + offset.toNat := by
  have bounded := packed.bounded
  rw [BitVec.toNat_add, packed.dataAddress, Nat.mod_eq_of_lt (by omega)]

/-- So the three segments are pairwise disjoint, whatever their sizes. -/
theorem Packed.segments_pairwise (packed : layout.Packed) : layout.segments.Pairwise Segment.Disjoint := by
  have code := packed.code
  have data := packed.data
  have stack := packed.stack
  simp only [segments, codeSegment, dataSegment, stackSegment, List.pairwise_cons, List.mem_cons, List.not_mem_nil,
    Segment.Disjoint, Segment.finish]
  refine ⟨?_, ?_, by simp, .nil⟩
  · rintro other (rfl | rfl | impossible)
    · left
      dsimp only
      omega
    · left
      dsimp only
      omega
    · exact impossible.elim
  · rintro other (rfl | impossible)
    · left
      dsimp only
      omega
    · exact impossible.elim

theorem Packed.codeSegment_eq (packed : layout.Packed) :
    layout.codeSegment = ⟨layout.codeAddress.toNat, layout.codeSize⟩ := by
  rw [codeSegment, packed.codeAddress, packed.code, Nat.add_zero]

theorem Packed.dataSegment_eq (packed : layout.Packed) :
    layout.dataSegment = ⟨layout.dataAddress.toNat, layout.dataSize⟩ := by
  rw [dataSegment, packed.dataAddress, packed.data]

theorem Packed.stackSegment_eq (packed : layout.Packed) :
    layout.stackSegment = ⟨layout.stackAddress.toNat, layout.stackSize⟩ := by
  rw [stackSegment, packed.stackAddress, packed.stack, Nat.add_assoc]

/-- The code lies outside the two segments that instructions write to. -/
theorem Packed.code_not_written (packed : layout.Packed) {k : Nat} (inside : layout.codeSegment.Contains k) :
    ¬ layout.dataSegment.Contains k ∧ ¬ layout.stackSegment.Contains k := by
  have apart := packed.segments_pairwise
  simp only [segments, List.pairwise_cons, List.mem_cons, List.not_mem_nil, or_false] at apart
  exact ⟨(apart.1 _ (Or.inl rfl)).not_contains inside, (apart.1 _ (Or.inr rfl)).not_contains inside⟩

/-- A stack cell is no byte of the data. -/
theorem Packed.stack_not_data (packed : layout.Packed) {k : Nat} (inside : layout.stackSegment.Contains k) :
    ¬ layout.dataSegment.Contains k := by
  have apart := packed.segments_pairwise
  simp only [segments, List.pairwise_cons, List.mem_cons, List.not_mem_nil, or_false] at apart
  exact (apart.2.1 _ rfl).symm.not_contains inside

/-- A program that fits has its segments in its region. -/
theorem Fitting.segment_within_region (fitting : layout.Fitting) {segment : Segment}
    (member : segment ∈ layout.segments) : segment.Within layout.region := by
  have code := fitting.code
  have data := fitting.data
  have stack := fitting.stack
  have room := fitting.room
  simp only [segments, List.mem_cons, List.not_mem_nil, or_false] at member
  rcases member with rfl | rfl | rfl <;>
    simp only [Segment.Within, Segment.finish, region, codeSegment, dataSegment, stackSegment] <;>
    omega

/-- The bytes of a data access that passes the segment check lie in the region. -/
theorem Fitting.data_region (fitting : layout.Fitting) {offset : Address} {count k : Nat}
    (inside : offset.toNat + count ≤ layout.dataSize) (low : (layout.dataAddress + offset).toNat ≤ k)
    (high : k < (layout.dataAddress + offset).toNat + count) : layout.region.Contains k := by
  have address := fitting.toPacked.dataOffsetAddress (Nat.le_trans (Nat.le_add_right _ _) inside)
  have room := fitting.room
  simp only [Segment.Contains, Segment.finish, region]
  omega

end MemoryRegionLayout

end VirtualMachine
