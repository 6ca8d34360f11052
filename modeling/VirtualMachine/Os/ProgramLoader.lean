import VirtualMachine.Memory.ProcessMemory
import VirtualMachine.Assembler.Parser

namespace VirtualMachine

namespace ProgramLoader

/-- The layout `load` computes; the offsets are truncated from `size_t`. -/
def layoutFor (base : Address) (program : AssembledProgram) : MemoryRegionLayout :=
  let codeSize := program.code.length * wordSize
  let dataSize := program.data.length
  { base := base
    codeSize := codeSize
    dataSize := dataSize
    dataOffset := BitVec.ofNat 32 codeSize
    stackOffset := BitVec.ofNat 32 (codeSize + dataSize) }

/-- Whatever has been allocated and written when an exception is thrown stays. -/
def load (physical : PhysicalMemory) (program : AssembledProgram) :
    Except Exception MemoryRegionLayout × PhysicalMemory :=
  match physical.allocateRegion kDefaultProcessMemorySize with
  | .error e => (.error e, physical)
  | .ok (base, physical) =>
    let layout := layoutFor base program
    match (ProcessMemory.mk physical layout).create program.data with
    | .error e => (.error e, physical)
    | .ok physical =>
      match (ProcessMemory.mk physical layout).loadCode program.code with
      | (.error e, physical) => (.error e, physical)
      | (.ok (), physical) => (.ok layout, physical)

end ProgramLoader

end VirtualMachine
