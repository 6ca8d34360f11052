import VirtualMachine.Isa.Handlers

namespace VirtualMachine

/-- How a call into the syscall handler ends: it is done, or it invokes the
load callback with a path. The callback changes the whole machine, so it is
left to the caller, which has the machine at hand. -/
inductive SyscallProgress
  | done
  | load (path : List Byte)
  deriving DecidableEq, Repr

namespace SyscallHandler

/-- The loop over at most 256 bytes that builds the path; `count` of them are
still to be read. -/
def readLoadPath (memory : ProcessMemory) (argAddress : Word) : Nat → Nat → Except Exception (List Byte)
  | 0, _ => .ok []
  | count + 1, offset =>
    match memory.readDataByte (argAddress + BitVec.ofNat 32 offset) with
    | .error e => .error e
    | .ok byte =>
      if byte = 0 then .ok []
      else (readLoadPath memory argAddress count (offset + 1)).map (fun path => byte :: path)

def handle (id : Option SyscallId) (argAddress : Word) (ctx : ExecutionContext) :
    Except Exception SyscallProgress × ExecutionContext :=
  match id with
  | some .Print =>
    match ctx.memory.readDataWord argAddress with
    | .error e => (.error e, ctx)
    | .ok value => (.ok .done, { ctx with output := ctx.output ++ [(ctx.process.id, value)] })
  | some .Scan =>
    match ctx.input with
    | [] => (.error (.vmException "syscall scan: failed to read integer from input"), ctx)
    | value :: rest =>
      let ctx := { ctx with input := rest }
      match ctx.memory.writeDataWord argAddress value with
      | .error e => (.error e, ctx)
      | .ok physical => (.ok .done, ctx.withPhysical physical)
  | some .Exit => (.ok .done, { ctx with process := (ctx.process.setState .Halted).setHalted true })
  | some .Yield => (.ok .done, { ctx with process := ctx.process.setShouldYield true })
  | some .Load =>
    match readLoadPath ctx.memory argAddress 256 0 with
    | .error e => (.error e, ctx)
    | .ok path => (.ok (.load path), ctx)
  | none => (.ok .done, ctx)

end SyscallHandler

end VirtualMachine
