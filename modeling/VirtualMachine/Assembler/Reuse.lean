import VirtualMachine.Assembler.Parser

namespace VirtualMachine

/-- The assembler owns one parser, which keeps its members from call to call. -/
structure Assembler where
  parser : Parser := { lexer := { source := [] } }

namespace Assembler

/-- An exception leaves the members as they are when it is thrown. -/
def assemble (assembler : Assembler) (source : Text) : Except Exception AssembledProgram × Assembler :=
  match assembler.parser.parse source with
  | .ok program parser => (.ok program, { parser := parser })
  | .error e parser => (.error e, { parser := parser })

/-- The results of assembling these sources one after the other. -/
def assembleAll : Assembler → List Text → List (Except Exception AssembledProgram)
  | _, [] => []
  | assembler, source :: rest =>
    (assembler.assemble source).1 :: (assembler.assemble source).2.assembleAll rest

/-- Every member is set before the first pass reads it, and so is what it keeps
of the source and of the code. -/
theorem parse_members (parser other : Parser) (source : Text) : parser.parse source = other.parse source := rfl

theorem assemble_members (assembler other : Assembler) (source : Text) :
    assembler.assemble source = other.assemble source := by
  unfold assemble
  rw [parse_members assembler.parser other.parser]

/-- Whatever an assembler has been through, each of its results is that of a new
one. -/
theorem assembleAll_eq_map (assembler : Assembler) (sources : List Text) :
    assembler.assembleAll sources = sources.map (fun source => (({} : Assembler).assemble source).1) := by
  induction sources generalizing assembler with
  | nil => rfl
  | cons source rest ih =>
    unfold assembleAll
    rw [ih, assemble_members assembler {}]
    rfl

example :
    ({} : Assembler).assembleAll ["CODE:\nhere: jmp nowhere\n".toList, "CODE:\njmp here\n".toList,
      "CODE:\nhalt\n".toList] =
      [.error (.assemblerError 2 "unknown label: nowhere"), .error (.assemblerError 2 "unknown label: here"),
        .ok { code := [encodeInstruction Opcode.HALT.toByte 0 0 0 0] }] := by decide +kernel

end Assembler

end VirtualMachine
