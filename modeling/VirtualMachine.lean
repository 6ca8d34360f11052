import VirtualMachine.Library.LittleEndian
import VirtualMachine.Library.TransitionSystem
import VirtualMachine.Memory.Layout
import VirtualMachine.Isa.Encoding
import VirtualMachine.Isa.Branching
import VirtualMachine.Os.LoadedImage
import VirtualMachine.Isa.Effect
import VirtualMachine.Cpu.RegisterFile
import VirtualMachine.Machine
import VirtualMachine.Assembler.Parser
import VirtualMachine.LoadSequence
import VirtualMachine.Cpu.InstructionFrame
import VirtualMachine.FetchSafety
import VirtualMachine.Cpu.InstructionOutcome
import VirtualMachine.FaultContainment
import VirtualMachine.Cpu.CoreMove
import VirtualMachine.MachineMove
import VirtualMachine.MutualExclusion
import VirtualMachine.Os.Execution
import VirtualMachine.Os.Stepping
import VirtualMachine.Os.Numbering
import VirtualMachine.Os.RunningFlags
import VirtualMachine.NoStranding
import VirtualMachine.Os.Separation
import VirtualMachine.Cpu.SameView
import VirtualMachine.Os.StepCalls
import VirtualMachine.HaltingFinal
import VirtualMachine.Os.Alone
import VirtualMachine.ScheduleIndependence
import VirtualMachine.Os.Placement
import VirtualMachine.WriteConfinement
import VirtualMachine.Library.StackMoves
import VirtualMachine.Library.Sums
import VirtualMachine.StackDiscipline
import VirtualMachine.Library.Fifo
import VirtualMachine.Os.ReadyQueue
import VirtualMachine.SchedulerSystem
import VirtualMachine.Shutdown
import VirtualMachine.Restart
import VirtualMachine.Library.ErrorState
import VirtualMachine.Assembler.TokenStream
import VirtualMachine.Assembler.Syntax
import VirtualMachine.Assembler.Assembly
import VirtualMachine.Assembler.Grammar
import VirtualMachine.Assembler.Conversion
import VirtualMachine.Assembler.Lines
import VirtualMachine.Assembler.TokenParsing
import VirtualMachine.Assembler.InstructionParsing
import VirtualMachine.Assembler.ProgramParsing
import VirtualMachine.Library.PartialFold
import VirtualMachine.Assembler.Translation
import VirtualMachine.Assembler.Spelling
import VirtualMachine.Assembler.Rendering
import VirtualMachine.Assembler.Documented
import VirtualMachine.Isa.Immediate
import VirtualMachine.Assembler.DataAddressing
import VirtualMachine.Isa.Operation
import VirtualMachine.Assembler.Operands
import VirtualMachine.Assembler.BranchTargets
import VirtualMachine.Assembler.LabelMeaning
import VirtualMachine.Assembler.Passes
import VirtualMachine.Assembler.DataImage
import VirtualMachine.Assembler.SectionOrder
import VirtualMachine.Assembler.SymbolSeparation
import VirtualMachine.Assembler.Rejections
import VirtualMachine.Os.ImageContents
import VirtualMachine.Os.FailedLoad
import VirtualMachine.Os.SpilledImage
import VirtualMachine.Atomicity
import VirtualMachine.StackLimits
import VirtualMachine.Assembler.Reuse
import VirtualMachine.Assembler.Progress
import VirtualMachine.Assembler.Scanning
import VirtualMachine.Assembler.Backtracking
import VirtualMachine.Assembler.Newlines
import VirtualMachine.Assembler.Layout
import VirtualMachine.Library.WriteHistory
import VirtualMachine.Memory.MemoryCalls
import VirtualMachine.Isa.SubtractionFlags
import VirtualMachine.Os.LoadPath
import VirtualMachine.Cpu.TimeSlice
import VirtualMachine.Os.Metering
import VirtualMachine.QuantumAccounting
import VirtualMachine.Isa.Command
import VirtualMachine.Cpu.Realization
import VirtualMachine.Library.LockStep
import VirtualMachine.Isa.CommandRun
import VirtualMachine.Os.ProcessRefinement
import VirtualMachine.Os.FreshProcess
import VirtualMachine.Assembler.Meaning
import VirtualMachine.ProgramExecution
import VirtualMachine.Os.Remaining
import VirtualMachine.NoDeadlock
import VirtualMachine.RunTermination
import VirtualMachine.Library.ConditionVariable
import VirtualMachine.Monitors
import VirtualMachine.LostWakeups
import VirtualMachine.MonitoredRun
import VirtualMachine.StepSession
