import I8085.Alu
import I8085.Assembly.Diagnostic
import I8085.Assembly.Encoding
import I8085.Assembly.LabelTable
import I8085.Assembly.Layout
import I8085.Assembly.Listing
import I8085.Assembly.Program
import I8085.Assembly.Selection
import I8085.Assembly.Statement
import I8085.Breakpoints
import I8085.Cpu
import I8085.Directory
import I8085.Flags
import I8085.Instruction
import I8085.Instruction.Decode
import I8085.Label
import I8085.Machine
import I8085.Machine.Action
import I8085.Machine.Command
import I8085.Machine.Execute
import I8085.Machine.Request
import I8085.Machine.Run
import I8085.Machine.Step
import I8085.Memory
import I8085.Mnemonic
import I8085.Numeral
import I8085.Opcode
import I8085.Opcode.Chart
import I8085.Proofs.AccumulatorGroup
import I8085.Proofs.ActionEquations
import I8085.Proofs.ByteLoops
import I8085.Proofs.ChartAgreement
import I8085.Proofs.DataEffects
import I8085.Proofs.DecimalAddition
import I8085.Proofs.DiagnosticPlaces
import I8085.Proofs.DirectoryLookup
import I8085.Proofs.FirstPass
import I8085.Proofs.FlagEffects
import I8085.Proofs.HaltLatch
import I8085.Proofs.JoinedSources
import I8085.Proofs.LabelAddresses
import I8085.Proofs.LabelHistory
import I8085.Proofs.LenientMode
import I8085.Proofs.LineCleaning
import I8085.Proofs.LineEnds
import I8085.Proofs.LineParts
import I8085.Proofs.LineReading
import I8085.Proofs.LineSlices
import I8085.Proofs.LineVariants
import I8085.Proofs.ListingHistory
import I8085.Proofs.MemoryBounds
import I8085.Proofs.MultiByteArithmetic
import I8085.Proofs.MultiByteShifts
import I8085.Proofs.NextAddress
import I8085.Proofs.NumeralGrammar
import I8085.Proofs.NumeralOperands
import I8085.Proofs.NumeralSpelling
import I8085.Proofs.OpcodeSelection
import I8085.Proofs.OperandReadings
import I8085.Proofs.ProgramListing
import I8085.Proofs.ProgramSteps
import I8085.Proofs.Relocation
import I8085.Proofs.RepeatedLabels
import I8085.Proofs.RunIteration
import I8085.Proofs.RunSlices
import I8085.Proofs.SecondPass
import I8085.Proofs.SessionAssembly
import I8085.Proofs.SessionClearing
import I8085.Proofs.SessionHistory
import I8085.Proofs.StackDiscipline
import I8085.Proofs.StatementParsing
import I8085.Proofs.StepEquation
import I8085.Proofs.StepFaults
import I8085.Proofs.StrictReport
import I8085.Proofs.TextSplitting
import I8085.Proofs.WarningOrder
import I8085.Proofs.WriteObservation
import I8085.Proofs.WrittenLine
import I8085.Proofs.WrittenProgram
import I8085.Register
import I8085.Session
import I8085.Session.Question
import I8085.Session.Request
import I8085.Text.Blank
import I8085.Text.Case
import I8085.Text.Hex
import I8085.Text.Lines
import I8085.Text.Piece
import I8085.Word
