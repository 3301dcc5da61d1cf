import HackVM.Asm.Line
import HackVM.Asm.Listing
import HackVM.Code.Arithmetic
import HackVM.Code.Function
import HackVM.Code.Stack
import HackVM.Command
import HackVM.Command.Reading
import HackVM.CommandLine.Options
import HackVM.CommandLine.Request
import HackVM.CommandLine.Run
import HackVM.Diagnostic
import HackVM.Emitter
import HackVM.Emitter.Command
import HackVM.Emitter.Files
import HackVM.Fault
import HackVM.Files.Path
import HackVM.Files.Tree
import HackVM.Hack.Assembly
import HackVM.Hack.Machine
import HackVM.Main
import HackVM.Proofs.ArgumentReading
import HackVM.Proofs.AssemblyText
import HackVM.Proofs.BlockEffect
import HackVM.Proofs.BlockExecution
import HackVM.Proofs.BlockSymbols
import HackVM.Proofs.CallFrames
import HackVM.Proofs.CallNesting
import HackVM.Proofs.CommandEffect
import HackVM.Proofs.CommandEnding
import HackVM.Proofs.CommandReading
import HackVM.Proofs.ComparisonCode
import HackVM.Proofs.ComparisonFootprint
import HackVM.Proofs.DeclaredNames
import HackVM.Proofs.DirectoryOrder
import HackVM.Proofs.FailedOperations
import HackVM.Proofs.FirstRefusal
import HackVM.Proofs.Formatting
import HackVM.Proofs.GeneratedLabels
import HackVM.Proofs.InstructionChecks
import HackVM.Proofs.InstructionGrammar
import HackVM.Proofs.LabelScopes
import HackVM.Proofs.Layout
import HackVM.Proofs.LineEnds
import HackVM.Proofs.LineValidity
import HackVM.Proofs.NumberedLines
import HackVM.Proofs.NumericAddresses
import HackVM.Proofs.PathText
import HackVM.Proofs.PlainReading
import HackVM.Proofs.PrintedInstructions
import HackVM.Proofs.PushPop
import HackVM.Proofs.Renumbering
import HackVM.Proofs.Session
import HackVM.Proofs.SharedListing
import HackVM.Proofs.Simulation
import HackVM.Proofs.SourceFiles
import HackVM.Proofs.SourceMachine
import HackVM.Proofs.SourceWords
import HackVM.Proofs.StackMachine
import HackVM.Proofs.StaticCells
import HackVM.Proofs.StraightLine
import HackVM.Proofs.SymbolText
import HackVM.Proofs.TextEncoding
import HackVM.Proofs.TextPatterns
import HackVM.Proofs.Transcript
import HackVM.Proofs.TreeChanges
import HackVM.Proofs.WriterStore
import HackVM.Scope
import HackVM.Segment
import HackVM.Source.Instruction
import HackVM.Source.Lexeme
import HackVM.Source.Reading
import HackVM.Symbol
import HackVM.Text.DecimalDigit
import HackVM.Text.Lines
import HackVM.Text.Numeral
import HackVM.Text.Printable
import HackVM.Text.Quoted
import HackVM.Text.Utf8
import HackVM.Workbench
