import RegexMachine.Text.Lines
import RegexMachine.Text.Numeral
import RegexMachine.Text.Offset
import RegexMachine.Text.Range
import RegexMachine.Text.DefaultIgnorable
import RegexMachine.Text.GraphemeExtend
import RegexMachine.Text.Unprintable
import RegexMachine.Text.Quoted
import RegexMachine.Pattern.Token
import RegexMachine.Pattern.Expr
import RegexMachine.Pattern.Fault
import RegexMachine.Pattern.Lexer
import RegexMachine.Pattern.Parser
import RegexMachine.Program.Instruction
import RegexMachine.Program.Violation
import RegexMachine.Program.Word
import RegexMachine.Program.Basic
import RegexMachine.Program.Draft
import RegexMachine.Program.Assembly
import RegexMachine.Machine.Thread
import RegexMachine.Machine.Captures
import RegexMachine.Machine.Run
import RegexMachine.Regex
import RegexMachine.Source.Module
import RegexMachine.Source.Name
import RegexMachine.Command.Arguments
import RegexMachine.Command.System
import RegexMachine.Command.Folder
import RegexMachine.Command.Generate
import RegexMachine.Main
import RegexMachine.Proofs.Assembly.Layout
import RegexMachine.Proofs.Assembly.Patch
import RegexMachine.Proofs.Assembly.Resolve
import RegexMachine.Proofs.Assembly.Defects
import RegexMachine.Proofs.Assembly.Placement
import RegexMachine.Proofs.Assembly.Slots
import RegexMachine.Proofs.Assembly.Along
import RegexMachine.Proofs.Assembly.Holes
import RegexMachine.Proofs.Assembly.Words
import RegexMachine.Proofs.Assembly.Reports
import RegexMachine.Proofs.Assembly.Room
import RegexMachine.Proofs.Run.Path
import RegexMachine.Proofs.Run.Preferred
import RegexMachine.Proofs.Run.Follow
import RegexMachine.Proofs.Run.Lockstep
import RegexMachine.Proofs.Run.Captures
import RegexMachine.Proofs.Run.Bypass
import RegexMachine.Proofs.Run.Doubling
import RegexMachine.Proofs.Run.Guarded
import RegexMachine.Proofs.Run.Reuse
import RegexMachine.Proofs.Run.Search
import RegexMachine.Proofs.Run.Stages
import RegexMachine.Proofs.Run.Truncation
import RegexMachine.Proofs.Run.Twins
import RegexMachine.Proofs.Run.Closure
import RegexMachine.Proofs.Run.Relay
import RegexMachine.Proofs.Run.Rotation
import RegexMachine.Proofs.Expr.Context
import RegexMachine.Proofs.Expr.Evaluation
import RegexMachine.Proofs.Expr.Groups
import RegexMachine.Proofs.Expr.Language
import RegexMachine.Proofs.Expr.Relocation
import RegexMachine.Proofs.Expr.Backtrack
import RegexMachine.Proofs.Expr.Recognition
import RegexMachine.Proofs.Expr.Renumbering
import RegexMachine.Proofs.Expr.FirstMatch
import RegexMachine.Proofs.Expr.Sliding
import RegexMachine.Proofs.Expr.Threads
import RegexMachine.Proofs.Expr.Home
import RegexMachine.Proofs.Expr.Reads
import RegexMachine.Proofs.Expr.OptionalPlus
import RegexMachine.Proofs.Expr.Regrouping
import RegexMachine.Proofs.Expr.Runs
import RegexMachine.Proofs.Expr.Wrapping
import RegexMachine.Proofs.Pattern.Grammar
import RegexMachine.Proofs.Pattern.Tiling
import RegexMachine.Proofs.Pattern.Canonical
import RegexMachine.Proofs.Pattern.Reading
import RegexMachine.Proofs.Pattern.Derivation
import RegexMachine.Proofs.Pattern.Sites
import RegexMachine.Proofs.Pattern.Acceptance
import RegexMachine.Proofs.Pattern.Compilation
import RegexMachine.Proofs.Pattern.Session
import RegexMachine.Proofs.Pattern.Captures
import RegexMachine.Proofs.Pattern.Culprit
import RegexMachine.Proofs.Pattern.Printing
import RegexMachine.Proofs.Pattern.Finality
import RegexMachine.Proofs.Pattern.Joining
import RegexMachine.Proofs.Pattern.Truncation
import RegexMachine.Proofs.Pattern.Escaping
import RegexMachine.Proofs.Pattern.Wrapping
import RegexMachine.Proofs.Source.Reading
import RegexMachine.Proofs.Source.Lines
import RegexMachine.Proofs.Source.Disassembly
import RegexMachine.Proofs.Source.Header
import RegexMachine.Proofs.Source.Paths
import RegexMachine.Proofs.Source.RoundTrip
import RegexMachine.Proofs.Source.Reserved
import RegexMachine.Proofs.Command.Effects
