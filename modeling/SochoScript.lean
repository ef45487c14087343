import SochoScript.Position
import SochoScript.Text.Blank
import SochoScript.Text.Shapeless
import SochoScript.Text.Quoted
import SochoScript.Number.Binary64
import SochoScript.Number.Decimal
import SochoScript.Number.Shortest
import SochoScript.Number.Layout
import SochoScript.Number.Numeral
import SochoScript.Reserved
import SochoScript.Lowering
import SochoScript.Json
import SochoScript.Token
import SochoScript.Diagnostic
import SochoScript.Token.Lexeme
import SochoScript.Token.Scan
import SochoScript.Program
import SochoScript.Event
import SochoScript.Logged
import SochoScript.Token.Lexer
import SochoScript.Program.Expression
import SochoScript.Program.Block
import SochoScript.Program.Parser
import SochoScript.JavaScript
import SochoScript.Target
import SochoScript.Compilation
import SochoScript.Files.Path
import SochoScript.Files.System
import SochoScript.Files.Tree
import SochoScript.Artifacts
import SochoScript.CommandLine.Arguments
import SochoScript.CommandLine.Run
import SochoScript.Main
import SochoScript.Proofs.Blocks
import SochoScript.Proofs.Readers
import SochoScript.Proofs.Grammar
import SochoScript.Proofs.Munch
import SochoScript.Proofs.Walk
import SochoScript.Proofs.Layout
import SochoScript.Proofs.Numerals
import SochoScript.Proofs.Rereading
import SochoScript.Proofs.Boundaries
import SochoScript.Proofs.Literals
import SochoScript.Proofs.WellFormed
import SochoScript.Proofs.Emission
import SochoScript.Proofs.Places
import SochoScript.Proofs.Relayout
import SochoScript.Proofs.Failures
import SochoScript.Proofs.Resumption
import SochoScript.Proofs.Policies
import SochoScript.Proofs.Concatenation
import SochoScript.Proofs.Templates
import SochoScript.Proofs.Nesting
import SochoScript.Proofs.Fallbacks
import SochoScript.Proofs.Complaints
import SochoScript.Proofs.Continuation
import SochoScript.Proofs.Journal
import SochoScript.Proofs.Files
import SochoScript.Proofs.Subcommands
import SochoScript.Proofs.Documents
import SochoScript.Proofs.Writing
import SochoScript.Proofs.Dumps
import SochoScript.Proofs.Branches
import SochoScript.Proofs.Fragments
import SochoScript.Proofs.Rounding
import SochoScript.Proofs.Numbers
import SochoScript.Proofs.Braces
import SochoScript.Proofs.Directories
import SochoScript.Proofs.Deliveries
