import Reckon.Code.Builder
import Reckon.Code.Execution
import Reckon.Code.Instr
import Reckon.Code.Module
import Reckon.Code.Native
import Reckon.CommandLine.Options
import Reckon.CommandLine.Transcript
import Reckon.Expr
import Reckon.Form
import Reckon.Generator
import Reckon.Generator.Error
import Reckon.Generator.Lowering
import Reckon.Generator.Signatures
import Reckon.Journal
import Reckon.Main
import Reckon.Number.Binary
import Reckon.Number.Literal
import Reckon.Number.Remainder
import Reckon.Number.Shortest
import Reckon.Number.Text
import Reckon.Parser.Cursor
import Reckon.Parser.Error
import Reckon.Parser.Expression
import Reckon.Parser.Forms
import Reckon.Parser.NextForm
import Reckon.Parser.Operators
import Reckon.Parser.Progress
import Reckon.Parser.Stream
import Reckon.Proofs.Abreast
import Reckon.Proofs.Ahead
import Reckon.Proofs.Anonymous
import Reckon.Proofs.Calls
import Reckon.Proofs.Chains
import Reckon.Proofs.Closing
import Reckon.Proofs.Decoding
import Reckon.Proofs.Delivery
import Reckon.Proofs.Demand
import Reckon.Proofs.Descent
import Reckon.Proofs.Effect
import Reckon.Proofs.Emission
import Reckon.Proofs.Ending
import Reckon.Proofs.Exhaustion
import Reckon.Proofs.Feeding
import Reckon.Proofs.History
import Reckon.Proofs.Items
import Reckon.Proofs.Layout
import Reckon.Proofs.Lexemes
import Reckon.Proofs.Linking
import Reckon.Proofs.Locality
import Reckon.Proofs.Meaning
import Reckon.Proofs.Naming
import Reckon.Proofs.Nesting
import Reckon.Proofs.Oblivious
import Reckon.Proofs.Parsing
import Reckon.Proofs.Phrase
import Reckon.Proofs.Preservation
import Reckon.Proofs.Prompt
import Reckon.Proofs.Reading
import Reckon.Proofs.Recovery
import Reckon.Proofs.Registry
import Reckon.Proofs.Requests
import Reckon.Proofs.Rescaling
import Reckon.Proofs.Scoping
import Reckon.Proofs.Sequel
import Reckon.Proofs.Simulation
import Reckon.Proofs.Viability
import Reckon.Proofs.WellFormed
import Reckon.Proofs.WorkList
import Reckon.Session
import Reckon.Session.Report
import Reckon.Source
import Reckon.Text.Blank
import Reckon.Text.Letter
import Reckon.Text.Numeral
import Reckon.Text.Ranges
import Reckon.Text.Utf8
import Reckon.Token
import Reckon.Token.Lexer
