import SegAsm.Assume
import SegAsm.Code
import SegAsm.CommandLine
import SegAsm.Decode
import SegAsm.Diagnostic
import SegAsm.Encode
import SegAsm.Files
import SegAsm.Form
import SegAsm.Grader.Assignment
import SegAsm.Grader.Compare
import SegAsm.Grader.Grade
import SegAsm.Grader.Report
import SegAsm.Hover
import SegAsm.Json
import SegAsm.Json.Parse
import SegAsm.Json.Print
import SegAsm.Json.Read
import SegAsm.Layout
import SegAsm.Lexeme
import SegAsm.Lexeme.Constant
import SegAsm.Lexeme.Scan
import SegAsm.Listing.Header
import SegAsm.Listing.Options
import SegAsm.Listing.Render
import SegAsm.Main
import SegAsm.Path
import SegAsm.Program
import SegAsm.Proofs.Alike
import SegAsm.Proofs.Append
import SegAsm.Proofs.AssumeLine
import SegAsm.Proofs.Assumptions
import SegAsm.Proofs.Brackets
import SegAsm.Proofs.Code
import SegAsm.Proofs.Constant
import SegAsm.Proofs.Decode
import SegAsm.Proofs.Diagnostic
import SegAsm.Proofs.ErrorLines
import SegAsm.Proofs.FirstPass
import SegAsm.Proofs.Form
import SegAsm.Proofs.Grader.Accepted
import SegAsm.Proofs.Grader.Scores
import SegAsm.Proofs.Hover
import SegAsm.Proofs.Immediate
import SegAsm.Proofs.Jump
import SegAsm.Proofs.Layout
import SegAsm.Proofs.Layout.Content
import SegAsm.Proofs.Layout.Stable
import SegAsm.Proofs.Layout.Tidy
import SegAsm.Proofs.LetterCase
import SegAsm.Proofs.Letters
import SegAsm.Proofs.Lexeme.Lookup
import SegAsm.Proofs.Lexeme.Number
import SegAsm.Proofs.Lexeme.Numeral
import SegAsm.Proofs.Lexeme.Pattern
import SegAsm.Proofs.Lexeme.Place
import SegAsm.Proofs.Lexeme.Texts
import SegAsm.Proofs.Lexeme.Token
import SegAsm.Proofs.Lexeme.Tokenization
import SegAsm.Proofs.Listing.CodeText
import SegAsm.Proofs.Listing.ErrorRows
import SegAsm.Proofs.Listing.Lines
import SegAsm.Proofs.MemoryAccess
import SegAsm.Proofs.Names
import SegAsm.Proofs.Operands
import SegAsm.Proofs.Range
import SegAsm.Proofs.Raw
import SegAsm.Proofs.Reading
import SegAsm.Proofs.Reformat
import SegAsm.Proofs.RegisterPair
import SegAsm.Proofs.SecondPass
import SegAsm.Proofs.SegmentUse
import SegAsm.Proofs.Server.Documents
import SegAsm.Proofs.Server.Editor
import SegAsm.Proofs.Server.Topic
import SegAsm.Proofs.Simulation
import SegAsm.Proofs.Spelling
import SegAsm.Proofs.Symbol.Declared
import SegAsm.Proofs.Symbol.Indexed
import SegAsm.Proofs.Template
import SegAsm.Proofs.Text.Blank
import SegAsm.Proofs.Text.Bytes
import SegAsm.Proofs.Text.Fold
import SegAsm.Proofs.Text.LineEnds
import SegAsm.Proofs.Text.Lines
import SegAsm.Proofs.Text.Replace
import SegAsm.Proofs.Text.Words
import SegAsm.Proofs.Tiling
import SegAsm.Raw
import SegAsm.Register
import SegAsm.Server.Framing
import SegAsm.Server.Message
import SegAsm.Server.Params
import SegAsm.Server.Session
import SegAsm.Settings
import SegAsm.Statement
import SegAsm.Symbol
import SegAsm.Symbol.Indexed
import SegAsm.Text.Blank
import SegAsm.Text.Bytes
import SegAsm.Text.Fold
import SegAsm.Text.Lines
import SegAsm.Text.Number
import SegAsm.Text.Printable
import SegAsm.Text.Quoted
import SegAsm.Text.Replace
import SegAsm.Text.Upper
import SegAsm.WebView.Page
import SegAsm.WebView.Session
