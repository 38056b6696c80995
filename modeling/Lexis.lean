import Lexis.Arguments
import Lexis.Batch
import Lexis.Byte
import Lexis.CommandLine
import Lexis.Cursor
import Lexis.Cursor.Call
import Lexis.Diagnostic
import Lexis.Elapsed
import Lexis.FileTree
import Lexis.Head
import Lexis.Interner
import Lexis.Interner.Call
import Lexis.Interner.Handles
import Lexis.Lexeme
import Lexis.LexicalError
import Lexis.Line
import Lexis.Listing
import Lexis.Literal
import Lexis.Main
import Lexis.Position
import Lexis.Proofs.Aliasing
import Lexis.Proofs.Carets
import Lexis.Proofs.Checking
import Lexis.Proofs.CleanText
import Lexis.Proofs.Composition
import Lexis.Proofs.Continuation
import Lexis.Proofs.Contracts
import Lexis.Proofs.Faultless
import Lexis.Proofs.Faults
import Lexis.Proofs.Identifiers
import Lexis.Proofs.Interning
import Lexis.Proofs.LineByLine
import Lexis.Proofs.Lines
import Lexis.Proofs.Listings
import Lexis.Proofs.LongestMatch
import Lexis.Proofs.Lookahead
import Lexis.Proofs.Naming
import Lexis.Proofs.Offsets
import Lexis.Proofs.Passage
import Lexis.Proofs.Pieces
import Lexis.Proofs.PlainText
import Lexis.Proofs.Pointers
import Lexis.Proofs.Presentation
import Lexis.Proofs.Pulls
import Lexis.Proofs.Quoting
import Lexis.Proofs.Ranges
import Lexis.Proofs.ReadBack
import Lexis.Proofs.Rebuilding
import Lexis.Proofs.Recount
import Lexis.Proofs.Replaying
import Lexis.Proofs.Reports
import Lexis.Proofs.Requests
import Lexis.Proofs.Respacing
import Lexis.Proofs.Responses
import Lexis.Proofs.Sharing
import Lexis.Proofs.Showing
import Lexis.Proofs.Spelling
import Lexis.Proofs.Streams
import Lexis.Proofs.Tiling
import Lexis.Proofs.Trivia
import Lexis.Proofs.Unambiguous
import Lexis.Proofs.Vocabulary
import Lexis.Proofs.Words
import Lexis.Scanner
import Lexis.Source
import Lexis.Symbol
import Lexis.Terminal
import Lexis.Text.Escaped
import Lexis.Text.Printable
import Lexis.Text.Quoted
import Lexis.Text.Utf8
import Lexis.Token
import Lexis.Vocabulary.Keyword
import Lexis.Vocabulary.Kind
import Lexis.Vocabulary.Punctuation
