import GrammarCheck.Console.Styled
import GrammarCheck.Document.Basic
import GrammarCheck.Document.Words
import GrammarCheck.EditDistance
import GrammarCheck.Grammar.Basic
import GrammarCheck.Grammar.Colour
import GrammarCheck.Grammar.Comparison
import GrammarCheck.Grammar.Draft
import GrammarCheck.Grammar.Expr
import GrammarCheck.Grammar.File
import GrammarCheck.Grammar.Parsing.Basic
import GrammarCheck.Grammar.Parsing.Entries
import GrammarCheck.Grammar.Parsing.Expr
import GrammarCheck.Grammar.Parsing.Parser
import GrammarCheck.Grammar.Printer
import GrammarCheck.Notation.Fault
import GrammarCheck.Notation.Lexeme
import GrammarCheck.Notation.Lexer
import GrammarCheck.Notation.Reading
import GrammarCheck.Notation.Token
import GrammarCheck.Proofs.Document.FoundBlocks
import GrammarCheck.Proofs.Document.WellFormed
import GrammarCheck.Proofs.EditDistance.Alignment
import GrammarCheck.Proofs.EditDistance.ClosestRange
import GrammarCheck.Proofs.EditDistance.Distance
import GrammarCheck.Proofs.EditDistance.Metric
import GrammarCheck.Proofs.EditDistance.Table
import GrammarCheck.Proofs.Grammar.Alike
import GrammarCheck.Proofs.Grammar.Canonical
import GrammarCheck.Proofs.Grammar.ColouredLines
import GrammarCheck.Proofs.Grammar.ColouredReading
import GrammarCheck.Proofs.Grammar.ColouredSymbols
import GrammarCheck.Proofs.Grammar.ColouredText
import GrammarCheck.Proofs.Grammar.Comments
import GrammarCheck.Proofs.Grammar.Comparison
import GrammarCheck.Proofs.Grammar.Concatenation
import GrammarCheck.Proofs.Grammar.Differences
import GrammarCheck.Proofs.Grammar.ErrorPlaces
import GrammarCheck.Proofs.Grammar.Headings
import GrammarCheck.Proofs.Grammar.Lines
import GrammarCheck.Proofs.Grammar.NewlineStyle
import GrammarCheck.Proofs.Grammar.Nodes
import GrammarCheck.Proofs.Grammar.NormalForm
import GrammarCheck.Proofs.Grammar.Parsed
import GrammarCheck.Proofs.Grammar.Printed
import GrammarCheck.Proofs.Grammar.PrintedGrammar
import GrammarCheck.Proofs.Grammar.PrintedTwice
import GrammarCheck.Proofs.Grammar.ReadBack
import GrammarCheck.Proofs.Grammar.ReadLines
import GrammarCheck.Proofs.Grammar.Refused
import GrammarCheck.Proofs.Grammar.Rendered
import GrammarCheck.Proofs.Grammar.Reread
import GrammarCheck.Proofs.Grammar.RoundTrip
import GrammarCheck.Proofs.Grammar.Spacing
import GrammarCheck.Proofs.Grammar.Stable
import GrammarCheck.Proofs.Grammar.Steady
import GrammarCheck.Proofs.Grammar.Symbols
import GrammarCheck.Proofs.Grammar.Untrimmed
import GrammarCheck.Proofs.Grammar.WellFormed
import GrammarCheck.Proofs.Notation.BlankBehind
import GrammarCheck.Proofs.Notation.Escapes
import GrammarCheck.Proofs.Notation.Faults
import GrammarCheck.Proofs.Notation.Gist
import GrammarCheck.Proofs.Notation.GistWords
import GrammarCheck.Proofs.Notation.Lexed
import GrammarCheck.Proofs.Notation.LineEnds
import GrammarCheck.Proofs.Notation.Places
import GrammarCheck.Proofs.Notation.Scanned
import GrammarCheck.Proofs.Notation.Sessions
import GrammarCheck.Proofs.Notation.SoundTokens
import GrammarCheck.Proofs.Notation.Spells
import GrammarCheck.Proofs.Notation.Tiling
import GrammarCheck.Proofs.Notation.Tokenized
import GrammarCheck.Proofs.Notation.UnifiedLineEnds
import GrammarCheck.Proofs.Parsing.Acceptance
import GrammarCheck.Proofs.Parsing.Ahead
import GrammarCheck.Proofs.Parsing.Appended
import GrammarCheck.Proofs.Parsing.Completeness
import GrammarCheck.Proofs.Parsing.Derivation
import GrammarCheck.Proofs.Parsing.Operands
import GrammarCheck.Proofs.Parsing.Reads
import GrammarCheck.Proofs.Parsing.ReadsEntries
import GrammarCheck.Proofs.Parsing.Refusals
import GrammarCheck.Proofs.Parsing.Respelled
import GrammarCheck.Proofs.Parsing.RespelledEntries
import GrammarCheck.Proofs.Parsing.Respelling
import GrammarCheck.Proofs.Parsing.Sessions
import GrammarCheck.Proofs.Parsing.Soundness
import GrammarCheck.Proofs.Report.Location
import GrammarCheck.Proofs.Report.Marker
import GrammarCheck.Proofs.Spec.Attribution
import GrammarCheck.Proofs.Spec.Bookmarks
import GrammarCheck.Proofs.Spec.Definitions
import GrammarCheck.Proofs.Spec.Gathering
import GrammarCheck.Proofs.Spec.Isolation
import GrammarCheck.Proofs.Spec.Numbering
import GrammarCheck.Proofs.Spec.Problems
import GrammarCheck.Proofs.Spec.Reading
import GrammarCheck.Proofs.Spec.Report
import GrammarCheck.Proofs.Spec.Steps
import GrammarCheck.Proofs.Text.Coordinates
import GrammarCheck.Proofs.Text.Fences
import GrammarCheck.Proofs.Text.FirstClosest
import GrammarCheck.Proofs.Text.FoundWords
import GrammarCheck.Proofs.Text.LineCol
import GrammarCheck.Proofs.Text.LineSlices
import GrammarCheck.Proofs.Text.LineStarts
import GrammarCheck.Proofs.Text.Lookup
import GrammarCheck.Proofs.Text.Paragraphs
import GrammarCheck.Proofs.Text.Pieces
import GrammarCheck.Proofs.Text.Ranges
import GrammarCheck.Proofs.Text.Sections
import GrammarCheck.Proofs.Text.SourceLine
import GrammarCheck.Proofs.Text.Terminators
import GrammarCheck.Proofs.Text.Trim
import GrammarCheck.Proofs.Text.UnifiedLineEnds
import GrammarCheck.Proofs.Text.Units
import GrammarCheck.Proofs.Text.Words
import GrammarCheck.Report.Diagnostic
import GrammarCheck.Report.Location
import GrammarCheck.Report.Problem
import GrammarCheck.Settings.File
import GrammarCheck.Spec.Basic
import GrammarCheck.Spec.Check
import GrammarCheck.Spec.Reader
import GrammarCheck.Spec.Session
import GrammarCheck.Text.Basic
import GrammarCheck.Text.Column
import GrammarCheck.Text.Fence
import GrammarCheck.Text.LineCache
import GrammarCheck.Text.Printable
import GrammarCheck.Text.Search
import GrammarCheck.Text.Units
import GrammarCheck.Toml.Lexical
import GrammarCheck.Toml.Reader
import GrammarCheck.Toml.Scalar
import GrammarCheck.Toml.Value
