import TemplateLexer.Main
import TemplateLexer.Session
import TemplateLexer.Tokenizer.Parse
import TemplateLexer.Proofs.Induction
import TemplateLexer.Proofs.Layout
import TemplateLexer.Proofs.Layout.Progress
import TemplateLexer.Proofs.Grammar
import TemplateLexer.Proofs.Coverage
import TemplateLexer.Proofs.Overlooked
import TemplateLexer.Proofs.Splitter
import TemplateLexer.Proofs.Printing
import TemplateLexer.Proofs.Printing.Attributes
import TemplateLexer.Proofs.Printing.Templates
import TemplateLexer.Proofs.Lookahead
import TemplateLexer.Proofs.Mapping
import TemplateLexer.Proofs.Concatenation
import TemplateLexer.Proofs.Seam
import TemplateLexer.Proofs.Lexeme
import TemplateLexer.Proofs.Shape
import TemplateLexer.Scan.Checked
import TemplateLexer.Proofs.Safety
import TemplateLexer.Proofs.Order
import TemplateLexer.Proofs.Content
import TemplateLexer.Proofs.Inert
import TemplateLexer.Proofs.Rendering
import TemplateLexer.Proofs.Rendering.Portable
import TemplateLexer.Proofs.Rendering.Rereading
import TemplateLexer.Proofs.Rendering.Names
import TemplateLexer.Proofs.Rendering.Canonical
import TemplateLexer.Proofs.Classes
import TemplateLexer.Proofs.Reuse
import TemplateLexer.Proofs.Report.Written
import TemplateLexer.Proofs.Report.Columns
import TemplateLexer.Proofs.Report.Objects
import TemplateLexer.Proofs.Report.Lossless
import TemplateLexer.Proofs.Consistency
import TemplateLexer.Proofs.Work
import TemplateLexer.Proofs.GivenMarkers
import TemplateLexer.Proofs.Spelling
import TemplateLexer.Proofs.Spelling.Progress
import TemplateLexer.Proofs.Spaces
import TemplateLexer.Proofs.AtRest
