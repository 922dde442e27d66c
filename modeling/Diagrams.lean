import Diagrams.FileTree
import Diagrams.Main
import Diagrams.Proofs.Pattern.Run
import Diagrams.Proofs.Schema.Salvage
import Diagrams.Proofs.Schema.Coherent
import Diagrams.Proofs.Brackets
import Diagrams.Proofs.Schema.Script
import Diagrams.Proofs.Schema.Written
import Diagrams.Proofs.Schema.WrittenText
import Diagrams.Proofs.Schema.Names
import Diagrams.Proofs.Schema.KeyPart
import Diagrams.Proofs.Schema.ColumnPart
import Diagrams.Proofs.Schema.Clauses
import Diagrams.Proofs.Schema.WrittenTable
import Diagrams.Proofs.Schema.RoundTrip
import Diagrams.Proofs.Schema.ListedKey
import Diagrams.Proofs.Er.History
import Diagrams.Proofs.Schema.Insensitive
import Diagrams.Proofs.Schema.KeyPlaces
import Diagrams.Proofs.Schema.Reordered
import Diagrams.Proofs.Schema.Recorded
import Diagrams.Proofs.Schema.Appended
import Diagrams.Proofs.Schema.Recovered
import Diagrams.Proofs.Uml.History
import Diagrams.Proofs.Code.Resolved
import Diagrams.Proofs.Code.RoundTrip
import Diagrams.Proofs.Code.AnnotatedMembers
import Diagrams.Proofs.Registry.History
import Diagrams.Proofs.Schema.Skipped
import Diagrams.Proofs.Code.BlankedBraces
import Diagrams.Proofs.Schema.QuotedOption
import Diagrams.Proofs.Pattern.Padded
import Diagrams.Proofs.Pattern.Spread
import Diagrams.Proofs.Schema.PaddedText
import Diagrams.Proofs.Brackets.Closing
import Diagrams.Proofs.Er.Removed
import Diagrams.Proofs.Schema.BracketedList
import Diagrams.Proofs.Schema.CommentedScript
import Diagrams.Proofs.Schema.Uncommented
import Diagrams.Proofs.Er.Layout
import Diagrams.Proofs.TypeSpelling
import Diagrams.Proofs.Schema.IdentifierList
import Diagrams.Proofs.Code.Typeless
