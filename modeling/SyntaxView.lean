import SyntaxView.Session.Run
import SyntaxView.Grammar
import SyntaxView.Datum.Reader
import SyntaxView.Proofs.Preorder
import SyntaxView.Proofs.Walk
import SyntaxView.Proofs.Outline
import SyntaxView.Proofs.Relabel
import SyntaxView.Proofs.AsciiText
import SyntaxView.Proofs.EncodingIndependence
import SyntaxView.Proofs.PredicateReader
import SyntaxView.Proofs.PredicateRoundTrip
import SyntaxView.Proofs.PredicateGrammar
import SyntaxView.Proofs.ByteCuts
import SyntaxView.Proofs.PatternPredicates
import SyntaxView.Proofs.CharacterCodings
import SyntaxView.Proofs.SourceText
import SyntaxView.Proofs.CacheTransparency
import SyntaxView.Proofs.Course
import SyntaxView.Proofs.LiveHandles
import SyntaxView.Proofs.TreeRecords
import SyntaxView.Proofs.PooledParsers
import SyntaxView.Proofs.CacheFaults
import SyntaxView.Proofs.ParsersOnLoan
import SyntaxView.Proofs.CursorRoots
import SyntaxView.Proofs.SettingsDocument
import SyntaxView.Proofs.Descendants
import SyntaxView.Proofs.CommentGaps
import SyntaxView.Proofs.PatternTiling
import SyntaxView.Proofs.NativeOffsets
import SyntaxView.Proofs.OffsetOrder
import SyntaxView.Proofs.TextBytes
import SyntaxView.Proofs.TomlLines
import SyntaxView.Proofs.WrittenSettings
