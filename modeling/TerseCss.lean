import TerseCss.Text.Basic
import TerseCss.Text.Blank
import TerseCss.Text.Bracket
import TerseCss.OrderedMap
import TerseCss.Name
import TerseCss.Abbreviation
import TerseCss.Pseudo
import TerseCss.Value.Basic
import TerseCss.Value.Reference
import TerseCss.Theme
import TerseCss.Declaration
import TerseCss.Error
import TerseCss.Attempt
import TerseCss.Style.Basic
import TerseCss.Line.Basic
import TerseCss.Line.Group
import TerseCss.Line.Condition
import TerseCss.Line.Write
import TerseCss.Source.Trivia
import TerseCss.Source.Lexeme
import TerseCss.Source.Item
import TerseCss.Template
import TerseCss.ClassBody
import TerseCss.ConstBody
import TerseCss.Style.Merge
import TerseCss.Style.Resolve
import TerseCss.Style.Rules
import TerseCss.Sink
import TerseCss.CompiledClass
import TerseCss.Session.Basic
import TerseCss.Session.Sheet
import TerseCss.Session.Host
import TerseCss.Proofs.Texts
import TerseCss.Proofs.Outcome
import TerseCss.Proofs.SourceErrors
import TerseCss.Proofs.OrderedMaps
import TerseCss.Proofs.Style.Groups
import TerseCss.Proofs.Style.Writing
import TerseCss.Proofs.Style.Lines
import TerseCss.Proofs.Style.Placeholders
import TerseCss.Proofs.Style.RuntimeVars
import TerseCss.Proofs.Style.Nested
import TerseCss.Proofs.Style.Substitution
import TerseCss.Proofs.Style.Mixing
import TerseCss.Proofs.Style.WellFormed
import TerseCss.Proofs.Style.Flatness
import TerseCss.Proofs.Style.LastWrites
import TerseCss.Proofs.Session.Standalone
import TerseCss.Proofs.Session.FailedCalls
import TerseCss.Proofs.Session.Modes
import TerseCss.Proofs.Session.Runs
import TerseCss.Proofs.Session.Declared
import TerseCss.Proofs.Session.Delivery
import TerseCss.Proofs.Session.Variables
import TerseCss.Proofs.Source.Blocks
import TerseCss.Proofs.Source.Reading
import TerseCss.Proofs.Source.Templates
import TerseCss.Proofs.Source.Captures
import TerseCss.Proofs.Source.Quotes
import TerseCss.Proofs.Session.Quoting
import TerseCss.Proofs.Source.Forms
import TerseCss.Proofs.Source.PlainLines
import TerseCss.Proofs.Session.PlainClasses
import TerseCss.Proofs.Source.Spans
import TerseCss.Proofs.Source.LineEndings
import TerseCss.Proofs.Session.LineEndings
import TerseCss.Proofs.Source.Tokens
import TerseCss.Proofs.Source.Bodies
import TerseCss.Proofs.Style.Accounts
import TerseCss.Proofs.References
import TerseCss.Proofs.Style.Content
import TerseCss.Proofs.Style.UnknownNames
import TerseCss.Proofs.Name.Hashing
import TerseCss.Proofs.Name.Identifiers
import TerseCss.Proofs.Name.Separation
import TerseCss.Proofs.Style.Emptiness
import TerseCss.Proofs.Style.Frames
import TerseCss.Proofs.Session.Binds
