import GroovyFindings.Analysis.Basic
import GroovyFindings.CommandLine.Basic
import GroovyFindings.CommandLine.Parse
import GroovyFindings.Disk.Basic
import GroovyFindings.Disk.Edit
import GroovyFindings.Disk.Fault
import GroovyFindings.Disk.Resolve
import GroovyFindings.Failure
import GroovyFindings.Glob.Pattern
import GroovyFindings.Glob.Walk
import GroovyFindings.Issue.Basic
import GroovyFindings.Issue.Tally
import GroovyFindings.Json.Value
import GroovyFindings.Linter.Command
import GroovyFindings.Linter.Completion
import GroovyFindings.Linter.Launch
import GroovyFindings.Linter.Scope
import GroovyFindings.Linter.Status
import GroovyFindings.Main
import GroovyFindings.Path.Basic
import GroovyFindings.Path.Relative
import GroovyFindings.Program
import GroovyFindings.Rendering.Basic
import GroovyFindings.Rendering.Human
import GroovyFindings.Report.File
import GroovyFindings.Report.Reader
import GroovyFindings.Report.Scope
import GroovyFindings.Report.Violation
import GroovyFindings.Rule.Active
import GroovyFindings.Rule.Export
import GroovyFindings.Rule.Params
import GroovyFindings.Rule.Profile
import GroovyFindings.Rule.Severity
import GroovyFindings.Settings.Effective
import GroovyFindings.Settings.File
import GroovyFindings.Settings.Root
import GroovyFindings.Shell.Command
import GroovyFindings.Shell.Condition
import GroovyFindings.Shell.Escape
import GroovyFindings.Shell.Expansion
import GroovyFindings.Shell.Format
import GroovyFindings.Shell.Machine
import GroovyFindings.Shell.Pattern
import GroovyFindings.Shell.Run
import GroovyFindings.Shell.State
import GroovyFindings.Shell.Token
import GroovyFindings.Shell.Tool
import GroovyFindings.Shell.Word
import GroovyFindings.Source.File
import GroovyFindings.Source.Match
import GroovyFindings.Source.Scan
import GroovyFindings.Source.Suffix
import GroovyFindings.Text.Affix
import GroovyFindings.Text.Blank
import GroovyFindings.Text.Decimal
import GroovyFindings.Text.Digit
import GroovyFindings.Text.Order
import GroovyFindings.Text.Printable
import GroovyFindings.Text.Quoted
import GroovyFindings.Text.Style
import GroovyFindings.Text.Utf8
import GroovyFindings.Toml.Decode
import GroovyFindings.Toml.Document
import GroovyFindings.Toml.Lexeme
import GroovyFindings.Toml.Scalar
import GroovyFindings.Toml.Table
import GroovyFindings.Toml.Value
import GroovyFindings.Xml.Error
import GroovyFindings.Xml.Event
import GroovyFindings.Xml.Outline
import GroovyFindings.Xml.Reference
import GroovyFindings.Xml.Tag
import GroovyFindings.Yaml.Cursor
import GroovyFindings.Yaml.Decode
import GroovyFindings.Yaml.Node
import GroovyFindings.Yaml.Scalar
import GroovyFindings.Yaml.Token
import GroovyFindings.Proofs.Xml.Markup
import GroovyFindings.Proofs.Xml.Stretch
import GroovyFindings.Proofs.Xml.Content
import GroovyFindings.Proofs.Report.Run
import GroovyFindings.Proofs.Report.Walk
import GroovyFindings.Proofs.Report.Truncation
import GroovyFindings.Proofs.Text.Utf8
import GroovyFindings.Proofs.Xml.Text
import GroovyFindings.Proofs.Report.Concatenation
import GroovyFindings.Proofs.Text.Decimal
import GroovyFindings.Proofs.Xml.Attribute
import GroovyFindings.Proofs.Report.Written
import GroovyFindings.Proofs.Issue.Ledger
import GroovyFindings.Proofs.Path.Components
import GroovyFindings.Proofs.Path.Child
import GroovyFindings.Proofs.Path.Relative
import GroovyFindings.Proofs.Disk.Enters
import GroovyFindings.Proofs.Disk.Entry
import GroovyFindings.Proofs.Disk.Kind
import GroovyFindings.Proofs.Analysis.Course
import GroovyFindings.Proofs.Analysis.Leftover
import GroovyFindings.Proofs.Analysis.Session
import GroovyFindings.Proofs.Linter.Ancestor
import GroovyFindings.Proofs.Glob.Descent
import GroovyFindings.Proofs.Source.Tracked
import GroovyFindings.Proofs.Source.Match
import GroovyFindings.Proofs.Source.Below
import GroovyFindings.Proofs.Linter.Scope
import GroovyFindings.Proofs.Source.Order
import GroovyFindings.Proofs.Xml.Element
import GroovyFindings.Proofs.Xml.Outline
import GroovyFindings.Proofs.Rule.Export
import GroovyFindings.Proofs.Glob.Reach
import GroovyFindings.Proofs.Glob.Literal
import GroovyFindings.Proofs.Source.Complete
import GroovyFindings.Proofs.Source.Found
import GroovyFindings.Proofs.Source.Meaning
import GroovyFindings.Proofs.Source.HostOrder
import GroovyFindings.Proofs.Source.Own
import GroovyFindings.Proofs.Issue.Complete
import GroovyFindings.Proofs.Analysis.Relevance
import GroovyFindings.Proofs.Settings.Precedence
import GroovyFindings.Proofs.Program.Ending
import GroovyFindings.Proofs.Xml.Nesting
import GroovyFindings.Proofs.Report.Structure
import GroovyFindings.Proofs.Report.RootTag
import GroovyFindings.Proofs.Report.Unreadable
import GroovyFindings.Proofs.Report.CharacterData
import GroovyFindings.Proofs.Report.Message
import GroovyFindings.Proofs.Rule.Processor
import GroovyFindings.Proofs.Source.Suffix
import GroovyFindings.Proofs.Disk.Canonical
import GroovyFindings.Proofs.Settings.Root
import GroovyFindings.Proofs.Settings.Directories
import GroovyFindings.Proofs.Settings.Blank
import GroovyFindings.Proofs.Linter.Completion
import GroovyFindings.Proofs.Json.Reader
import GroovyFindings.Proofs.Json.Written
import GroovyFindings.Proofs.Rendering.Colour
import GroovyFindings.Proofs.Rendering.Json
import GroovyFindings.Proofs.Source.Segment
import GroovyFindings.Proofs.Source.Normal
import GroovyFindings.Proofs.Text.Word
import GroovyFindings.Proofs.Report.Line
