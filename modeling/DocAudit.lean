import DocAudit.Analysis
import DocAudit.Code.Dump
import DocAudit.Code.Node
import DocAudit.Code.Outline
import DocAudit.CommandLine.Arguments
import DocAudit.CommandLine.Run
import DocAudit.Comment.Basic
import DocAudit.Comment.Body
import DocAudit.Comment.Collect
import DocAudit.Comment.Content
import DocAudit.Declaration.Basic
import DocAudit.Declaration.Collect
import DocAudit.Declaration.Kind
import DocAudit.Description
import DocAudit.Detector.Exceptions
import DocAudit.Detector.MemberTags
import DocAudit.Detector.NamedTags
import DocAudit.Detector.Returns
import DocAudit.Detector.Summary
import DocAudit.Detector.WellFormed
import DocAudit.Error
import DocAudit.Files.Outlines
import DocAudit.Files.Path
import DocAudit.Files.Sources
import DocAudit.Files.System
import DocAudit.Files.Tree
import DocAudit.Finding.Basic
import DocAudit.Finding.Json
import DocAudit.Finding.Verdict
import DocAudit.Json.Read
import DocAudit.Json.Value
import DocAudit.Json.Write
import DocAudit.Main
import DocAudit.Markup.Attribute
import DocAudit.Markup.Event
import DocAudit.Markup.Forest
import DocAudit.Markup.Node
import DocAudit.Options.Basic
import DocAudit.Options.Json
import DocAudit.Options.Load
import DocAudit.Options.Yaml
import DocAudit.Smell
import DocAudit.Text.Basic
import DocAudit.Text.Blank
import DocAudit.Text.CharRange
import DocAudit.Text.Location
import DocAudit.Text.Printable
import DocAudit.Text.Quoted
import DocAudit.Text.Replace
import DocAudit.Text.Snippet
import DocAudit.Text.WordChar
import DocAudit.Vocabulary
import DocAudit.Yaml.Character
import DocAudit.Yaml.Node
import DocAudit.Yaml.Scalar
import DocAudit.Yaml.Tag
import DocAudit.Yaml.Token
import DocAudit.Yaml.Tokens
import DocAudit.Proofs.Markup.Construction
import DocAudit.Proofs.Markup.Ledger
import DocAudit.Proofs.Markup.StackDiscipline
import DocAudit.Proofs.Markup.Scan
import DocAudit.Proofs.Markup.WrittenForm
import DocAudit.Proofs.Markup.RoundTrip
import DocAudit.Proofs.Code.Tree
import DocAudit.Proofs.Comment.Runs
import DocAudit.Proofs.Declaration.Enumeration
import DocAudit.Proofs.Declaration.Documentation
import DocAudit.Proofs.Declaration.Extent
import DocAudit.Proofs.Text.Cuts
import DocAudit.Proofs.Text.Lines
import DocAudit.Proofs.Comment.Lines
import DocAudit.Proofs.Comment.SegmentMap
import DocAudit.Proofs.Comment.Characters
import DocAudit.Proofs.Markup.TagText
import DocAudit.Proofs.Detector.Elements
import DocAudit.Proofs.Detector.RawTags
import DocAudit.Proofs.Finding.Places
import DocAudit.Proofs.Markup.BareAngles
import DocAudit.Proofs.Markup.References
import DocAudit.Proofs.Detector.Emptiness
import DocAudit.Proofs.Markup.Steps
import DocAudit.Proofs.Markup.Nesting
import DocAudit.Proofs.Text.ByteOrder
import DocAudit.Proofs.Detector.Rules
import DocAudit.Proofs.Finding.Order
import DocAudit.Proofs.Finding.Merging
import DocAudit.Proofs.Detector.Apart
import DocAudit.Proofs.Finding.Uniqueness
import DocAudit.Proofs.Detector.TagSearch
import DocAudit.Proofs.Detector.UnclosedTags
import DocAudit.Proofs.Markup.Likeness
import DocAudit.Proofs.Markup.Padding
import DocAudit.Proofs.Comment.Styles
import DocAudit.Proofs.Finding.Matrix
import DocAudit.Proofs.Finding.Undocumented
import DocAudit.Proofs.Text.Trimming
import DocAudit.Proofs.Detector.Reconciliation
import DocAudit.Proofs.Detector.Rethrows
import DocAudit.Proofs.Text.Checked
import DocAudit.Proofs.Markup.Checked
import DocAudit.Proofs.Comment.Checked
import DocAudit.Proofs.Finding.Messages
import DocAudit.Proofs.Finding.OneLine
import DocAudit.Proofs.Finding.Strictness
import DocAudit.Proofs.Files.Paths
import DocAudit.Proofs.Files.Walking
import DocAudit.Proofs.Files.Discovery
import DocAudit.Proofs.CommandLine.Reports
import DocAudit.Proofs.CommandLine.Lines
import DocAudit.Proofs.CommandLine.Arguments
import DocAudit.Proofs.CommandLine.Directories
import DocAudit.Proofs.CommandLine.Failures
import DocAudit.Proofs.Comment.Content
import DocAudit.Proofs.Detector.Exceptions
import DocAudit.Proofs.Detector.Returns
import DocAudit.Proofs.Finding.Keys
import DocAudit.Proofs.Markup.Origins
import DocAudit.Proofs.Markup.Texts
import DocAudit.Proofs.Comment.StartTags
import DocAudit.Proofs.Text.Offsets
import DocAudit.Proofs.Finding.Offsets
import DocAudit.Proofs.Files.Relisting
import DocAudit.Proofs.Files.Exactness
import DocAudit.Proofs.Finding.Snippets
import DocAudit.Proofs.CommandLine.Items
import DocAudit.Proofs.Markup.Turns
