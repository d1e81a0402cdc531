import AriaLint.Text.Basic
import AriaLint.Text.Blank
import AriaLint.Text.Word
import AriaLint.Text.Lowercase
import AriaLint.Text.Quoted
import AriaLint.Text.Utf8
import AriaLint.Text.Newline
import AriaLint.Text.Reader
import AriaLint.Attribute
import AriaLint.Tag
import AriaLint.Closing
import AriaLint.Markup.Reference
import AriaLint.Markup.StartTag
import AriaLint.Markup.Content
import AriaLint.Role.Catalogue
import AriaLint.Role.Attributes
import AriaLint.Role.Implicit
import AriaLint.Message
import AriaLint.Smell.Kind
import AriaLint.Smell.Diagnostic
import AriaLint.Smell.Findings
import AriaLint.Smell.RoleSemantics
import AriaLint.Smell.Interaction
import AriaLint.Smell.AccessibleName
import AriaLint.Smell.AttributeUse
import AriaLint.Smell.Containment
import AriaLint.Smell.Detect
import AriaLint.Fix.Change
import AriaLint.Fix.TagPasses
import AriaLint.Fix.Tablist
import AriaLint.Fix.Apply
import AriaLint.Json
import AriaLint.Report.Roles
import AriaLint.Report.States
import AriaLint.Report.Analysis
import AriaLint.Files.Path
import AriaLint.Files.Store
import AriaLint.Files.FixFile
import AriaLint.Files.Steps
import AriaLint.Cli.Arguments
import AriaLint.Cli.Help
import AriaLint.Cli.Run
import AriaLint.Main
import AriaLint.Proofs.Markup.Refusals
import AriaLint.Proofs.Smell.Success
import AriaLint.Proofs.Tag.Name
import AriaLint.Proofs.Tag.Pieces
import AriaLint.Proofs.Tag.Extension
import AriaLint.Proofs.Attribute.Extension
import AriaLint.Proofs.Document.Basic
import AriaLint.Proofs.Document.Matching
import AriaLint.Proofs.Document.Tablists
import AriaLint.Proofs.Document.Elements
import AriaLint.Proofs.Fix.Confinement
import AriaLint.Proofs.Fix.FirstClose
import AriaLint.Proofs.Fix.Controls
import AriaLint.Proofs.Fix.Fixpoint
import AriaLint.Proofs.Fix.Others
import AriaLint.Proofs.Fix.NewKinds
import AriaLint.Proofs.Fix.EffectiveRoles
import AriaLint.Proofs.Document.Edits
import AriaLint.Proofs.Document.FirstClose
import AriaLint.Proofs.Attribute.Entries
import AriaLint.Proofs.Message.Fragment
import AriaLint.Proofs.Message.Findings
import AriaLint.Proofs.Message.Changes
import AriaLint.Proofs.Fix.Log
import AriaLint.Proofs.Fix.RedundantRoles
import AriaLint.Proofs.Text.Readings
import AriaLint.Proofs.Attribute.Family
import AriaLint.Proofs.Fix.Discharge
import AriaLint.Proofs.Files.Store
import AriaLint.Proofs.Cli.Run
import AriaLint.Proofs.Cli.Unreadable
import AriaLint.Proofs.Attribute.Written
import AriaLint.Proofs.Tag.Scan
import AriaLint.Proofs.Report.Locality
import AriaLint.Proofs.Fix.ContainerNames
import AriaLint.Proofs.Closing.Counting
import AriaLint.Proofs.Quotes.Readers
import AriaLint.Proofs.Quotes.Tags
import AriaLint.Proofs.Quotes.Detection
import AriaLint.Proofs.Quotes.Fixes
import AriaLint.Proofs.Closing.Inserted
import AriaLint.Proofs.Tag.OpenRole
import AriaLint.Proofs.Fix.OwnClose
import AriaLint.Proofs.Fix.Balance
import AriaLint.Proofs.Fix.JustifiedTablists
import AriaLint.Proofs.Smell.Order
import AriaLint.Proofs.Files.FixFile
import AriaLint.Proofs.Fix.Appended
import AriaLint.Proofs.Report.Roles
import AriaLint.Proofs.Files.Path
import AriaLint.Proofs.Files.Steps
import AriaLint.Proofs.Report.Decoding
import AriaLint.Proofs.Tag.Source
import AriaLint.Proofs.Markup.Plain
