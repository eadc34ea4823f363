import BoxLint.Source.Span
import BoxLint.Source.Location
import BoxLint.Message
import BoxLint.Text.Cut
import BoxLint.Types.Digest
import BoxLint.Types.TypeHash
import BoxLint.Types.TypeInfo
import BoxLint.Dialect
import BoxLint.Syntax.Kind
import BoxLint.Syntax.Generated
import BoxLint.Syntax.Tree
import BoxLint.Operation
import BoxLint.Boxing
import BoxLint.Diagnostic
import BoxLint.Rule
import BoxLint.Model.Keyword
import BoxLint.Model.FileModel
import BoxLint.Model.Compilation
import BoxLint.Model.Workspace
import BoxLint.Registration
import BoxLint.Toml.Blank
import BoxLint.Toml.Quoted
import BoxLint.Toml.Number
import BoxLint.Toml.DateTime
import BoxLint.Toml.Value
import BoxLint.Toml.Key
import BoxLint.Toml.Section
import BoxLint.Toml.Document
import BoxLint.Settings.RuleTable
import BoxLint.Settings.Basic
import BoxLint.Settings.Reader
import BoxLint.Analysis.Error
import BoxLint.Analysis.Event
import BoxLint.Analysis.Pass
import BoxLint.Analysis.Detector
import BoxLint.Analysis.Suppressor
import BoxLint.Analysis.Linter
import BoxLint.Proofs.LocationOrder
import BoxLint.Proofs.Paths
import BoxLint.Proofs.Sites
import BoxLint.Proofs.Uninterrupted
import BoxLint.Proofs.Findings
import BoxLint.Proofs.Suppression
import BoxLint.Proofs.Interleaving
import BoxLint.Proofs.CastRemoval
import BoxLint.Proofs.Nesting
import BoxLint.Proofs.NodeSearch
import BoxLint.Proofs.SharedExtent
import BoxLint.Proofs.Unresolved
import BoxLint.Proofs.Building
import BoxLint.Proofs.Separation
import BoxLint.Proofs.SettingsReach
import BoxLint.Proofs.GeneratedFiles
import BoxLint.Proofs.DialectTags
import BoxLint.Proofs.OperationOrder
import BoxLint.Proofs.Workspaces
import BoxLint.Proofs.BuildHistory
import BoxLint.Proofs.Ancestry
import BoxLint.Proofs.InnermostNode
import BoxLint.Proofs.TemplatePieces
import BoxLint.Proofs.NodeBinding
import BoxLint.Proofs.Interruption
import BoxLint.Proofs.RaisedSignal
import BoxLint.Proofs.ByteOrder
import BoxLint.Proofs.DistinctKeys
import BoxLint.Proofs.SettingsDocument
import BoxLint.Proofs.WrittenSettings
import BoxLint.Proofs.DisplayNames
import BoxLint.Proofs.GenericNames
import BoxLint.Proofs.UnresolvedNames
import BoxLint.Proofs.AddedNode
import BoxLint.Proofs.SuppressionLog
import BoxLint.Proofs.ProcessedFiles
import BoxLint.Proofs.DetectionLog
import BoxLint.Proofs.GeneratedNames
import BoxLint.Proofs.DepthLoop
import BoxLint.Proofs.VisitOrder
