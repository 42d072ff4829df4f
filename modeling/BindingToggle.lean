import BindingToggle.Text.Position
import BindingToggle.Text.Quoted
import BindingToggle.Decimal.Shortest
import BindingToggle.Expression.Program
import BindingToggle.Template.Forest
import BindingToggle.Component.Basic
import BindingToggle.Toggle.Action
import BindingToggle.Server.Session
import BindingToggle.Proofs.SoleLiteral
import BindingToggle.Proofs.Rewriting
import BindingToggle.Proofs.EditedTemplate
import BindingToggle.Proofs.Nesting
import BindingToggle.Proofs.Moves
import BindingToggle.Proofs.Selection
import BindingToggle.Proofs.Recovery
import BindingToggle.Proofs.DiagnosticSpans
import BindingToggle.Proofs.LinePositions
import BindingToggle.Proofs.PositionOrder
import BindingToggle.Proofs.SimultaneousEdits
import BindingToggle.Proofs.RangeEdits
import BindingToggle.Proofs.CaretPlacement
import BindingToggle.Proofs.SessionHistory
import BindingToggle.Proofs.SettingsRegister
import BindingToggle.Proofs.Tiling
import BindingToggle.Proofs.BalancedBlock
import BindingToggle.Proofs.OpaqueBlock
import BindingToggle.Proofs.Printing
import BindingToggle.Proofs.Spelling
import BindingToggle.Proofs.StatementTiling
import BindingToggle.Proofs.Anchoring
import BindingToggle.Proofs.PublishedDiagnostics
import BindingToggle.Proofs.Cancellation
import BindingToggle.Proofs.Layout
import BindingToggle.Proofs.Fragments
import BindingToggle.Proofs.UnquotedValue
import BindingToggle.Proofs.ExpressionSpans
import BindingToggle.Proofs.BlockAttributes
import BindingToggle.Proofs.Derivation
import BindingToggle.Proofs.Precedence
import BindingToggle.Proofs.Brackets
import BindingToggle.Proofs.Concatenation
import BindingToggle.Proofs.ExpressionDepth
import BindingToggle.Proofs.Blame
import BindingToggle.Proofs.ErrorOffsets
import BindingToggle.Proofs.Lineage
import BindingToggle.Proofs.Respacing
