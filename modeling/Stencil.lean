import Stencil.Main
import Stencil.Proofs.Template.Lossless
import Stencil.Proofs.Template.ChainPlaces
import Stencil.Proofs.Template.SlotContent
import Stencil.Proofs.View.Chains
import Stencil.Proofs.Expression.Accepts
import Stencil.Proofs.View.OneStore
import Stencil.Proofs.View.Correspondence
import Stencil.Proofs.View.Sessions
import Stencil.Proofs.View.Caching
import Stencil.Proofs.View.SharedStore
import Stencil.Proofs.Template.Nesting
import Stencil.Proofs.View.Nesting
import Stencil.Proofs.Expression.Inherited
import Stencil.Proofs.View.Marks
import Stencil.Proofs.View.Checked
import Stencil.Proofs.View.ByNames
import Stencil.Proofs.View.Unseen
import Stencil.Proofs.View.PassThrough
import Stencil.Proofs.View.TextOnly
import Stencil.Proofs.View.CallDepth
import Stencil.Proofs.Template.TagsRead
import Stencil.Proofs.View.OpeningTags
import Stencil.Proofs.View.StaticTags
import Stencil.Proofs.View.StaticPages
import Stencil.Proofs.View.Idempotent
import Stencil.Proofs.View.Registrations
import Stencil.Proofs.View.Reachable
import Stencil.Expression.Memo
import Stencil.Proofs.Project.Independence
import Stencil.Proofs.Files.Paths
import Stencil.Proofs.Files.Places
import Stencil.Proofs.Project.Reports
import Stencil.Proofs.Project.Discovered
import Stencil.Proofs.Project.PageNames
import Stencil.Proofs.Project.Reading
import Stencil.Proofs.Project.Written
import Stencil.Proofs.Decimal.WholeNumbers
import Stencil.Proofs.Expression.Arithmetic
import Stencil.Proofs.View.WrittenOrder
import Stencil.Proofs.View.Fallbacks
import Stencil.Proofs.Value.Coherence
import Stencil.Proofs.Value.MarkupAsText
import Stencil.Proofs.View.ClosedExpressions
import Stencil.Proofs.Template.LoopText
import Stencil.Proofs.Expression.StringLiterals
import Stencil.Proofs.Project.ErrorLines
import Stencil.Proofs.Value.Keys
import Stencil.Proofs.Expression.Provenance
import Stencil.Proofs.Expression.VariableNames
import Stencil.Proofs.View.PropNames
import Stencil.Proofs.Template.TagsReadBack
import Stencil.Proofs.Template.Paired
import Stencil.Proofs.Template.Exchange
import Stencil.Proofs.Template.Alongside
import Stencil.Proofs.View.PairedRendering
import Stencil.Proofs.View.SelfClosing
import Stencil.Proofs.Value.StructuredData
import Stencil.Proofs.Text.Entities
import Stencil.Proofs.Source.Offsets
import Stencil.Proofs.Names
import Stencil.Proofs.Template.Operations
import Stencil.Proofs.View.Distribution
import Stencil.Proofs.Project.Components
import Stencil.Proofs.Project.InsideOutput
