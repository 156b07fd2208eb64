import DocumentMapper.Call.Config
import DocumentMapper.Call.Declaration
import DocumentMapper.Call.Expression
import DocumentMapper.Call.Request
import DocumentMapper.Call.Script
import DocumentMapper.Call.Stage
import DocumentMapper.Database.Script
import DocumentMapper.Document.Merge
import DocumentMapper.Log.Manager
import DocumentMapper.Proofs.Database.Transactions
import DocumentMapper.Proofs.Model.DestroyCourse
import DocumentMapper.Proofs.Model.Independence
import DocumentMapper.Proofs.Model.Insertion
import DocumentMapper.Proofs.Model.Numbering
import DocumentMapper.Proofs.Model.Refusal
import DocumentMapper.Proofs.Model.Snapshot
import DocumentMapper.Proofs.Query.Conjunction
import DocumentMapper.Proofs.Sync.Cleanness
import DocumentMapper.Proofs.Sync.Confinement
import DocumentMapper.Proofs.Sync.Freshness
import DocumentMapper.Text.Singular
import DocumentMapper.Proofs.Model.Retry
import DocumentMapper.Proofs.Value.Moments
import DocumentMapper.Proofs.Value.Casts
import DocumentMapper.Proofs.Document.Moments
import DocumentMapper.Proofs.Sync.Moments
import DocumentMapper.Proofs.Query.Moments
import DocumentMapper.Proofs.Query.Handing
import DocumentMapper.Proofs.Model.Handing
import DocumentMapper.Proofs.Sync.Handing
import DocumentMapper.Proofs.Model.Clocks
import DocumentMapper.Proofs.Model.Requests
import DocumentMapper.Proofs.Query.Concatenation
import DocumentMapper.Proofs.Query.Rejection
import DocumentMapper.Proofs.Model.Cascades
import DocumentMapper.Proofs.Sync.Stability
import DocumentMapper.Proofs.Path.InPlace
import DocumentMapper.Proofs.Sync.Embedding
import DocumentMapper.Proofs.Model.Hiding
import DocumentMapper.Proofs.Query.Walk
import DocumentMapper.Proofs.Model.EmbeddedMap
import DocumentMapper.Proofs.Model.Recasting
import DocumentMapper.Proofs.Document.Merging
import DocumentMapper.Proofs.Model.Addressing
import DocumentMapper.Proofs.Model.CastFailure
import DocumentMapper.Proofs.Model.CastOrder
import DocumentMapper.Proofs.Pattern.Literals
import DocumentMapper.Proofs.Value.Normalization
import DocumentMapper.Proofs.Value.DateText
import DocumentMapper.Proofs.Model.RecordNumber
import DocumentMapper.Proofs.Pattern.Search
import DocumentMapper.Proofs.Filter.Acceptance
import DocumentMapper.Proofs.Query.Transforms
import DocumentMapper.Proofs.Query.Joinables
import DocumentMapper.Proofs.Query.Counts
import DocumentMapper.Proofs.Query.Relations
import DocumentMapper.Proofs.Document.Projection
import DocumentMapper.Proofs.Document.Removal
import DocumentMapper.Proofs.Path.Lookup
import DocumentMapper.Proofs.Configuration
import DocumentMapper.Proofs.Registrations
import DocumentMapper.Proofs.Model.Clearance
import DocumentMapper.Proofs.Log.Delivery
