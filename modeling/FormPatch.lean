import FormPatch.Edition
import FormPatch.Main
import FormPatch.Proofs.Guard.Accepted
import FormPatch.Proofs.Guard.Malformation
import FormPatch.Proofs.Guard.Streaming
import FormPatch.Proofs.Statement.Streaming
import FormPatch.Proofs.Keyword.Streaming
import FormPatch.Proofs.Statement.Reading
import FormPatch.Proofs.Statement.Layout
import FormPatch.Proofs.Statement.Braces
import FormPatch.Proofs.Statement.Nesting
import FormPatch.Proofs.Keyword.Segments
import FormPatch.Proofs.Statement.Containment
import FormPatch.Proofs.Keyword.Containment
import FormPatch.Proofs.Store.Skeleton
import FormPatch.Proofs.Store.Resolution
import FormPatch.Proofs.Store.Histories
import FormPatch.Proofs.Application.Runs
import FormPatch.Proofs.Application.Active
import FormPatch.Proofs.Application.Dormant
import FormPatch.Proofs.Application.Edits
import FormPatch.Proofs.Application.Keywords
import FormPatch.Proofs.Application.Repeated
import FormPatch.Proofs.Armor.RoundTrip
import FormPatch.Proofs.Keyword.RoundTrip
import FormPatch.Proofs.Keyword.Lookup
import FormPatch.Proofs.Statement.Recoveries
import FormPatch.Proofs.Statement.Stops
import FormPatch.Proofs.Statement.Progress
import FormPatch.Proofs.Application.Changes
import FormPatch.Proofs.Application.Independence
import FormPatch.Proofs.Discovery.Files
import FormPatch.Proofs.Session.Order
import FormPatch.Proofs.Session.Files
import FormPatch.Proofs.Log.Buffer
import FormPatch.Proofs.Session.Capacity
import FormPatch.Proofs.Token.Partition
import FormPatch.Proofs.Guard.Recognition
import FormPatch.Proofs.Expression.Language
import FormPatch.Proofs.Expression.Texts
import FormPatch.Proofs.Expression.References
import FormPatch.Proofs.Expression.Numbers
import FormPatch.Proofs.Expression.Complaints
import FormPatch.Proofs.Snapshot.RoundTrip
import FormPatch.Proofs.Store.Decoding
import FormPatch.Proofs.Log.History
import FormPatch.Proofs.Store.LoadOrder
import FormPatch.Proofs.Guard.Conversion
