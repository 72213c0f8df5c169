import LiveReload.Config.Json
import LiveReload.Graph.Listing
import LiveReload.Resource.Json
import LiveReload.Roster.Circle
import LiveReload.Session
import LiveReload.Proofs.Graph.Decline
import LiveReload.Proofs.Graph.Depth
import LiveReload.Proofs.Graph.EdgeOrder
import LiveReload.Proofs.Graph.Granting
import LiveReload.Proofs.Graph.Locality
import LiveReload.Proofs.Graph.Replay
import LiveReload.Proofs.Graph.Unused
import LiveReload.Proofs.Message.RoundTrip
import LiveReload.Proofs.Reloader.Departure
import LiveReload.Proofs.Reloader.Freshness
import LiveReload.Proofs.Reloader.LastBegun
import LiveReload.Proofs.Reloader.LateParse
import LiveReload.Proofs.Reloader.Pruning
import LiveReload.Proofs.Reloader.Reapplied
import LiveReload.Proofs.Reloader.RemovedFile
import LiveReload.Proofs.Session.Accounting
import LiveReload.Proofs.Session.Failure
import LiveReload.Proofs.Session.Observers
import LiveReload.Proofs.Station.Delivery
import LiveReload.Proofs.Turnstile.Tracked
import LiveReload.Proofs.Turnstile.Transcript
import LiveReload.Proofs.Graph.Clearing
import LiveReload.Proofs.Graph.Undoing
import LiveReload.Proofs.Reloader.Notices
import LiveReload.Proofs.Message.Truncation
import LiveReload.Proofs.Reloader.Identity
import LiveReload.Proofs.Reloader.Restatement
import LiveReload.Proofs.Loading
