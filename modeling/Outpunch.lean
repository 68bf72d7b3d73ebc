import Outpunch.Library.PartialMap
import Outpunch.Library.Runs
import Outpunch.Library.JsonRoundTrip
import Outpunch.Server.Ownership
import Outpunch.Server.Disconnect
import Outpunch.Server.Registry
import Outpunch.Server.Pending
import Outpunch.Server.Handshake
import Outpunch.Server.Errors
import Outpunch.Server.Isolation
import Outpunch.Server.Rest
import Outpunch.Client.Conservation
import Outpunch.Client.Outcome
import Outpunch.Tunnel.Correlation
import Outpunch.Tunnel.Handshake
import Outpunch.Tunnel.Wire
import Outpunch.Tunnel.Query
import Outpunch.Tunnel.Routing
import Outpunch.Tunnel.Headers
import Outpunch.Tunnel.Body
import Outpunch.Client.Redirects
import Outpunch.Client.ErrorBody
import Outpunch.Axum.Rendering
import Outpunch.Axum.Tasks
import Outpunch.Node.Listener
import Outpunch.Node.Bridge
import Outpunch.Rack.Headers
import Outpunch.Rails.Failures
import Outpunch.Ruby.ExactlyOnce
import Outpunch.Ruby.Requests
import Outpunch.Ruby.Runs
import Outpunch.Server.Recovery
import Outpunch.Server.Broker
import Outpunch.Tunnel.Transparency
import Outpunch.Rack.Rest
import Outpunch.Tunnel.Rest
