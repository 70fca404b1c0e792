import SessionRouting.CommandLine.Control
import SessionRouting.Connection
import SessionRouting.Daemon
import SessionRouting.Event.Log
import SessionRouting.Event.Metrics
import SessionRouting.Main
import SessionRouting.Membership.Database
import SessionRouting.StopSwitch
import SessionRouting.Proofs.Health.Watch
import SessionRouting.Proofs.Service.Deeds
import SessionRouting.Proofs.Health.Standing
import SessionRouting.Proofs.Health.Freshness
import SessionRouting.Proofs.Handoff.Order
import SessionRouting.Proofs.Session.Loss
import SessionRouting.Proofs.Session.Tally
import SessionRouting.Proofs.Health.Still
import SessionRouting.Proofs.Service.Connect
import SessionRouting.Proofs.Service.Frame
import SessionRouting.Proofs.Service.Turn
import SessionRouting.Proofs.Health.Pace
import SessionRouting.Proofs.Address.Canonical
import SessionRouting.Proofs.Policy.Compile
import SessionRouting.Proofs.Settings.Constraint
import SessionRouting.Proofs.Command.Parsed
import SessionRouting.Proofs.Service.Canonical
import SessionRouting.Proofs.Connection.Line
import SessionRouting.Proofs.Connection.Frame
import SessionRouting.Proofs.Connection.Message
import SessionRouting.Proofs.Handoff.Exchange
import SessionRouting.Proofs.Connection.Transparent
import SessionRouting.Proofs.Event.Metrics
import SessionRouting.Proofs.Service.Books
import SessionRouting.Proofs.Daemon.Limits
import SessionRouting.Proofs.Connection.Torn
import SessionRouting.Proofs.Policy.Override
import SessionRouting.Proofs.Net.Grammar
import SessionRouting.Proofs.Address.Endpoint
import SessionRouting.Proofs.Connection.Call
import SessionRouting.Proofs.Connection.Grammar
import SessionRouting.Proofs.Service.Listing
import SessionRouting.Proofs.Membership.Lookup
import SessionRouting.Proofs.Routing.Selection
import SessionRouting.Proofs.Connection.Stream
import SessionRouting.Proofs.Listener.Permits
