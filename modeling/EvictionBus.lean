import EvictionBus.Address.BrokerUri
import EvictionBus.Address.Json
import EvictionBus.Identity.Json
import EvictionBus.Main
import EvictionBus.Net.Steps
import EvictionBus.Proofs.Address.BrokerUri
import EvictionBus.Proofs.Address.Display
import EvictionBus.Proofs.Address.Secrecy
import EvictionBus.Proofs.Broker.Answers
import EvictionBus.Proofs.Broker.Fanout
import EvictionBus.Proofs.Broker.Pairing
import EvictionBus.Proofs.Frame.Buffer
import EvictionBus.Proofs.Frame.RoundTrip
import EvictionBus.Proofs.Frame.Writing
import EvictionBus.Proofs.Json.Numbers
import EvictionBus.Proofs.Json.Records
import EvictionBus.Proofs.Mesh.Copies
import EvictionBus.Proofs.Mesh.Nodes
import EvictionBus.Proofs.Net.Contract
import EvictionBus.Proofs.Net.Dispatch
import EvictionBus.Proofs.Relay.Agreement
import EvictionBus.Proofs.Relay.Balance
import EvictionBus.Proofs.Relay.Clearing
import EvictionBus.Proofs.Relay.Clocks
import EvictionBus.Proofs.Relay.Deadlines
import EvictionBus.Proofs.Relay.Delivery
import EvictionBus.Proofs.Relay.Greeting
import EvictionBus.Proofs.Relay.Interleaving
import EvictionBus.Proofs.Relay.Isolation
import EvictionBus.Proofs.Relay.Membership
import EvictionBus.Proofs.Relay.Oversized
import EvictionBus.Proofs.Relay.Passage
import EvictionBus.Proofs.Relay.PassingOn
import EvictionBus.Proofs.Relay.Regrouping
import EvictionBus.Proofs.Relay.Routing
import EvictionBus.Proofs.Relay.Timers
import EvictionBus.Proofs.Transport.Documents
import EvictionBus.Proofs.Transport.Growth
import EvictionBus.Proofs.Transport.Limits
import EvictionBus.Proofs.Transport.Overlay
import EvictionBus.Proofs.Transport.Schedule
import EvictionBus.Transport.Config.File
