import BrokeredRpc.Draft
import BrokeredRpc.Proofs.Broker.Copies
import BrokeredRpc.Proofs.Broker.Delivery
import BrokeredRpc.Proofs.Broker.Freshness
import BrokeredRpc.Proofs.Broker.Identities
import BrokeredRpc.Proofs.Broker.Protection
import BrokeredRpc.Proofs.Client.Crosstalk
import BrokeredRpc.Proofs.Client.Expiry
import BrokeredRpc.Proofs.Client.Handouts
import BrokeredRpc.Proofs.Client.Sessions
import BrokeredRpc.Proofs.Client.Stranding
import BrokeredRpc.Proofs.Client.Tally
import BrokeredRpc.Proofs.Edits
import BrokeredRpc.Proofs.Network.Batches
import BrokeredRpc.Proofs.Network.Calls
import BrokeredRpc.Proofs.Network.Closing
import BrokeredRpc.Proofs.Network.Enumerations
import BrokeredRpc.Proofs.Network.Narrowing
import BrokeredRpc.Proofs.Readers
import BrokeredRpc.Proofs.Tenancy.Causes
import BrokeredRpc.Proofs.Tenancy.Cleanup
import BrokeredRpc.Proofs.Written
import BrokeredRpc.Scenario.Session
import BrokeredRpc.Script
import BrokeredRpc.WaitingRoom
