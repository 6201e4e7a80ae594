import Custody.Host
import Custody.Message
import Custody.Node.Client
import Custody.Proofs.Address.Validation
import Custody.Proofs.Amount
import Custody.Proofs.Assembly.Progress
import Custody.Proofs.Coin.Derivation
import Custody.Proofs.Host
import Custody.Proofs.Message.Signing
import Custody.Proofs.Node.Deposit
import Custody.Proofs.Node.Log
import Custody.Proofs.Node.Mempool
import Custody.Proofs.Node.Provenance
import Custody.Proofs.Operation.Extra
import Custody.Proofs.Packet.Commitment
import Custody.Proofs.Packet.Forms
import Custody.Proofs.Packet.Marshal
import Custody.Proofs.Packet.Text
import Custody.Proofs.Request.Conservation
import Custody.Proofs.Request.Coverage
import Custody.Proofs.Request.Payload
import Custody.Proofs.Request.Shortfall
import Custody.Proofs.Request.Size
import Custody.Proofs.Request.Standard
import Custody.Proofs.Safety
