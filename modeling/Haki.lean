import Haki.Properties.Authority
import Haki.Properties.Contradiction
import Haki.Properties.Forgotten
import Haki.Properties.Instruction
import Haki.Properties.Provenance
import Haki.Properties.Replay
import Haki.Properties.Resolution
import Haki.Properties.Uniqueness
import Haki.Properties.Identity
import Haki.Properties.Lineage
import Haki.Properties.Review
import Haki.Properties.Served
import Haki.Properties.Forms
import Haki.Properties.Leakage
import Haki.Properties.Erasure
import Haki.Properties.ExactlyOnce
import Haki.Properties.ErasureRace
import Haki.Properties.Accounting
import Haki.Properties.Rendering
import Haki.Properties.Budget
import Haki.Properties.Trace
import Haki.Properties.PointOfView
import Haki.Properties.NextPage
import Haki.Properties.Integrity
import Haki.Properties.Chunks
import Haki.Properties.Intake
import Haki.Properties.Turns
import Haki.Control.Interleave
import Haki.Billing.Sessions
import Haki.Properties.Balance
import Haki.Properties.Window
import Haki.Api.DeviceAuth
import Haki.Properties.Delivery
import Haki.Properties.Guesses
import Haki.Api.Keys
import Haki.Properties.Bootstrap
import Haki.Billing.Dodo
import Haki.Properties.Redelivery
import Haki.Properties.Retries
import Haki.Properties.Parity
import Haki.Properties.Accumulation
import Haki.Properties.Reinforcement
import Haki.Properties.ScaleFree
import Haki.Properties.Echo
import Haki.Properties.Axes
import Haki.Properties.SupersedeChain
import Haki.Properties.Companions
import Haki.Properties.ChunkBounds
import Haki.Properties.KeyComposition
import Haki.Properties.Tiling
import Haki.Properties.TsqueryRoundTrip
import Haki.Properties.Embeddings
import Haki.Properties.ExactOrAbsent
import Haki.Properties.Indexed
import Haki.Properties.Determinism
import Haki.Properties.Isolation
import Haki.Properties.AppendOnly
import Haki.Properties.Draining
import Haki.Properties.KeyScopes
import Haki.Properties.Authenticated
