import Muser.AuthoritativeVerifier.Heights
import Muser.AuthoritativeVerifier.Retire
import Muser.AuthoritativeVerifier.Fragments
import Muser.AuthoritativeVerifier.Binding
import Muser.Cluster.Delta
import Muser.Engine.Scheduler
import Muser.Dflash.ContextLaw
import Muser.Gateway.Codec
import Muser.Sessions.Moved
import Muser.Sessions.Serial
import Muser.Atem.Agreement
import Muser.Atem.RequiredCalls
import Muser.Resident.Eviction
import Muser.Resident.Ladder
import Muser.Server.HalfOpen
import Muser.Server.Latch
import Muser.Cluster.Identity
import Muser.Gateway.Assembly
import Muser.Server.Delivery
import Muser.Speculation.Frontier
import Muser.Cluster.Framing
import Muser.Schema.Bounded
import Muser.Sessions.Saved
import Muser.AuthoritativeVerifier.Closing
import Muser.Reply.Spoken
import Muser.Prompt.Honest
import Muser.Reply.Accelerated
import Muser.Reply.Splitting
import Muser.Tokenizer.Streaming
import Muser.Vision.TargetSize
import Muser.Gguf.Identity
import Muser.Reply.Distribution
import Muser.Quant.RowProducts
import Muser.Vision.SpatialPlan
import Muser.Tokenizer.Finishing
import Muser.Quant.Nvfp4
import Muser.Server.PrefillSuffix
import Muser.Reply.PartialSort
