import Arma.Assembler.Fetcher
import Arma.Assembler.Frontier
import Arma.Assembler.Prefetch
import Arma.Assembler.Signatures
import Arma.Assembler.SoftStop
import Arma.Batcher.Acker
import Arma.Batcher.Broadcast
import Arma.Batcher.Capacity
import Arma.Batcher.Honest
import Arma.Batcher.Pulling
import Arma.Batcher.Recovery
import Arma.Batcher.Valid
import Arma.Config.Policy
import Arma.Config.Shards
import Arma.Consensus.Counts
import Arma.Consensus.Crash
import Arma.Consensus.Identity
import Arma.Consensus.IndexCrash
import Arma.Consensus.SigCrash
import Arma.Ledger.ChannelName
import Arma.Router.Stranded
import Arma.State.Signed
import Arma.Synchronizer.BlockVerifier
import Arma.Synchronizer.Target
