import ConsensusObserver.Types
import ConsensusObserver.Buffers
import ConsensusObserver.Observer
import ConsensusObserver.Subscription
import ConsensusObserver.System
import ConsensusObserver.Steps
import ConsensusObserver.Release
import ConsensusObserver.Root
import ConsensusObserver.SyncJobs
import ConsensusObserver.Chain
import ConsensusObserver.Pending
import ConsensusObserver.Epochs
import ConsensusObserver.Noninterference
import ConsensusObserver.Protocol
import ConsensusObserver.FinalizeOnce
