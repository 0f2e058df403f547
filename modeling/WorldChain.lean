import WorldChain.P2p.AcrossPayloads
import WorldChain.P2p.Gossip
import WorldChain.Deps.Reth
import WorldChain.Builder.Build
import WorldChain.Builder.Assemble
import WorldChain.Library.Fallible
import WorldChain.Builder.Sequential
import WorldChain.Builder.Outcome
import WorldChain.Builder.Updates
import WorldChain.Deps.Concrete
import WorldChain.Builder.Accelerator
import WorldChain.Builder.PreExecution
import WorldChain.Builder.AccessList
import WorldChain.Builder.Cut
import WorldChain.Executor.Process
import WorldChain.Executor.Announced
import WorldChain.Executor.Coupling
import WorldChain.Step.Publish
import WorldChain.Step.GasUsed
import WorldChain.Step.SameHeader
import WorldChain.Library.Encoding
import WorldChain.Library.Rlp
import WorldChain.Wire.Collection
import WorldChain.Wire.Message
import WorldChain.Wire.Alloy
import WorldChain.Step.Job
import WorldChain.Step.Sealed
import WorldChain.Step.Partition
import WorldChain.Step.Incremental
import WorldChain.Step.Overlap
import WorldChain.P2p.Poll
import WorldChain.P2p.Subscriber
import WorldChain.Wire.Grammar
import WorldChain.Wire.Reduce
import WorldChain.Step.Rebuilt
import WorldChain.P2p.Honest
import WorldChain.Library.Undo
import WorldChain.Step.Unwind
import WorldChain.P2p.Repeats
import WorldChain.P2p.Rejected
import WorldChain.P2p.Bounded
import WorldChain.Executor.Published
import WorldChain.Library.Broadcast
import WorldChain.P2p.Lagging
import WorldChain.Executor.Failed
import WorldChain.Step.Retry
import WorldChain.Executor.Replay
import WorldChain.Library.Collate
import WorldChain.Step.Flatten
import WorldChain.Step.External
import WorldChain.Executor.Returns
import WorldChain.Executor.Panics
import WorldChain.Step.Limits
import WorldChain.P2p.Echo
import WorldChain.Library.Checked
import WorldChain.Step.Arithmetic
import WorldChain.P2p.Arithmetic
import WorldChain.Step.Converted
import WorldChain.Library.Flooding
import WorldChain.P2p.Channels
import WorldChain.P2p.Provenance
import WorldChain.P2p.Spreading
import WorldChain.P2p.Delivery
import WorldChain.P2p.Settling
import WorldChain.Executor.Agreement
import WorldChain.Executor.OwnFlashblocks
import WorldChain.P2p.Circulation
import WorldChain.P2p.Latecomer
import WorldChain.Executor.Preconfirmed
import WorldChain.Executor.Followers
import WorldChain.Executor.Arrival
import WorldChain.Executor.Contents
import WorldChain.Executor.Kept
import WorldChain.Executor.Mirror
import WorldChain.Library.Framing
import WorldChain.Wire.Framing
