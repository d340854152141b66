import DeMls.Lib.Program
import DeMls.Lib.Paths
import DeMls.Lib.Runs
import DeMls.Lib.OrderedMap
import DeMls.Lib.Selection
import DeMls.Lib.Rotation
import DeMls.Lib.Intake
import DeMls.Lib.Tenancy
import DeMls.Wire
import DeMls.Platform
import DeMls.Error
import DeMls.Events
import DeMls.Mls.MemberId
import DeMls.Mls.Service
import DeMls.Queues
import DeMls.StewardList
import DeMls.Scoring
import DeMls.ScoreTable
import DeMls.CommitRound.Validate
import DeMls.CommitRound.Round
import DeMls.CommitRound.Spec
import DeMls.Conversation.State
import DeMls.Conversation.Handle
import DeMls.Consensus.Voting
import DeMls.Consensus.ApplyResult
import DeMls.Conversation.Steward
import DeMls.Conversation.Inbound
import DeMls.Consensus.HandleOutcome
import DeMls.Conversation.Poll
import DeMls.Conversation.Messaging
import DeMls.Conversation.Construct
import DeMls.Conversation.Standing
import DeMls.Ideal
import DeMls.IdealWire
import DeMls.CommitRound.Report
import DeMls.CommitRound.Packing
import DeMls.CommitRound.Batch
import DeMls.CommitRound.Buffer
import DeMls.CommitRound.Agreement
import DeMls.CommitRound.Delivery
import DeMls.CommitRound.OwnCandidate
import DeMls.CommitRound.Leaving
import DeMls.Conversation.Run
import DeMls.Conversation.ApprovedQueue
import DeMls.Conversation.Seats
import DeMls.Conversation.StewardSeats
import DeMls.Conversation.Aside
import DeMls.Conversation.InFlight
import DeMls.Conversation.Drift
import DeMls.Conversation.EarlyClose
import DeMls.Conversation.Turns
import DeMls.Conversation.Stages
import DeMls.Conversation.FrozenQueue
import DeMls.Conversation.Traffic
import DeMls.Conversation.EntryPoints
import DeMls.Conversation.Stuck
import DeMls.Conversation.PartialFreeze
import DeMls.Conversation.Settled
import DeMls.Conversation.SelfLeave
import DeMls.Conversation.FreezeGate
import DeMls.Conversation.Packets
import DeMls.Conversation.Quorum
import DeMls.Conversation.ElectionSeed
import DeMls.Conversation.Proposers
import DeMls.Conversation.Sync
import DeMls.Conversation.Scored
import DeMls.Conversation.AfterCommit
import DeMls.Conversation.ListSync
import DeMls.Conversation.LocalList
import DeMls.Conversation.SyncConfig
import DeMls.Conversation.SyncAtomic
import DeMls.Conversation.SyncReplay
import DeMls.Conversation.Joining
import DeMls.Conversation.JoinerScores
import DeMls.Conversation.Occupants
import DeMls.Conversation.SettledAgreement
import DeMls.Conversation.RecoveryClose
import DeMls.Conversation.Walk
import DeMls.Conversation.NoWedge
import DeMls.Conversation.EarlyCandidates
import DeMls.Conversation.HalfSent
import DeMls.CommitRound.FairScores
import DeMls.Conversation.ElectionLadder
import DeMls.Conversation.WakeUp
import DeMls.Conversation.Judged
import DeMls.CommitRound.Ratchet
import DeMls.Conversation.Twins
import DeMls.Reliable
import DeMls.Conversation.ScoreFaults
import DeMls.Conversation.ScoresUnread
import DeMls.Conversation.ScoreRuns
import DeMls.Lib.Rotation
import DeMls.StewardRotation
import DeMls.ScoreChanges
import DeMls.Conversation.BufferedUpdates
import DeMls.Conversation.Drain
import DeMls.Conversation.StopLine
import DeMls.CommitRound.ApplyLoop
import DeMls.Conversation.RotationTraffic
import DeMls.Conversation.Expiry
import DeMls.Conversation.OutcomeDrain
import DeMls.Conversation.Shadowing
import DeMls.Lib.Triples
import DeMls.CommitRound.Charter
import DeMls.Conversation.Acts
import DeMls.Conversation.Lifetime
import DeMls.Conversation.Voted
import DeMls.Conversation.OneList
import DeMls.Lib.Network
import DeMls.Conversation.OutcomeOrder
import DeMls.Conversation.Group
import DeMls.Conversation.View
import DeMls.Conversation.Observer
import DeMls.Conversation.Query
