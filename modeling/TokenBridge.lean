import TokenBridge.Chain
import TokenBridge.Proofs.Aborts
import TokenBridge.Proofs.AcceptedPaths
import TokenBridge.Proofs.Announcement
import TokenBridge.Proofs.Atomicity
import TokenBridge.Proofs.Authority
import TokenBridge.Proofs.Backing
import TokenBridge.Proofs.BindingIndex
import TokenBridge.Proofs.BuiltPaths
import TokenBridge.Proofs.CommitDecision
import TokenBridge.Proofs.CommitmentHistory
import TokenBridge.Proofs.CommittedLeaves
import TokenBridge.Proofs.CoreTypes
import TokenBridge.Proofs.Deciding
import TokenBridge.Proofs.DepositDecision
import TokenBridge.Proofs.DepositPaths
import TokenBridge.Proofs.Digits
import TokenBridge.Proofs.Encoding
import TokenBridge.Proofs.EpochCap
import TokenBridge.Proofs.EpochClock
import TokenBridge.Proofs.EpochGrid
import TokenBridge.Proofs.Faults
import TokenBridge.Proofs.Finality
import TokenBridge.Proofs.Forgery
import TokenBridge.Proofs.GenesisRoles
import TokenBridge.Proofs.Hashed
import TokenBridge.Proofs.Independence
import TokenBridge.Proofs.LastingFinality
import TokenBridge.Proofs.Ledger
import TokenBridge.Proofs.Membership
import TokenBridge.Proofs.Movement
import TokenBridge.Proofs.Paging
import TokenBridge.Proofs.PathPositions
import TokenBridge.Proofs.Pause
import TokenBridge.Proofs.Permanence
import TokenBridge.Proofs.QuotaForecast
import TokenBridge.Proofs.Quoting
import TokenBridge.Proofs.Rendering
import TokenBridge.Proofs.Reordering
import TokenBridge.Proofs.Replay
import TokenBridge.Proofs.Rescheduling
import TokenBridge.Proofs.Rollover
import TokenBridge.Proofs.RoundTrip
import TokenBridge.Proofs.Run
import TokenBridge.Proofs.Scaling
import TokenBridge.Proofs.SortedPaths
import TokenBridge.Proofs.SoundQuota
import TokenBridge.Proofs.Spelling
import TokenBridge.Proofs.Step
import TokenBridge.Proofs.UpgradeDecision
import TokenBridge.Proofs.ValidAddresses
import TokenBridge.Proofs.WithdrawalDecision
import TokenBridge.Proofs.Yields
