import RsRaft.TermMonotone
import RsRaft.ElectionSafety
import RsRaft.NonVoter
import RsRaft.ElectionOutcome
import RsRaft.VoteRequest
import RsRaft.AppendEntries
import RsRaft.LogMatching
import RsRaft.AckedPrefix
import RsRaft.CommitRule
import RsRaft.ReadQuorum
import RsRaft.CommittedFinal
import RsRaft.Delivery
import RsRaft.Persistence
import RsRaft.RestoredLog
import RsRaft.Membership
import RsRaft.StorageRun
import RsRaft.Sending
import RsRaft.LeaderId
import RsRaft.PreVote
import RsRaft.InflightWindow
import RsRaft.ReadQueue
import RsRaft.StorageAppend
import RsRaft.ProgressCursors
import RsRaft.SnapshotRestore
import RsRaft.CampaignGate
import RsRaft.ElectionTimer
import RsRaft.Restart
import RsRaft.Replication
import RsRaft.Probing
import RsRaft.StateMachineSafety
import RsRaft.Leaderless
import RsRaft.Transport
