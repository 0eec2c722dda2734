import RsRaft.RaftLogView
import RsRaft.Run

/-!
# Vote requests of a later term

`step` tests the lease only to decide about a log line; the return behind the
test is outside of it. A vote request of a later term is therefore dropped
whether or not the lease holds, and nobody ever hears of it.

§1 the answer as it should be · §2 when it is given.
-/

namespace RsRaft

namespace Raft

open Call

variable {T : Type} {r : Raft T} {m : Message} {L : PlainLog Entry ℕ}

/-! ## §1  The answer as it should be -/

/-- The node has heard from a leader within the election timeout. -/
def Lease (r : Raft T) : Prop :=
  r.checkQuorum = true ∧ r.leaderId ≠ INVALID_ID ∧ r.electionElapsed < r.electionTimeout

/-- The candidate's log ends at least as late as `L`, terms compared first. -/
def UpToDate (m : Message) (L : PlainLog Entry ℕ) : Prop :=
  L.lastStamp < m.logTerm ∨ (L.lastStamp = m.logTerm ∧ L.lastIndex ≤ m.index)

section

variable [Storage T] [ProtoMessage Entry]

/-- Exactly one reply, to the candidate and of the matching type, which grants
the vote exactly to an up-to-date candidate; a real vote request is also
followed into its term, a pre-vote leaves term, vote, role and log alone. -/
structure Answered (L : PlainLog Entry ℕ) (m : Message) (r : Raft T) (q : Message) : Prop where
  returned : (step m r).value = .ok (.ok ())
  queued : (step m r).state.msgs = r.msgs ++ [q]
  sender : q.to_ = m.from_
  type : voteRespMsgType m.msgType = .ok q.msgType
  granted : q.reject = false ↔ UpToDate m L
  vote : m.msgType = .MsgRequestVote →
    (step m r).state.state = .FOLLOWER ∧ (step m r).state.term = m.term ∧
      ((step m r).state.vote = m.from_ ↔ q.reject = false)
  preVote : m.msgType = .MsgRequestPreVote →
    (step m r).state.term = r.term ∧ (step m r).state.vote = r.vote ∧
      (step m r).state.state = r.state ∧ (step m r).state.raftLog = r.raftLog

/-- A lease protects the node from the request unless a leader transfers its
leadership; otherwise the request is answered. -/
def VoteRequestAsClaimed (L : PlainLog Entry ℕ) (m : Message) (r : Raft T) : Prop :=
  (m.context ≠ CAMPAIGN_TRANSFER ∧ r.Lease →
    step m r = ⟨.ok (.ok ()), r, []⟩) ∧
  (¬ (m.context ≠ CAMPAIGN_TRANSFER ∧ r.Lease) → ∃ q, Answered L m r q)

/-! ## §2  When it is given -/

/-- Vote requests of a later term are dropped. -/
theorem step_later_voteRequest (hterm : r.term < m.term)
    (ht : m.msgType = .MsgRequestVote ∨ m.msgType = .MsgRequestPreVote) :
    step m r = ⟨.ok (.ok ()), r, []⟩ := by
  unfold step
  rw [read_bind_run, ite_run, if_neg (by omega), ite_run, if_pos hterm, ite_run, if_pos ht]
  rfl

/-- The answer is the one it should be exactly when it is none: with the lease in
force and no transfer. -/
theorem voteRequestAsClaimed_iff (_hlog : r.raftLog.Presents L) (hterm : r.term < m.term)
    (ht : m.msgType = .MsgRequestVote ∨ m.msgType = .MsgRequestPreVote) :
    VoteRequestAsClaimed L m r ↔ m.context ≠ CAMPAIGN_TRANSFER ∧ r.Lease := by
  have hrun := step_later_voteRequest (r := r) hterm ht
  constructor
  · rintro ⟨_, hanswer⟩
    by_contra hopen
    obtain ⟨q, hq⟩ := hanswer hopen
    have hqueued := hq.queued
    rw [hrun] at hqueued
    simp at hqueued
  · intro hlease
    exact ⟨fun _ => hrun, fun hopen => absurd hlease hopen⟩

end

/-! A follower of leader `2` within its lease, and the same follower without
quorum checks. -/

def leasedNode : Raft MemStorage :=
  { memNode 1 [1, 2, 3] [] with term := 1, leaderId := 2, checkQuorum := true }

def voteRequest : Message := { msgType := .MsgRequestVote, from_ := 3, to_ := 1, term := 2 }

theorem voteRequestAsClaimed_leasedNode :
    VoteRequestAsClaimed ⟨0, 0, []⟩ voteRequest leasedNode := by
  have hpres : leasedNode.raftLog.Presents ⟨0, 0, []⟩ :=
    RaftLog.Unstored.presents ⟨MemStorage.holds_empty, rfl, rfl⟩
  apply (voteRequestAsClaimed_iff hpres (by decide) (Or.inl rfl)).mpr
  exact ⟨by decide, rfl, by decide, by decide⟩

theorem not_voteRequestAsClaimed_follower :
    ¬ VoteRequestAsClaimed ⟨0, 0, []⟩ voteRequest { leasedNode with checkQuorum := false } := by
  rintro ⟨_, hanswer⟩
  obtain ⟨q, hq⟩ := hanswer fun hlease => by cases hlease.2.1
  have hsilent : (step voteRequest { leasedNode with checkQuorum := false }).state.msgs = [] := by
    decide +kernel
  have hqueued := hq.queued
  rw [hsilent] at hqueued
  cases hqueued

end Raft

end RsRaft
