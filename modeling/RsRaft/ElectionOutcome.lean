import RsRaft.Run

/-!
# What an election comes to

`candidacy_status` answers `Ineligible` while the election is still open and
`Eligible` once a majority has rejected, and `step_candidate` acts on the
names: an open election is given up, a lost one is waited for. So the first
response already ends every election, and only a majority of two can be won.

§1 the answers so far · §2 the outcome as it should be · §3 responses · §4 when
the outcome is as it should be.
-/

namespace RsRaft

open Ctl Call

/-! ## §1  The answers so far -/

/-- Only the first answer of each id counts. -/
def firstAnswer (seen : List Message) (k : ℕ) : Option Bool :=
  (seen.find? fun m => m.from_ == k).map fun m => !m.reject

/-- The members that granted, the node itself included. -/
def granted (V : Finset ℕ) (self : ℕ) (seen : List Message) : Finset ℕ :=
  V.filter fun k => k = self ∨ firstAnswer seen k = some true

/-- The members that rejected. -/
def rejected (V : Finset ℕ) (self : ℕ) (seen : List Message) : Finset ℕ :=
  V.filter fun k => k ≠ self ∧ firstAnswer seen k = some false

theorem firstAnswer_single (m : Message) (k : ℕ) :
    firstAnswer [m] k = if m.from_ = k then some (!m.reject) else none := by
  unfold firstAnswer
  by_cases h : m.from_ = k <;> simp [h]

theorem card_granted_grant {V : Finset ℕ} {self : ℕ} {m : Message} (hself : self ∈ V)
    (hfrom : m.from_ ∈ V) (hne : m.from_ ≠ self) (hrej : m.reject = false) :
    (granted V self [m]).card = 2 := by
  have : granted V self [m] = {self, m.from_} := by
    ext k
    simp only [granted, firstAnswer_single, Finset.mem_filter, Finset.mem_insert,
      Finset.mem_singleton, hrej]
    constructor
    · rintro ⟨_, rfl | h⟩
      · exact Or.inl rfl
      · split at h
        · rename_i hk
          exact Or.inr hk.symm
        · cases h
    · rintro (rfl | rfl)
      · exact ⟨hself, Or.inl rfl⟩
      · exact ⟨hfrom, Or.inr (by simp)⟩
  rw [this, Finset.card_pair (Ne.symm hne)]

theorem card_granted_reject {V : Finset ℕ} {self : ℕ} {m : Message}
    (hrej : m.reject = true) : (granted V self [m]).card ≤ 1 := by
  rw [Finset.card_le_one]
  have : ∀ k ∈ granted V self [m], k = self := by
    intro k hk
    simp only [granted, firstAnswer_single, Finset.mem_filter, hrej] at hk
    rcases hk.2 with h | h
    · exact h
    · split at h <;> simp at h
  intro a ha b hb
  rw [this a ha, this b hb]

theorem card_rejected_single (V : Finset ℕ) (self : ℕ) (m : Message) :
    (rejected V self [m]).card ≤ 1 := by
  rw [Finset.card_le_one]
  have : ∀ k ∈ rejected V self [m], k = m.from_ := by
    intro k hk
    simp only [rejected, firstAnswer_single, Finset.mem_filter] at hk
    by_contra hne
    rw [if_neg (fun h => hne h.symm)] at hk
    cases hk.2.2
  intro a ha b hb
  rw [this a ha, this b hb]

namespace Raft

variable {T : Type} {r : Raft T} {m : Message} {V : Finset ℕ}

/-! ## §2  The outcome as it should be -/

/-- A standing node right behind its `campaign`: its own vote is registered and
does not decide. -/
structure JustCampaigned [Storage T] (V : Finset ℕ) (r : Raft T) : Prop where
  standing : r.ctl.Standing
  votes : r.votes = AList.orInsert r.id true ∅
  voters : ∃ prs, r.prs = some prs ∧ prs.voterIds.keys.toFinset = V
  member : r.id ∈ V
  undecided : ¬ r.ctl.Elected
  timeouts : r.minElectionTimeout < r.maxElectionTimeout
  readable : ∃ li, r.raftLog.lastIndex = .ok li

/-- A response of the kind the node waits for. -/
def Matching (r : Raft T) (m : Message) : Prop :=
  (r.state = .PreCandidate ∧ m.msgType = .MsgRequestPreVoteResponse) ∨
    (r.state = .Candidate ∧ m.msgType = .MsgRequestVoteResponse)

/-- The node wins: it enters `become_leader`, or campaigns for a real election. -/
def Wins (r : Raft T) (o : Outcome Panic Event (Raft T) (Result Unit)) : Prop :=
  (r.state = .Candidate ∧ Event.leads r.term ∈ o.trace) ∨
    (r.state = .PreCandidate ∧ Event.hardState (r.term + 1) r.id ∈ o.trace ∧
      Event.role .Candidate ∈ o.trace)

section Outcome

variable [Storage T] [ProtoMessage Entry]

/-- The election should be won with the response that completes a majority of
grants, lost with the one that completes a majority of rejections, and stay
open otherwise. -/
def OutcomeAsClaimed (V : Finset ℕ) : List Message → List Message → Raft T → Prop
  | _, [], _ => True
  | seen, m :: ms, r =>
      let o := stepCandidate m r
      if majority V.card ≤ (granted V r.id (seen ++ [m])).card then Wins r o
      else if majority V.card ≤ (rejected V r.id (seen ++ [m])).card then
        o.value = .ok (.ok ()) ∧ o.state.state = .FOLLOWER
      else
        o.value = .ok (.ok ()) ∧ o.state.state = r.state ∧ o.state.term = r.term ∧
          o.state.vote = r.vote ∧ OutcomeAsClaimed V (seen ++ [m]) ms o.state

/-! ## §3  Responses -/

/-- A matching response is registered and the votes are polled. -/
theorem stepCandidate_response {prs : ProgressSet} (hprs : r.prs = some prs)
    (hm : r.Matching m) :
    stepCandidate m r =
      ((match prs.candidacyStatus (r.votes.orInsert m.from_ (!m.reject)) with
        | .Elected =>
            if r.state = .PreCandidate then campaign CAMPAIGN_ELECTION
            else do
              becomeLeader
              bcastAppend
        | .Ineligible => becomeFollower r.term INVALID_ID
        | .Eligible => pure ()) >>= fun _ => pure (.ok ()) :
        Call Panic Event (Raft T) (Result Unit))
        { r with votes := r.votes.orInsert m.from_ (!m.reject) } := by
  have hskip : ¬ ((r.state = .PreCandidate ∧ m.msgType ≠ .MsgRequestPreVoteResponse) ∨
      (r.state = .Candidate ∧ m.msgType ≠ .MsgRequestVoteResponse)) := by
    rcases hm with ⟨hs, ht⟩ | ⟨hs, ht⟩ <;> simp [hs, ht]
  have hresp : stepVoteResponse m r =
      (match prs.candidacyStatus (r.votes.orInsert m.from_ (!m.reject)) with
        | .Elected =>
            if r.state = .PreCandidate then campaign CAMPAIGN_ELECTION
            else do
              becomeLeader
              bcastAppend
        | .Ineligible => becomeFollower r.term INVALID_ID
        | .Eligible => pure () : Call Panic Event (Raft T) Unit)
        { r with votes := r.votes.orInsert m.from_ (!m.reject) } := by
    unfold stepVoteResponse
    rw [read_bind_run, ite_run, if_neg hskip]
    unfold registerVote
    rw [modify_bind_run]
    have hpoll := pollVotes_run (r := { r with votes := r.votes.orInsert m.from_ (!m.reject) })
      hprs
    exact bind_ok hpoll
  have hstep : stepCandidate m r = (stepVoteResponse m >>= fun _ => pure (.ok ())) r := by
    unfold stepCandidate
    rcases hm with ⟨_, ht⟩ | ⟨_, ht⟩ <;> rw [ht]
  rw [hstep, bind_run, bind_run, hresp]

end Outcome

section Methods

variable [Storage T]

/-- A real election starts with the node's own hard state. -/
theorem campaign_election_trace {li : ℕ} {prs : ProgressSet} (hrole : r.state ≠ .Leader)
    (ht : r.minElectionTimeout < r.maxElectionTimeout)
    (hli : r.raftLog.lastIndex = .ok li) (hprs : r.prs = some prs) :
    ∃ es, (campaign CAMPAIGN_ELECTION r).trace =
      [.hardState (r.term + 1) INVALID_ID, .hardState (r.term + 1) r.id, .role .Candidate]
        ++ es := by
  have hcand := becomeCandidate_ok hrole (reset_ok ht hli hprs (r.term + 1))
  rw [campaign_election]
  unfold campaignRound
  rw [if_neg (by decide)]
  obtain ⟨es, hes⟩ := bind_trace becomeCandidate _ r
  rw [hcand] at hes
  exact ⟨es, hes⟩

/-- Nobody comes out of `become_follower` standing. -/
theorem becomeFollower_leaves {term l : ℕ} {a : Unit} {r' : Raft T} {es : List Event}
    (h : becomeFollower term l r = ⟨.ok a, r', es⟩) : r'.state = .FOLLOWER := by
  rcases reset_cases term r with ⟨li, prs, _, _, hrun⟩ | ⟨p, r'', hrun, _⟩
  · rw [becomeFollower_ok hrun] at h
    cases h
    rfl
  · unfold becomeFollower at h
    rw [bind_error hrun] at h
    cases h

/-! ## §4  When the outcome is as it should be -/

/-- A standing node that asked the others has just campaigned. -/
theorem JustCampaigned.of_ctl {c : Ctl} {ms : List Message} {prs : ProgressSet} {li : ℕ}
    (hstand : c.Standing) (hvotes : c.votes = ∅) (hel : ¬ (c.count c.id true).Elected)
    (hctl : r.ctl = (c.count c.id true).push ms) (hprs : r.prs = some prs)
    (hV : prs.voterIds.keys.toFinset = V) (hmem : r.id ∈ V)
    (ht : r.minElectionTimeout < r.maxElectionTimeout)
    (hli : r.raftLog.lastIndex = .ok li) : JustCampaigned V r where
  standing := by rw [hctl]; exact hstand
  votes := by
    rw [show r.id = c.id from congrArg Ctl.id hctl, ← hvotes]
    exact congrArg Ctl.votes hctl
  voters := ⟨prs, hprs, hV⟩
  member := hmem
  undecided := by rw [hctl]; exact hel
  timeouts := ht
  readable := ⟨li, hli⟩

/-- So has every candidate that `campaign` returned. -/
theorem Campaigned.justCampaigned {r₀ : Raft T} {prs : ProgressSet} {li : ℕ}
    (h : Campaigned r₀ r) (hrole : r.state = .Candidate) (hprs : r.prs = some prs)
    (hV : prs.voterIds.keys.toFinset = V) (hmem : r.id ∈ V)
    (ht : r.minElectionTimeout < r.maxElectionTimeout)
    (hli : r.raftLog.lastIndex = .ok li) : JustCampaigned V r := by
  rcases h with hlead | ⟨hel, ms, hctl⟩
  · rw [hrole] at hlead
    cases hlead
  · exact .of_ctl (c := r₀.ctl.campaign) (Or.inr rfl) rfl hel hctl hprs hV hmem ht hli

/-- And every pre-candidate. -/
theorem PreCampaigned.justCampaigned {r₀ : Raft T} {prs : ProgressSet} {li : ℕ}
    (h : PreCampaigned r₀ r) (hrole : r.state = .PreCandidate) (hprs : r.prs = some prs)
    (hV : prs.voterIds.keys.toFinset = V) (hmem : r.id ∈ V)
    (ht : r.minElectionTimeout < r.maxElectionTimeout)
    (hli : r.raftLog.lastIndex = .ok li) : JustCampaigned V r := by
  rcases h with hne | ⟨hel, ms, hctl⟩
  · exact absurd hrole hne
  · exact .of_ctl (c := r₀.ctl.preCampaign) (Or.inl rfl) rfl hel hctl hprs hV hmem ht hli

/-- Right behind a campaign only the own vote is registered. -/
theorem JustCampaigned.lookup_votes (h : JustCampaigned V r) (k : ℕ) :
    r.votes.lookup k = if k = r.id then some true else none := by
  rw [h.votes]
  by_cases hk : k = r.id
  · subst hk
    rw [AList.lookup_orInsert_self, if_pos rfl]
    rfl
  · rw [AList.lookup_orInsert_ne _ _ hk, if_neg hk]
    rfl

/-- Right behind a campaign a majority is at least two. -/
theorem JustCampaigned.two_le (h : JustCampaigned V r) : 2 ≤ majority V.card := by
  obtain ⟨prs, hprs, hV⟩ := h.voters
  have hone : granters r.votes = {r.id} := by
    ext k
    rw [mem_granters, h.lookup_votes, Finset.mem_singleton]
    split <;> simp [*]
  have hund := h.undecided
  rw [Ctl.Elected, ctl_voters hprs, ← AList.card_keys, hV,
    show r.ctl.votes = r.votes from rfl, hone, Finset.card_singleton] at hund
  omega

theorem JustCampaigned.lookup_response (h : JustCampaigned V r) (hne : m.from_ ≠ r.id)
    (k : ℕ) : (r.votes.orInsert m.from_ (!m.reject)).lookup k =
      if k = m.from_ then some (!m.reject) else if k = r.id then some true else none := by
  have hnone : r.votes.lookup m.from_ = none := by rw [h.lookup_votes, if_neg hne]
  by_cases hk : k = m.from_
  · subst hk
    rw [AList.lookup_orInsert_self, hnone, if_pos rfl, Option.getD_none]
  · rw [AList.lookup_orInsert_ne _ _ hk, h.lookup_votes, if_neg hk]

theorem JustCampaigned.granters_response (h : JustCampaigned V r) (hne : m.from_ ≠ r.id) :
    granters (r.votes.orInsert m.from_ (!m.reject)) =
      if m.reject then {r.id} else {m.from_, r.id} := by
  ext k
  rw [mem_granters, h.lookup_response hne]
  by_cases hk : k = m.from_
  · subst hk
    cases m.reject <;> simp [hne]
  · by_cases hk' : k = r.id
    · subst hk'
      cases m.reject <;> simp [hk]
    · cases m.reject <;> simp [hk, hk']

theorem JustCampaigned.rejecters_response (h : JustCampaigned V r) (hne : m.from_ ≠ r.id) :
    rejecters (r.votes.orInsert m.from_ (!m.reject)) =
      if m.reject then {m.from_} else ∅ := by
  ext k
  rw [mem_rejecters, h.lookup_response hne]
  by_cases hk : k = m.from_
  · subst hk
    cases m.reject <;> simp
  · by_cases hk' : k = r.id <;> cases m.reject <;> simp [hk, hk']

/-- The verdict on the first response: won with a majority of two, and otherwise
`Ineligible`, whatever the response says. -/
theorem JustCampaigned.status (h : JustCampaigned V r) {prs : ProgressSet}
    (hV : prs.voterIds.keys.toFinset = V) (hne : m.from_ ≠ r.id) :
    prs.candidacyStatus (r.votes.orInsert m.from_ (!m.reject)) =
      if m.reject = false ∧ V.card ≤ 3 then .Elected else .Ineligible := by
  have htwo := h.two_le
  have hsize : prs.voterIds.size = V.card := by rw [← AList.card_keys, hV]
  rw [ProgressSet.candidacyStatus_eq, hsize, h.granters_response hne, h.rejecters_response hne]
  cases m.reject with
  | false =>
      simp only [Bool.false_eq_true, if_false, Finset.card_pair hne, Finset.card_empty]
      by_cases h3 : V.card ≤ 3
      · rw [if_pos (by unfold majority; omega), if_pos ⟨trivial, h3⟩]
      · rw [if_neg (by unfold majority; omega), if_neg (by omega), if_neg (by tauto)]
  | true =>
      simp only [if_true, Finset.card_singleton]
      rw [if_neg (by omega), if_neg (by omega), if_neg (by simp)]

/-- One response completes a majority of grants if it is the second of two. -/
theorem JustCampaigned.majority_granted_iff (h : JustCampaigned V r) (hfrom : m.from_ ∈ V)
    (hne : m.from_ ≠ r.id) :
    majority V.card ≤ (granted V r.id [m]).card ↔ m.reject = false ∧ V.card ≤ 3 := by
  cases hrej : m.reject with
  | false =>
      rw [card_granted_grant h.member hfrom hne hrej, and_iff_right rfl]
      unfold majority
      omega
  | true =>
      have htwo := h.two_le
      have hone : (granted V r.id [m]).card ≤ 1 := card_granted_reject hrej
      simp only [Bool.true_eq_false, false_and, iff_false]
      omega

variable [ProtoMessage Entry]

/-- With a majority of two, the first grant wins. -/
theorem JustCampaigned.wins (h : JustCampaigned V r) (hmatch : r.Matching m)
    (hne : m.from_ ≠ r.id) (hgood : m.reject = false ∧ V.card ≤ 3) :
    Wins r (stepCandidate m r) := by
  obtain ⟨prs, hprs, hV⟩ := h.voters
  obtain ⟨li, hli⟩ := h.readable
  rw [stepCandidate_response hprs hmatch, h.status hV hne, if_pos hgood]
  rcases h.standing with hpre | hcand
  · -- a won pre-election: the campaign for the real one begins
    rw [if_pos (show r.state = .PreCandidate from hpre)]
    right
    obtain ⟨es, hes⟩ := campaign_election_trace
      (r := { r with votes := r.votes.orInsert m.from_ (!m.reject) })
      (by rw [show r.state = .PreCandidate from hpre]; decide) h.timeouts hli hprs
    obtain ⟨es', hes'⟩ := bind_trace (campaign CAMPAIGN_ELECTION)
      (fun _ => (pure (.ok ()) : Call Panic Event (Raft T) (Result Unit)))
      { r with votes := r.votes.orInsert m.from_ (!m.reject) }
    rw [hes', hes]
    exact ⟨hpre, by simp, by simp⟩
  · -- a won election: `become_leader` is entered
    rw [if_neg (by rw [show r.state = .Candidate from hcand]; decide)]
    left
    obtain ⟨es, hes⟩ := becomeLeader_trace
      { r with votes := r.votes.orInsert m.from_ (!m.reject) }
    rw [bind_assoc_run]
    obtain ⟨es', hes'⟩ := bind_trace becomeLeader
      (fun _ => bcastAppend >>= fun _ =>
        (pure (.ok ()) : Call Panic Event (Raft T) (Result Unit)))
      { r with votes := r.votes.orInsert m.from_ (!m.reject) }
    rw [hes', hes]
    exact ⟨hcand, by simp⟩

/-- Every other first response ends the election, or the node. -/
theorem JustCampaigned.gives_up (h : JustCampaigned V r) (hmatch : r.Matching m)
    (hne : m.from_ ≠ r.id) (hbad : ¬ (m.reject = false ∧ V.card ≤ 3))
    (hval : (stepCandidate m r).value = .ok (.ok ())) :
    (stepCandidate m r).state.state ≠ r.state := by
  obtain ⟨prs, hprs, hV⟩ := h.voters
  have hrun := stepCandidate_response hprs hmatch
  rw [h.status hV hne, if_neg hbad] at hrun
  rw [hrun] at hval ⊢
  cases hbf : becomeFollower r.term INVALID_ID
      { r with votes := r.votes.orInsert m.from_ (!m.reject) } with
  | mk v r' es =>
    cases v with
    | error p =>
        rw [bind_error hbf] at hval
        cases hval
    | ok a =>
        rw [bind_ok hbf]
        intro hstate
        have hfol : r'.state = r.state := hstate
        rw [becomeFollower_leaves hbf] at hfol
        rcases h.standing with hs | hs
        · rw [show r.state = .PreCandidate from hs] at hfol
          cases hfol
        · rw [show r.state = .Candidate from hs] at hfol
          cases hfol

/-- The first response is met as it should be if and only if it is a grant that
completes a majority of two; nothing that follows matters. -/
theorem outcomeAsClaimed_iff (h : JustCampaigned V r) (ms : List Message)
    (hms : ∀ m ∈ ms, r.Matching m ∧ m.from_ ∈ V ∧ m.from_ ≠ r.id) :
    OutcomeAsClaimed V [] ms r ↔
      ms = [] ∨ ∃ m rest, ms = m :: rest ∧ m.reject = false ∧ V.card ≤ 3 := by
  cases ms with
  | nil => exact ⟨fun _ => Or.inl rfl, fun _ => trivial⟩
  | cons m rest =>
      obtain ⟨hmatch, hfrom, hne⟩ := hms m List.mem_cons_self
      have hgranted := h.majority_granted_iff hfrom hne
      simp only [OutcomeAsClaimed, List.nil_append]
      constructor
      · intro hclaim
        by_cases hgood : m.reject = false ∧ V.card ≤ 3
        · exact Or.inr ⟨m, rest, rfl, hgood⟩
        · -- the election is open, and given up
          have htwo := h.two_le
          have hone := card_rejected_single V r.id m
          rw [if_neg (fun hwon => hgood (hgranted.mp hwon)), if_neg (by omega)] at hclaim
          obtain ⟨hval, hstate, _⟩ := hclaim
          exact absurd hstate (h.gives_up hmatch hne hgood hval)
      · rintro (hnil | ⟨m', rest', heq, hgood⟩)
        · cases hnil
        · cases heq
          rw [if_pos (hgranted.mpr hgood)]
          exact h.wins hmatch hne hgood

end Methods

/-! The three-voter cluster, right behind the campaign of node `1`: a grant wins
it, a single rejection ends it although the election is open. -/

def standingNode : Raft MemStorage := (campaign CAMPAIGN_ELECTION (memNode 1 [1, 2, 3] [])).state

def grantOf (id : ℕ) : Message := { msgType := .MsgRequestVoteResponse, from_ := id, term := 1 }

theorem justCampaigned_standingNode : JustCampaigned {1, 2, 3} standingNode where
  standing := by right; decide +kernel
  votes := AList.ext (by decide +kernel)
  voters := by
    have hsome : standingNode.prs.isSome = true := by decide +kernel
    exact ⟨standingNode.prs.get hsome, (Option.some_get hsome).symm, by decide +kernel +revert⟩
  member := by decide +kernel
  undecided := by unfold Ctl.Elected; decide +kernel
  timeouts := by decide +kernel
  readable := ⟨0, by decide +kernel⟩

theorem outcomeAsClaimed_grant :
    OutcomeAsClaimed {1, 2, 3} [] [grantOf 2, grantOf 3] standingNode := by
  apply (outcomeAsClaimed_iff justCampaigned_standingNode [grantOf 2, grantOf 3] ?_).mpr
  · exact Or.inr ⟨grantOf 2, [grantOf 3], rfl, rfl, by decide⟩
  · unfold Matching
    decide +kernel

theorem not_outcomeAsClaimed_reject :
    JustCampaigned {1, 2, 3} standingNode ∧
      standingNode.Matching { grantOf 2 with reject := true } ∧
      ¬ OutcomeAsClaimed {1, 2, 3} [] [{ grantOf 2 with reject := true }] standingNode := by
  refine ⟨justCampaigned_standingNode, by unfold Matching; decide +kernel, ?_⟩
  intro h
  simp only [OutcomeAsClaimed] at h
  rw [if_neg (by decide +kernel), if_neg (by decide +kernel)] at h
  have hfollows : (stepCandidate { grantOf 2 with reject := true } standingNode).state.state =
      .FOLLOWER := by decide +kernel
  rw [hfollows] at h
  exact absurd h.2.1 (by decide +kernel)

end Raft

end RsRaft
