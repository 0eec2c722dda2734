import RsRaft.RaftControl

/-!
# Every method as a sequence of moves

One lemma per method of the node, along the call graph: what is not a move of
the control state leaves it alone, and `step` and `tick` are sequences of moves.

§1 shared rules · §2 role changes · §3 campaigning · §4 handlers · §5 appends to
the peers · §6 the arms of `step` · §7 ticks.
-/

namespace RsRaft

namespace Raft

open Call Ctl

variable {T : Type}

/-! ## §1  Shared rules -/

theorem does_send_refused {B : Behaviour Event (Raft T)} {q : Message} (h : q.term = 0)
    (r : Raft T) (hB : B.stops r [.handed q] r) {Q : Unit → Raft T → Prop} :
    Does B r (send q) Q :=
  Does.of_error (send_of_term_eq_zero h r) hB

theorem Lax.send {B : Behaviour Event (Raft T)} (hB : Lax B) {q : Message} (h : q.term = 0)
    (r : Raft T) {Q : Unit → Raft T → Prop} : Does B r (Raft.send q) Q :=
  does_send_refused h r (hB.refuses r q h)

theorem does_getPrs_bind {β : Type} {B : Behaviour Event (Raft T)} {r : Raft T}
    {f : ProgressSet → Call Panic Event (Raft T) β} {R : β → Raft T → Prop}
    (h : ∀ p, r.prs = some p → Does B r (f p) R) : Does B r (getPrs >>= f) R := by
  cases hprs : r.prs with
  | none =>
      refine Does.of_run_eq (y := panic .unwrapNone) ?_ (Does.panic _)
      simp [getPrs, hprs]
  | some p =>
      refine Does.of_run_eq (y := f p) ?_ (h p hprs)
      simp [getPrs, hprs]

/-- The verdict is about the votes and voters of the control state. -/
theorem does_pollVotes_bind {β : Type} {B : Behaviour Event (Raft T)} {r : Raft T}
    {f : CandidacyStatus → Call Panic Event (Raft T) β} {R : β → Raft T → Prop}
    (h : ∀ st, (st = .Elected ↔ r.ctl.Elected) → Does B r (f st) R) :
    Does B r (pollVotes >>= f) R := by
  unfold pollVotes
  refine Does.of_run_eq (bind_assoc_run _ _ _ _) (does_getPrs_bind fun p hp => ?_)
  refine h (p.candidacyStatus r.votes) ?_
  have hel : r.ctl.Elected ↔ majority p.voterIds.size ≤ (granters r.votes).card := by
    simp [Ctl.Elected, Raft.ctl, hp]
  rw [ProgressSet.candidacyStatus_eq, hel]
  split
  · rename_i hle
    simp [hle]
  · rename_i hle
    split <;> simp [hle]

/-! ## §2  Role changes -/

section Methods

variable [Storage T] {m : Message} {r : Raft T}

omit [Storage T] in
theorem ctl_resetTo {prs : ProgressSet} (hprs : r.prs = some prs) (term li : ℕ) :
    (r.resetTo term li prs).ctl = r.ctl.reset term := by
  simp [Raft.ctl, Ctl.reset, Raft.resetTo, hprs, resetProgress, ProgressSet.voterIds]

theorem becomeFollower_ok {term li : ℕ} {prs : ProgressSet}
    (h : reset term r = ⟨.ok (), r.resetTo term li prs, resetEvents r.term term⟩) (l : ℕ) :
    becomeFollower term l r =
      ⟨.ok (), { r.resetTo term li prs with leaderId := l, state := .FOLLOWER },
        resetEvents r.term term ++ [.role .FOLLOWER]⟩ := by
  unfold becomeFollower
  rw [bind_ok h]
  simp [setState]

/-- What `become_follower` does, for any behaviour: its `reset` panics, or it
gets to the end. -/
theorem does_becomeFollower_of {B : Behaviour Event (Raft T)} {term l : ℕ}
    (hstop : ∀ r', ResetStops r term r' → B.stops r (resetEvents r.term term) r')
    (hrun : ∀ r' : Raft T, r'.ctl = r.ctl.follow term l → r'.raftLog = r.raftLog →
      B.runs r (resetEvents r.term term ++ [.role .FOLLOWER]) r') :
    Does B r (becomeFollower term l)
      (fun _ r' => r'.ctl = r.ctl.follow term l ∧ r'.raftLog = r.raftLog) := by
  rcases reset_cases term r with ⟨li, prs, hli, hprs, hreset⟩ | ⟨p, r', hreset, hr'⟩
  · have hctl : ({ r.resetTo term li prs with leaderId := l, state := .FOLLOWER } : Raft T).ctl
        = r.ctl.follow term l := by
      show ({ (r.resetTo term li prs).ctl with leader := l, role := .FOLLOWER } : Ctl) = _
      rw [ctl_resetTo hprs]
      rfl
    exact Does.of_ok (becomeFollower_ok hreset l) (hrun _ hctl rfl) ⟨hctl, rfl⟩
  · refine Does.of_error (p := p) (t := r') ?_ (hstop r' hr')
    unfold becomeFollower
    rw [bind_error hreset]

theorem does_becomeFollower {term l : ℕ} (h : Follows m r.ctl term l) :
    Does (moving T m) r (becomeFollower term l) (fun _ r' => r'.ctl = r.ctl.follow term l) := by
  refine (does_becomeFollower_of ?_ ?_).weaken fun _ _ hr' => hr'.1
  · intro r' hr'
    show Breaks m r.ctl _ r'.msgs
    rw [hr'.msgs]
    exact (Move.follow h).breaks
  · intro r' hctl _
    show Moves m r.ctl _ r'.ctl
    rw [hctl]
    exact (Move.follow h).moves

omit [Storage T] in
theorem does_becomePreCandidate (hm : m.msgType = .MsgHup) (ha : r.ctl.Admits m)
    (hpv : r.preVote = true) :
    Does (moving T m) r becomePreCandidate (fun _ r' => r'.ctl = r.ctl.preCampaign) := by
  unfold becomePreCandidate
  apply Does.read_bind
  refine Does.ite (fun _ => Does.panic _) fun hrole => ?_
  refine Does.of_ok (a := ())
    (t := { r with state := .PreCandidate, votes := ∅, leaderId := INVALID_ID })
    (l := [.role .PreCandidate]) ?_ ?_ rfl
  · simp [setState]
  · exact (Move.preCampaign (c := r.ctl) hm ha hrole hpv).moves

theorem becomeCandidate_ok {li : ℕ} {prs : ProgressSet} (hrole : r.state ≠ .Leader)
    (h : reset (r.term + 1) r = ⟨.ok (), r.resetTo (r.term + 1) li prs,
      resetEvents r.term (r.term + 1)⟩) :
    becomeCandidate r =
      ⟨.ok (), { r.resetTo (r.term + 1) li prs with vote := r.id, state := .Candidate },
        [.hardState (r.term + 1) INVALID_ID, .hardState (r.term + 1) r.id,
          .role .Candidate]⟩ := by
  unfold becomeCandidate
  rw [read_bind_run, ite_run, if_neg hrole, bind_ok h]
  simp [setState, resetTo, resetEvents]

theorem does_becomeCandidate_of {B : Behaviour Event (Raft T)}
    (hstop : r.state ≠ .Leader → ∀ r', ResetStops r (r.term + 1) r' →
      B.stops r [.hardState (r.term + 1) INVALID_ID] r')
    (hrun : r.state ≠ .Leader → ∀ r' : Raft T, r'.ctl = r.ctl.campaign →
      r'.raftLog = r.raftLog → B.runs r [.hardState (r.term + 1) INVALID_ID,
        .hardState (r.term + 1) r.id, .role .Candidate] r') :
    Does B r becomeCandidate
      (fun _ r' => r'.ctl = r.ctl.campaign ∧ r'.raftLog = r.raftLog) := by
  by_cases hrole : r.state = .Leader
  · refine Does.of_run_eq (y := panic .assertion) ?_ (Does.panic _)
    unfold becomeCandidate
    rw [read_bind_run, ite_run, if_pos hrole]
  rcases reset_cases (r.term + 1) r with ⟨li, prs, hli, hprs, hreset⟩ | ⟨p, r', hreset, hr'⟩
  · have hctl : ({ r.resetTo (r.term + 1) li prs with
        vote := r.id, state := .Candidate } : Raft T).ctl = r.ctl.campaign := by
      show ({ (r.resetTo (r.term + 1) li prs).ctl with
        vote := r.id, role := .Candidate } : Ctl) = _
      rw [ctl_resetTo hprs]
      rfl
    exact Does.of_ok (becomeCandidate_ok hrole hreset) (hrun hrole _ hctl rfl) ⟨hctl, rfl⟩
  · rw [resetEvents, if_neg (Nat.succ_ne_self r.term).symm] at hreset
    refine Does.of_error (p := p) (t := r') ?_ (hstop hrole r' hr')
    unfold becomeCandidate
    rw [read_bind_run, ite_run, if_neg hrole, bind_error hreset]

theorem does_becomeCandidate
    (h : (m.msgType = .MsgHup ∧ r.ctl.Admits m ∧ r.preVote = false) ∨
      (Elects m ∧ r.state = .PreCandidate ∧ r.ctl.Elected)) :
    Does (moving T m) r becomeCandidate (fun _ r' => r'.ctl = r.ctl.campaign) := by
  refine (does_becomeCandidate_of ?_ ?_).weaken fun _ _ hr' => hr'.1
  · intro hrole r' hr'
    show Breaks m r.ctl _ r'.msgs
    rw [hr'.msgs]
    exact Move.breaks (l := [_, _]) (Move.campaign (c := r.ctl) hrole h)
  · intro hrole r' hctl _
    show Moves m r.ctl _ r'.ctl
    rw [hctl]
    exact (Move.campaign (c := r.ctl) hrole h).moves

section OfCtl

variable {B : Behaviour Event (Raft T)} (hB : OfCtl B)

include hB

omit [Storage T] in
theorem does_updateOwnProgress (f : Progress → Progress) (r : Raft T) :
    Does B r (updateOwnProgress f) (fun _ r' => r'.state = r.state) := by
  unfold updateOwnProgress
  refine Does.read_bind (does_getPrs_bind fun p hp => ?_)
  cases hget : p.get r.id with
  | none => exact Does.panic _
  | some pr =>
      refine Does.of_ok (a := ()) rfl (hB _ _ ?_) rfl
      simp [Raft.ctl, hp, ProgressSet.put, ProgressSet.voterIds]

theorem does_maybeCommit (r : Raft T) :
    Does B r maybeCommit (fun _ r' => r'.state = r.state) := by
  unfold maybeCommit
  refine does_getPrs_bind fun p _ => Does.lift_bind fun mci _ => ?_
  refine Does.read_bind (Does.lift_bind fun a _ => ?_)
  exact Does.modify_bind (hB _ _ rfl) (Does.pure rfl)

theorem does_appendEntry (ents : List Entry) (r : Raft T) :
    Does B r (appendEntry ents) (fun _ r' => r'.state = r.state) := by
  unfold appendEntry
  refine Does.read_bind (Does.lift_bind fun li _ => Does.lift_bind fun a _ => ?_)
  refine Does.modify_bind (hB _ _ rfl) ?_
  refine Does.bind (does_updateOwnProgress hB _ _) fun _ r' hr' => ?_
  exact Does.bind (does_maybeCommit hB r') fun _ _ h => Does.pure (h.trans hr')

end OfCtl

/-- Entering `become_leader` is the first thing to be seen of it. -/
theorem becomeLeader_trace (r : Raft T) :
    ∃ es, (becomeLeader r).trace = .leads r.term :: es := by
  unfold becomeLeader
  rw [read_bind_run, emit_bind_run]
  exact ⟨_, rfl⟩

theorem becomeLeader_head {li : ℕ} {prs : ProgressSet} (hrole : r.state ≠ .Leader)
    (h : reset r.term r = ⟨.ok (), r.resetTo r.term li prs, []⟩) :
    becomeLeader r =
      ((do updateOwnProgress Progress.becomeReplicate
           let self ← read
           let lastIndex ← lift self.raftLog.lastIndex
           modify fun self => { self with pendingConfIndex := lastIndex }
           appendEntry [{}]) { r.resetTo r.term li prs with leaderId := r.id, state := .Leader }
      : Outcome Panic Event (Raft T) Unit).after [.leads r.term, .role .Leader] := by
  unfold becomeLeader
  rw [read_bind_run, emit_bind_run, ite_run, if_neg hrole, bind_ok h]
  simp [setState, resetTo, Outcome.after]

/-- Behind the role change a new leader sets up its own progress and appends its
first entry, which is no business of the control state. -/
theorem does_becomeLeader_of {B : Behaviour Event (Raft T)} (hB : OfCtl B)
    (hagain : r.state = .Leader → B.stops r [.leads r.term] r)
    (hstop : ∀ r', ResetStops r r.term r' → B.stops r [.leads r.term] r')
    (hrun : ∀ r' : Raft T, r'.ctl = r.ctl.lead → B.runs r [.leads r.term, .role .Leader] r') :
    Does B r becomeLeader (fun _ r' => r'.state = .Leader) := by
  by_cases hrole : r.state = .Leader
  · refine Does.of_error (p := .assertion) (t := r) (l := [.leads r.term]) ?_ (hagain hrole)
    unfold becomeLeader
    rw [read_bind_run, emit_bind_run, ite_run, if_pos hrole]
    rfl
  have hev : resetEvents r.term r.term = [] := if_pos rfl
  rcases reset_cases r.term r with ⟨li, prs, _, hprs, hreset⟩ | ⟨p, r', hreset, hr'⟩
  · rw [hev] at hreset
    have hctl : ({ r.resetTo r.term li prs with
        leaderId := r.id, state := .Leader } : Raft T).ctl = r.ctl.lead := by
      show ({ (r.resetTo r.term li prs).ctl with leader := r.id, role := .Leader } : Ctl) = _
      rw [ctl_resetTo hprs]
      rfl
    refine Does.of_run_eq (y := (fun _ => ⟨.ok (), { r.resetTo r.term li prs with
        leaderId := r.id, state := .Leader }, [.leads r.term, .role .Leader]⟩) >>= fun _ => _)
      (becomeLeader_head hrole hreset) ?_
    refine Does.bind (Q := fun _ r' => r'.state = .Leader) ?_ fun _ r' hr' => ?_
    · exact Does.of_ok rfl (hrun _ hctl) rfl
    · refine Does.bind (does_updateOwnProgress hB _ r') fun _ r'' hr'' => ?_
      refine Does.read_bind (Does.lift_bind fun li _ => ?_)
      refine Does.modify_bind (hB _ _ rfl) ?_
      exact (does_appendEntry hB _ _).weaken fun _ _ h => h.trans (hr''.trans hr')
  · rw [hev] at hreset
    refine Does.of_error (p := p) (t := r') ?_ (hstop r' hr')
    unfold becomeLeader
    rw [read_bind_run, emit_bind_run, ite_run, if_neg hrole, bind_error hreset]
    rfl

theorem does_becomeLeader (hm : Elects m) (hrole : r.state = .Candidate) (h : r.ctl.Elected) :
    Does (moving T m) r becomeLeader (fun _ r' => r'.state = .Leader) := by
  have hmove := Move.lead (c := r.ctl) hm hrole h
  apply does_becomeLeader_of (ofCtl_moving m)
  · intro hlead
    exact absurd (hrole.symm.trans hlead) (by decide)
  · intro r' hr'
    show Breaks m r.ctl _ r'.msgs
    rw [hr'.msgs]
    exact Move.breaks (l := [_]) hmove
  · intro r' hctl
    show Moves m r.ctl _ r'.ctl
    rw [hctl]
    exact hmove.moves

/-! ## §3  Campaigning -/

/-- One vote request is one message that gets through `send`. -/
theorem does_requestVote {B : Behaviour Event (Raft T)} (ct : Bytes) {voteMsg : MessageType}
    {term id : ℕ} (hv : isVoteMessage voteMsg = true) (hterm : term ≠ 0) (r : Raft T)
    (hB : ∀ q : Message, q.msgType = voteMsg → q.to_ = id → q.term = term →
      B.runs r [.handed q] (r.push [q])) :
    Does B r (requestVote ct voteMsg term id) (fun _ _ => True) := by
  unfold requestVote
  refine Does.read_bind (Does.lift_bind fun index _ => Does.lift_bind fun logTerm _ => ?_)
  dsimp only
  generalize hq : (if ct = CAMPAIGN_TRANSFER then _ else _ : Message) = q
  have hfields : q.msgType = voteMsg ∧ q.to_ = id ∧ q.term = term := by
    rw [← hq]
    split <;> exact ⟨rfl, rfl, rfl⟩
  obtain ⟨htype, hto, hqterm⟩ := hfields
  have hsend := send_of_vote (q := q) (by rw [htype]; exact hv) (by rw [hqterm]; exact hterm) r
  exact Does.of_ok hsend (hB q htype hto hqterm) trivial

theorem does_requestVotes (ct : Bytes) {voteMsg : MessageType} {term : ℕ}
    (hv : isVoteMessage voteMsg = true) (hterm : term ≠ 0)
    (hq : ∀ q : Message, q.msgType = voteMsg → q.to_ ∈ r.ctl.voters → q.to_ ≠ r.ctl.id →
      q.term = term → Queues m r.ctl q) :
    Does (moving T m) r (requestVotes ct voteMsg term)
      (fun _ r' => ∃ ms, r'.ctl = r.ctl.push ms) := by
  unfold requestVotes
  apply Does.read_bind
  refine does_taken (r := r) (b := fun p _ => p)
    (P := fun q => q.msgType = voteMsg ∧ q.to_ ∈ r.ctl.voters ∧ q.to_ ≠ r.ctl.id ∧ q.term = term)
    ?_ ?_
  · rintro q ⟨htype, hto, hself, hqterm⟩
    exact ⟨hq q htype hto hself hqterm, by rw [hqterm]; exact hterm⟩
  · intro p hp
    refine (Does.forM (I := fun _ => True) trivial ?_).weaken fun _ _ _ => rfl
    intro id hid t _
    obtain ⟨hmem, hne⟩ := List.mem_filter.mp hid
    refine does_requestVote ct hv hterm t fun q htype hto hqterm => ⟨[q], ?_, rfl, rfl⟩
    intro q' hq'
    obtain rfl := List.mem_singleton.mp hq'
    subst hto
    have hself : q'.to_ ≠ r.id := by simpa using hne
    exact ⟨htype, by rw [ctl_voters hp]; exact AList.mem_keys.mpr hmem, hself, hqterm⟩

/-- The two parts of a round behind the role change: either the own vote already
decides, or the other voters are asked. -/
theorem does_campaignRound_tail {elected : Call Panic Event (Raft T) Unit} (ct : Bytes)
    {E : Raft T → Prop} (hm : Elects m) (hstand : r.ctl.Standing)
    (hpre : ct = CAMPAIGN_PRE_ELECTION → r.state = .PreCandidate)
    (hreal : ct ≠ CAMPAIGN_PRE_ELECTION → r.state = .Candidate ∧ r.term ≠ 0)
    (helected : ∀ r' : Raft T, r'.state = r.state → r'.ctl.Elected →
      Does (moving T m) r' elected (fun _ r'' => E r'')) :
    Does (moving T m) r
      (do let self ← read
          voteForSelf
          match ← pollVotes with
          | .Elected => elected
          | _ =>
              if ct = CAMPAIGN_PRE_ELECTION then
                requestVotes ct .MsgRequestPreVote (self.term + 1)
              else requestVotes ct .MsgRequestVote self.term)
      (fun _ r' => E r' ∨ (¬ (r.ctl.count r.id true).Elected ∧
        ∃ ms, r'.ctl = (r.ctl.count r.id true).push ms)) := by
  -- the requests ask for the term in which the round began
  have hrequests : ∀ r' : Raft T, r'.state = r.state → r'.term = r.term →
      Does (moving T m) r'
        (if ct = CAMPAIGN_PRE_ELECTION then
          requestVotes ct .MsgRequestPreVote (r.term + 1)
        else requestVotes ct .MsgRequestVote r.term)
        (fun _ r'' => ∃ ms, r''.ctl = r'.ctl.push ms) := by
    intro r' hstate hterm
    refine Does.ite (fun hct => ?_) fun hct => ?_
    · refine does_requestVotes ct rfl (by omega) fun q htype hto hself hq => ?_
      exact .preRequest (hstate.trans (hpre hct)) htype hto hself (by rw [hq, ← hterm]; rfl)
    · obtain ⟨hrole, hterm0⟩ := hreal hct
      refine does_requestVotes ct rfl hterm0 fun q htype hto hself hq => ?_
      exact .request (hstate.trans hrole) htype hto hself (by rw [hq, ← hterm]; rfl)
  apply Does.read_bind
  refine Does.bind (Q := fun _ r' => r'.ctl = r.ctl.count r.id true) ?_ fun _ r' hctl => ?_
  · exact Does.of_ok rfl (Move.ownVote hm hstand).moves rfl
  · have hstate : r'.state = r.state := congrArg Ctl.role hctl
    have hterm : r'.term = r.term := congrArg Ctl.term hctl
    rw [← hctl]
    refine does_pollVotes_bind fun st hst => ?_
    cases st with
    | Elected => exact (helected r' hstate (hst.mp rfl)).weaken fun _ _ h => Or.inl h
    | Eligible =>
        refine (hrequests r' hstate hterm).weaken fun _ _ h => Or.inr ⟨fun hel => ?_, h⟩
        cases hst.mpr hel
    | Ineligible =>
        refine (hrequests r' hstate hterm).weaken fun _ _ h => Or.inr ⟨fun hel => ?_, h⟩
        cases hst.mpr hel

/-- What a campaign for a real election leaves behind when it returns: a leader,
or a candidate whose own vote is the only one and not enough. -/
def Campaigned (r r' : Raft T) : Prop :=
  r'.state = .Leader ∨ (¬ (r.ctl.campaign.count r.id true).Elected ∧
    ∃ ms, r'.ctl = (r.ctl.campaign.count r.id true).push ms)

/-- What a pre-campaign leaves behind when it returns. -/
def PreCampaigned (r r' : Raft T) : Prop :=
  r'.state ≠ .PreCandidate ∨ (¬ (r.ctl.preCampaign.count r.id true).Elected ∧
    ∃ ms, r'.ctl = (r.ctl.preCampaign.count r.id true).push ms)

theorem does_campaign_election
    (h : (m.msgType = .MsgHup ∧ r.ctl.Admits m ∧ r.preVote = false) ∨
      (Elects m ∧ r.state = .PreCandidate ∧ r.ctl.Elected)) :
    Does (moving T m) r (campaignRound CAMPAIGN_ELECTION becomeLeader)
      (fun _ r' => Campaigned r r') := by
  have hne : CAMPAIGN_ELECTION ≠ CAMPAIGN_PRE_ELECTION := by decide
  have hm : Elects m := h.elim (fun hup => Or.inl hup.1) And.left
  unfold campaignRound
  rw [if_neg hne]
  refine Does.bind (does_becomeCandidate h) fun _ r' hr' => ?_
  have hrole : r'.state = .Candidate := congrArg Ctl.role hr'
  have hterm : r'.term = r.term + 1 := congrArg Ctl.term hr'
  have hid : r'.id = r.id := congrArg Ctl.id hr'
  unfold Campaigned
  rw [← hid, ← hr']
  refine does_campaignRound_tail CAMPAIGN_ELECTION hm (Or.inr hrole) (fun h => absurd h hne)
    (fun _ => ⟨hrole, by omega⟩) fun r'' hr'' hel => ?_
  exact does_becomeLeader hm (hr''.trans hrole) hel

theorem does_campaign_preElection (hm : m.msgType = .MsgHup) (ha : r.ctl.Admits m)
    (hpv : r.preVote = true) :
    Does (moving T m) r (campaign CAMPAIGN_PRE_ELECTION) (fun _ r' => PreCampaigned r r') := by
  unfold campaign
  rw [if_pos rfl]
  unfold campaignRound
  rw [if_pos rfl]
  refine Does.bind (does_becomePreCandidate hm ha hpv) fun _ r' hr' => ?_
  have hrole : r'.state = .PreCandidate := congrArg Ctl.role hr'
  have hid : r'.id = r.id := congrArg Ctl.id hr'
  unfold PreCampaigned
  rw [← hid, ← hr']
  refine does_campaignRound_tail CAMPAIGN_PRE_ELECTION (Or.inl hm) (Or.inl hrole)
    (fun _ => hrole) (fun h => absurd rfl h) fun r'' hr'' hel => ?_
  refine (does_campaign_election (Or.inr ⟨Or.inl hm, hr''.trans hrole, hel⟩)).weaken ?_
  rintro _ r''' (hlead | ⟨_, ms, hctl⟩)
  · rw [hlead]
    decide
  · have hcand : r'''.state = .Candidate := congrArg Ctl.role hctl
    rw [hcand]
    decide

theorem campaign_election :
    (campaign CAMPAIGN_ELECTION : Call Panic Event (Raft T) Unit)
      = campaignRound CAMPAIGN_ELECTION becomeLeader := by
  unfold campaign
  rw [if_neg (by decide)]

/-! The same walk through a campaign, for any behaviour. -/

section Any

variable {B : Behaviour Event (Raft T)}
  (hprs : ∀ (r : Raft T) prs, B.runs r [] { r with prs := prs })

include hprs

omit [Storage T] in
theorem does_takePrs (r : Raft T) : Does B r takePrs (fun _ _ => True) := by
  unfold takePrs
  apply Does.read_bind
  cases r.prs with
  | none => exact Does.panic _
  | some p => exact Does.modify_bind (hprs r none) (Does.pure trivial)

theorem does_requestVotes_of {voteMsg : MessageType} {term : ℕ}
    (hv : isVoteMessage voteMsg = true) (hterm : term ≠ 0)
    (hsend : ∀ (r : Raft T) q, q.msgType = voteMsg → q.term = term →
      B.runs r [.handed q] (r.push [q])) (ct : Bytes) (r : Raft T) :
    Does B r (requestVotes ct voteMsg term) (fun _ _ => True) := by
  unfold requestVotes
  refine Does.read_bind (Does.bind (does_takePrs hprs r) fun p r' _ => ?_)
  have hrequest : ∀ (id : ℕ) (t : Raft T),
      Does B t (requestVote ct voteMsg term id) (fun _ _ => True) :=
    fun id t => does_requestVote ct hv hterm t fun q htype _ hq => hsend t q htype hq
  refine Does.bind (Does.forM (I := fun _ => True) trivial fun id _ t _ => hrequest id t) ?_
  intro _ r'' _
  exact Does.of_ok rfl (hprs r'' (some p)) trivial

variable
  (hpre : ∀ r : Raft T, Does B r becomePreCandidate (fun _ _ => True))
  (hcand : ∀ r : Raft T, Does B r becomeCandidate (fun _ r' => r'.term ≠ 0))
  (hself : ∀ (r : Raft T) votes, B.runs r [.selfVote] { r with votes := votes })
  (hsend : ∀ (r : Raft T) q, isVoteMessage q.msgType = true → q.term ≠ 0 →
    B.runs r [.handed q] (r.push [q]))

include hpre hcand hself hsend

theorem does_campaignRound_of (ct : Bytes) {elected : Call Panic Event (Raft T) Unit}
    (helected : ∀ r, Does B r elected (fun _ _ => True)) (r : Raft T) :
    Does B r (campaignRound ct elected) (fun _ _ => True) := by
  have hrequests : ∀ {voteMsg : MessageType} {term : ℕ}, isVoteMessage voteMsg = true →
      term ≠ 0 → ∀ r : Raft T, Does B r (requestVotes ct voteMsg term) (fun _ _ => True) := by
    intro voteMsg term hv hterm r
    refine does_requestVotes_of hprs hv hterm (fun t q htype hq => hsend t q ?_ ?_) ct r
    · rw [htype]
      exact hv
    · rw [hq]
      exact hterm
  -- behind the role change; the requests ask for a term that is not 0
  have htail : ∀ r' : Raft T, (ct ≠ CAMPAIGN_PRE_ELECTION → r'.term ≠ 0) →
      Does B r'
        (do let self ← read
            voteForSelf
            match ← pollVotes with
            | .Elected => elected
            | _ =>
                if ct = CAMPAIGN_PRE_ELECTION then
                  requestVotes ct .MsgRequestPreVote (self.term + 1)
                else requestVotes ct .MsgRequestVote self.term) (fun _ _ => True) := by
    intro r' hterm
    apply Does.read_bind
    refine Does.bind (Q := fun _ _ => True) (Does.of_ok rfl (hself r' _) trivial) ?_
    intro _ r'' _
    refine does_pollVotes_bind fun st _ => ?_
    have hasked : Does B r''
        (if ct = CAMPAIGN_PRE_ELECTION then requestVotes ct .MsgRequestPreVote (r'.term + 1)
        else requestVotes ct .MsgRequestVote r'.term) (fun _ _ => True) := by
      refine Does.ite (fun _ => ?_) fun hct => ?_
      · exact hrequests rfl (Nat.succ_ne_zero r'.term) r''
      · exact hrequests rfl (hterm hct) r''
    cases st with
    | Elected => exact helected r''
    | Eligible => exact hasked
    | Ineligible => exact hasked
  unfold campaignRound
  refine Does.ite (fun hct => ?_) fun _ => ?_
  · exact Does.bind (hpre r) fun _ r' _ => htail r' fun hne => absurd hct hne
  · exact Does.bind (hcand r) fun _ r' hterm => htail r' fun _ => hterm

theorem does_campaign_of (hlead : ∀ r : Raft T, Does B r becomeLeader (fun _ _ => True))
    (ct : Bytes) (r : Raft T) : Does B r (campaign ct) (fun _ _ => True) := by
  have hround := does_campaignRound_of hprs hpre hcand hself hsend
  unfold campaign
  refine hround ct (fun r' => Does.ite (fun _ => ?_) fun _ => hlead r') r
  exact hround CAMPAIGN_ELECTION hlead r'

end Any

/-! ## §4  Handlers end in a refused reply -/

section Members

variable {B : Behaviour Event (Raft T)} (hB : OfMembers B)

include hB

omit [Storage T] in
theorem does_setProgress (id matched nextIdx : ℕ) (isLearner : Bool) (r : Raft T) :
    Does B r (setProgress id matched nextIdx isLearner) (fun _ _ => True) := by
  unfold setProgress
  refine Does.read_bind (does_getPrs_bind fun p _ => Does.lift_bind fun a _ => ?_)
  refine Does.modify_bind (hB _ _ _) ?_
  cases a.1 with
  | ok _ => exact Does.pure trivial
  | error e => exact Does.panic _

theorem does_restoreProgress (isLearner : Bool) (n : ℕ) (r : Raft T) :
    Does B r (restoreProgress isLearner n) (fun _ _ => True) := by
  unfold restoreProgress
  refine Does.read_bind (Does.lift_bind fun last _ => Does.ite (fun _ => ?_) fun _ => ?_)
  · exact Does.modify_bind (hB _ _ _) (does_setProgress hB _ _ _ _ _)
  · exact does_setProgress hB _ _ _ _ _

/-- The part of `restore_raft` that rebuilds the progress set. -/
theorem does_restoreMembers (prs : ProgressSet) (nodes learners : List ℕ) (r : Raft T) :
    Does B r (setPrs prs >>= fun _ => nodes.forM (restoreProgress false) >>= fun _ =>
        learners.forM (restoreProgress true) >>= fun _ => pure none)
      (fun (o : Option Bool) _ => o = none) := by
  have hloop : ∀ (isLearner : Bool) (l : List ℕ) (t : Raft T),
      Does B t (l.forM (restoreProgress isLearner)) (fun _ _ => True) :=
    fun isLearner l t => Does.forM (I := fun _ => True) trivial
      fun n _ t' _ => does_restoreProgress hB isLearner n t'
  refine Does.modify_bind (hB _ _ _) (Does.bind (hloop false _ _) fun _ r' _ => ?_)
  exact Does.bind (hloop true _ r') fun _ _ _ => Does.pure rfl

end Members

section Lax

variable {B : Behaviour Event (Raft T)} (hB : Lax B)

include hB

theorem does_handlerAppendEntries (msg : Message) (r : Raft T) :
    Does B r (handlerAppendEntries msg) (fun _ _ => False) := by
  unfold handlerAppendEntries handlerAppendEntriesVia
  apply Does.read_bind
  refine Does.ite (fun _ => hB.send rfl _) fun _ => Does.lift_bind fun a _ => ?_
  refine Does.modify_bind (hB.runs _ _ _ _) ?_
  cases a.1 with
  | some i => exact hB.send rfl _
  | none => exact Does.lift_bind fun last _ => hB.send rfl _

theorem does_handlerHeartbeat (msg : Message) (r : Raft T) :
    Does B r (handlerHeartbeat msg) (fun _ _ => False) := by
  unfold handlerHeartbeat
  refine Does.read_bind (Does.lift_bind fun log _ => ?_)
  exact Does.modify_bind (hB.runs _ _ _ _) (hB.send rfl _)

theorem does_restoreRaft (snap : Snapshot) (r : Raft T) :
    Does B r (restoreRaft snap) (fun _ _ => True) := by
  unfold restoreRaft
  refine Does.read_bind (Does.lift_bind fun a _ => Does.ite (fun _ => ?_) fun _ => ?_)
  · refine Does.lift_bind fun log _ => ?_
    exact Does.modify_bind (hB.runs _ _ _ _) (Does.pure trivial)
  · refine does_getPrs_bind fun p _ => Does.ite (fun _ => Does.pure trivial) fun _ => ?_
    exact (does_restoreMembers hB.ofMembers _ _ _ r).weaken fun _ _ _ => trivial

theorem does_handlerSnapshot (msg : Message) (r : Raft T) :
    Does B r (handlerSnapshot msg) (fun _ _ => False) := by
  have hrestore : Does B r (restore msg.snapshot) (fun _ _ => True) := by
    unfold restore
    refine Does.read_bind (Does.ite (fun _ => Does.pure trivial) fun _ => ?_)
    refine Does.bind (does_restoreRaft hB _ r) fun b r' _ => ?_
    cases b with
    | some b => exact Does.pure trivial
    | none => exact Does.modify_bind (hB.runs _ _ _ _) (Does.pure trivial)
  unfold handlerSnapshot
  refine Does.bind hrestore fun b r' _ => Does.read_bind (Does.ite (fun _ => ?_) fun _ => ?_)
  · exact Does.lift_bind fun last _ => hB.send rfl _
  · exact hB.send rfl _

end Lax

/-! ## §5  Appends to the peers are refused -/

theorem does_prepareSendSnapshot {B : Behaviour Event (Raft T)} (msg : Message)
    (pr : Progress) (r : Raft T) :
    Does B r (prepareSendSnapshot msg pr) (fun a _ => a.2.1.term = msg.term) := by
  unfold prepareSendSnapshot
  refine Does.ite (fun _ => Does.pure rfl) fun _ => ?_
  refine Does.read_bind (Does.lift_bind fun snap _ => ?_)
  split
  · exact Does.pure rfl
  · exact Does.panic _
  · exact Does.ite (fun _ => Does.panic _) fun _ => Does.pure rfl

omit [Storage T] in
theorem does_prepareSendEntries {B : Behaviour Event (Raft T)} (msg : Message)
    (pr : Progress) (term : ℕ) (ents : List Entry) (r : Raft T) :
    Does B r (prepareSendEntries msg pr term ents) (fun a _ => a.1.term = msg.term) := by
  unfold prepareSendEntries
  apply Does.read_bind
  split
  · exact Does.pure rfl
  · split
    · exact Does.lift_bind fun ins _ => Does.pure rfl
    · exact Does.pure rfl
    · exact Does.panic _

variable [ProtoMessage Entry]

/-- Whatever `send_append` builds has no term. -/
theorem does_sendAppend {B : Behaviour Event (Raft T)}
    (hB : ∀ (r : Raft T) q, q.term = 0 → B.stops r [.handed q] r) (to_ : ℕ) (pr : Progress)
    (r : Raft T) : Does B r (sendAppend to_ pr) (fun _ _ => True) := by
  unfold sendAppend sendAppendVia
  refine Does.ite (fun _ => Does.pure trivial) fun _ => ?_
  refine Does.read_bind (Does.lift_bind fun term _ => Does.lift_bind fun ents _ => ?_)
  dsimp only
  have hsnap : Does B r
      (do let a ← prepareSendSnapshot { to_ := to_ } pr
          if ¬ a.1 then pure a.2.2
          else do
            send a.2.1
            pure a.2.2) (fun _ _ => True) := by
    refine Does.bind (does_prepareSendSnapshot _ _ r) fun a r' ha => ?_
    refine Does.ite (fun _ => Does.pure trivial) fun _ => ?_
    exact Does.bind (does_send_refused ha r' (hB r' _ ha) (Q := fun _ _ => True))
      fun _ _ _ => Does.pure trivial
  cases term with
  | error e => exact hsnap
  | ok term =>
      cases ents with
      | error e => exact hsnap
      | ok ents =>
          refine Does.bind (does_prepareSendEntries _ _ _ _ r) fun a r' ha => ?_
          exact Does.bind (does_send_refused ha r' (hB r' _ ha) (Q := fun _ _ => True))
            fun _ _ _ => Does.pure trivial

theorem does_sendAppends {B : Behaviour Event (Raft T)}
    (hB : ∀ (r : Raft T) q, q.term = 0 → B.stops r [.handed q] r) (selfId : ℕ)
    (progress : AList fun _ : ℕ => Progress) (r : Raft T) :
    Does B r (progress.forValuesM fun id pr =>
      if id ≠ selfId then sendAppend id pr else pure pr) (fun _ _ => True) := by
  unfold AList.forValuesM
  refine Does.foldlM (I := fun _ _ => True) trivial ?_
  intro id _ acc t _
  cases hget : acc.lookup id with
  | none => exact Does.pure trivial
  | some pr =>
      refine Does.bind (Q := fun _ _ => True) (Does.ite (fun _ => ?_) fun _ => ?_)
        fun _ _ _ => Does.pure trivial
      · exact does_sendAppend hB id pr t
      · exact Does.pure trivial

theorem does_bcastAppend (r : Raft T) :
    Does (moving T m) r bcastAppend (fun _ r' => ∃ ms, r'.ctl = r.ctl.push ms) := by
  unfold bcastAppend forPeers
  apply Does.read_bind
  refine does_taken (r := r) (b := fun p a => { p with progress := a })
    (P := fun _ => False) (fun _ h => h.elim) ?_
  intro p _
  refine (does_sendAppends ?_ r.id p.progress _).weaken fun _ _ _ => rfl
  exact fun t q hq => ⟨[], by simp, t.push_nil.symm, Or.inr ⟨q, hq, rfl⟩⟩

/-! ## §6  The arms of `step` -/

theorem does_stepVoteResponse (hstand : r.ctl.Standing)
    (ht : m.msgType = .MsgRequestVoteResponse ∨ m.msgType = .MsgRequestPreVoteResponse)
    (ha : r.ctl.Admits m) :
    Does (moving T m) r (stepVoteResponse m) (fun _ _ => True) := by
  unfold stepVoteResponse
  refine Does.read_bind (Does.ite (fun _ => Does.pure trivial) fun hskip => ?_)
  have hcount : (r.ctl.role = .PreCandidate ∧ m.msgType = .MsgRequestPreVoteResponse) ∨
      (r.ctl.role = .Candidate ∧ m.msgType = .MsgRequestVoteResponse) := by
    rcases hstand with hpre | hcand
    · exact Or.inl ⟨hpre, by_contra fun h => hskip (Or.inl ⟨hpre, h⟩)⟩
    · exact Or.inr ⟨hcand, by_contra fun h => hskip (Or.inr ⟨hcand, h⟩)⟩
  have hm : Elects m := Or.inr ht.symm
  refine Does.modify_bind (Move.count hcount ha).moves (does_pollVotes_bind fun st hst => ?_)
  cases st with
  | Elected =>
      refine Does.ite (fun hpre => ?_) fun hpre => ?_
      · rw [campaign_election]
        refine (does_campaign_election ?_).weaken fun _ _ _ => trivial
        exact Or.inr ⟨hm, hpre, hst.mp rfl⟩
      · have hcand : r.state = .Candidate := hstand.resolve_left hpre
        refine Does.bind (does_becomeLeader hm hcand (hst.mp rfl)) fun _ r' _ => ?_
        exact (does_bcastAppend r').weaken fun _ _ _ => trivial
  | Ineligible =>
      show Does (moving T m) _ (becomeFollower r.term INVALID_ID) _
      refine (does_becomeFollower ?_).weaken fun _ _ _ => trivial
      exact .ended hstand ht
  | Eligible => exact Does.pure trivial

theorem does_stepCandidate (hstand : r.ctl.Standing) (ha : r.ctl.Admits m) :
    Does (moving T m) r (stepCandidate m) (fun _ _ => True) := by
  have hadm : m.msgType = .MsgAppend ∨ m.msgType = .MsgHeartbeat ∨ m.msgType = .MsgSnapshot →
      m.term = 0 ∨ m.term = r.ctl.term := by
    intro ht
    rcases ha with h | h | ⟨h, _⟩
    · exact Or.inl h
    · exact Or.inr h
    · rcases ht with h' | h' | h' <;> rw [h] at h' <;> cases h'
  unfold stepCandidate
  cases ht : m.msgType
  case MsgAppend =>
    refine Does.bind (does_becomeFollower
      (.discovered hstand (Or.inl ht) (hadm (Or.inl ht)))) fun _ r' _ => ?_
    have happend := does_handlerAppendEntries lax_mute m r'
    exact Does.bind (moving_of_mute (Q := fun _ _ => True) happend) fun _ _ _ => Does.pure trivial
  case MsgHeartbeat =>
    refine Does.bind (does_becomeFollower
      (.discovered hstand (Or.inr ht) (hadm (Or.inr (Or.inl ht))))) fun _ r' _ => ?_
    exact Does.bind (moving_of_mute (Q := fun _ _ => True) (does_handlerHeartbeat lax_mute m r'))
      fun _ _ _ => Does.pure trivial
  case MsgSnapshot =>
    refine Does.read_bind (Does.bind (does_becomeFollower
      (.snapshot hstand ht (hadm (Or.inr (Or.inr ht))))) fun _ r' _ => ?_)
    exact Does.bind (moving_of_mute (Q := fun _ _ => True) (does_handlerSnapshot lax_mute m r'))
      fun _ _ _ => Does.pure trivial
  case MsgRequestVoteResponse =>
    exact Does.bind (does_stepVoteResponse hstand (Or.inl ht) ha)
      fun _ _ _ => Does.pure trivial
  case MsgRequestPreVoteResponse =>
    exact Does.bind (does_stepVoteResponse hstand (Or.inr ht) ha)
      fun _ _ _ => Does.pure trivial
  all_goals exact Does.pure trivial

theorem does_stepHup (hm : m.msgType = .MsgHup) (ha : r.ctl.Admits m) :
    Does (moving T m) r stepHup (fun _ _ => True) := by
  unfold stepHup
  refine Does.read_bind (Does.ite (fun _ => ?_) fun _ => Does.pure trivial)
  refine Does.lift_bind fun ents _ => Does.ite (fun _ => Does.pure trivial) fun _ => ?_
  refine Does.ite (fun hpv => ?_) fun hpv => ?_
  · exact (does_campaign_preElection hm ha hpv).weaken fun _ _ _ => trivial
  · rw [campaign_election]
    exact (does_campaign_election (Or.inl ⟨hm, ha, by simpa using hpv⟩)).weaken
      fun _ _ _ => trivial

omit [Storage T] [ProtoMessage Entry] in
theorem voteRespMsgType_isVote {t t' : MessageType} (h : voteRespMsgType t = .ok t') :
    isVoteMessage t' = true := by
  unfold voteRespMsgType at h
  split at h
  · cases h
    rfl
  · cases h
    rfl
  · cases h

omit [ProtoMessage Entry] in
/-- An approved vote goes to whom the node already voted for, or to the first
to ask; a pre-vote binds nobody. -/
theorem approvesVote_vote (h : r.approvesVote m = .ok true)
    (ht : m.msgType = .MsgRequestVote) : r.vote = m.from_ ∨ r.vote = INVALID_ID := by
  unfold approvesVote at h
  split at h
  · rename_i hcan
    rcases hcan with hv | ⟨hv, _⟩ | ⟨hpre, _⟩
    · exact Or.inl hv
    · exact Or.inr hv
    · rw [ht] at hpre
      cases hpre
  · cases h

omit [Storage T] [ProtoMessage Entry] in
theorem does_queue {q : Message} (hv : isVoteMessage q.msgType = true)
    (h : q.term ≠ 0 → Queues m r.ctl q) :
    Does (moving T m) r (send q) (fun _ _ => True) := by
  by_cases hterm : q.term = 0
  · exact Does.of_error (send_of_term_eq_zero hterm r) (Move.refused hterm).moves.breaks
  · exact Does.of_ok (send_of_vote hv hterm r) (Move.queue (h hterm) hterm).moves trivial

omit [Storage T] [ProtoMessage Entry] in
/-- The reply goes out before the vote is recorded. -/
theorem does_grant {q : Message} (hm : m.msgType = .MsgRequestVote) (ha : r.ctl.Admits m)
    (hvote : r.vote = m.from_ ∨ r.vote = INVALID_ID)
    (ht : q.msgType = .MsgRequestVoteResponse) (hto : q.to_ = m.from_)
    (hrej : q.reject = false) (hq : q.term = m.term) :
    Does (moving T m) r
      (do send q
          modify fun self => { self with electionElapsed := 0, vote := m.from_ }
          emit (.hardState r.term m.from_)) (fun _ _ => True) := by
  by_cases hterm : q.term = 0
  · exact Does.of_error (bind_error (send_of_term_eq_zero hterm r))
      (Move.refused hterm).moves.breaks
  · have hcur : m.term = r.ctl.term := by
      rcases ha with h | h | ⟨h, _⟩
      · exact absurd (hq.trans h) hterm
      · exact h
      · rw [hm] at h
        cases h
    have hsend := send_of_vote (q := q) (by rw [ht]; rfl) hterm r
    refine Does.of_ok (a := ())
      (t := { r.push [q] with electionElapsed := 0, vote := m.from_ })
      (l := [.handed q, .hardState r.term m.from_]) (by rw [bind_ok hsend]; rfl) ?_ trivial
    exact (Move.grant (c := r.ctl) hm hcur hvote ht hto hrej (hq.trans hcur) hterm).moves

omit [ProtoMessage Entry] in
theorem does_stepVoteRequest (ha : r.ctl.Admits m)
    (hreq : m.msgType = .MsgRequestVote ∨ m.msgType = .MsgRequestPreVote) :
    Does (moving T m) r (stepVoteRequest m) (fun _ _ => True) := by
  unfold stepVoteRequest
  refine Does.read_bind (Does.lift_bind fun approves happ => ?_)
  refine Does.lift_bind fun respType hresp => ?_
  dsimp only
  rcases hreq with ht | ht
  · obtain rfl : respType = .MsgRequestVoteResponse := by
      simpa [voteRespMsgType, ht] using hresp.symm
    refine Does.ite (fun happroves => ?_) fun _ => ?_
    · subst happroves
      simp only [if_pos ht]
      exact does_grant ht ha (approvesVote_vote happ ht) rfl rfl rfl rfl
    · exact does_queue rfl fun _ => .reject ht rfl rfl rfl rfl
  · obtain rfl : respType = .MsgRequestPreVoteResponse := by
      simpa [voteRespMsgType, ht] using hresp.symm
    refine Does.ite (fun _ => ?_) fun _ => ?_
    · refine Does.bind (does_queue rfl fun _ => .preGrant ht rfl rfl rfl rfl) ?_
      intro _ r' _
      rw [if_neg (by rw [ht]; decide)]
      exact Does.pure trivial
    · exact does_queue rfl fun _ => .preReject ht rfl rfl rfl rfl

omit [ProtoMessage Entry] in
/-- A vote request is answered by one vote message; a vote that counts is recorded. -/
theorem does_stepVoteRequest_of {B : Behaviour Event (Raft T)}
    (hsend : ∀ (r' : Raft T) q, isVoteMessage q.msgType = true →
      q.term = m.term ∨ q.term = r.term → Does B r' (send q) (fun _ _ => True))
    (hgrant : ∀ r' : Raft T, B.runs r' [.hardState r.term m.from_]
      { r' with electionElapsed := 0, vote := m.from_ }) :
    Does B r (stepVoteRequest m) (fun _ _ => True) := by
  unfold stepVoteRequest
  refine Does.read_bind (Does.lift_bind fun approves _ => Does.lift_bind fun respType hresp => ?_)
  have hv := voteRespMsgType_isVote hresp
  refine Does.ite (fun _ => ?_) fun _ => hsend r _ hv (Or.inr rfl)
  refine Does.bind (hsend r _ hv (Or.inl rfl)) fun _ r' _ => ?_
  refine Does.ite (fun _ => ?_) fun _ => Does.pure trivial
  exact Does.of_ok rfl (hgrant r') trivial

theorem stepByRole_standing (hc : r.ctl.Standing) : stepByRole m r = stepCandidate m r := by
  unfold stepByRole
  rw [read_bind_run]
  rcases hc with hs | hs
  · rw [show r.state = .PreCandidate from hs]
  · rw [show r.state = .Candidate from hs]

/-- Followers and leaders have no `step` of their own yet. -/
theorem stepByRole_idle (hc : ¬ r.ctl.Standing) :
    stepByRole m r = (panic .unimplemented : Call Panic Event (Raft T) (Result Unit)) r := by
  unfold stepByRole
  rw [read_bind_run]
  cases hs : r.state with
  | PreCandidate => exact absurd (Or.inl hs) hc
  | Candidate => exact absurd (Or.inr hs) hc
  | FOLLOWER => rfl
  | Leader => rfl

theorem does_dispatch (ha : r.ctl.Admits m) :
    Does (moving T m) r (dispatch m) (fun _ _ => True) := by
  have hother : Does (moving T m) r (stepByRole m) (fun _ _ => True) := by
    by_cases hc : r.ctl.Standing
    · exact Does.of_run_eq (stepByRole_standing hc) (does_stepCandidate hc ha)
    · exact Does.of_run_eq (stepByRole_idle hc) (Does.panic _)
  unfold dispatch
  cases ht : m.msgType
  case MsgHup => exact Does.bind (does_stepHup ht ha) fun _ _ _ => Does.pure trivial
  case MsgRequestVote =>
    exact Does.bind (does_stepVoteRequest ha (Or.inl ht)) fun _ _ _ => Does.pure trivial
  case MsgRequestPreVote =>
    exact Does.bind (does_stepVoteRequest ha (Or.inr ht)) fun _ _ _ => Does.pure trivial
  all_goals exact hother

/-- One step is a sequence of moves. -/
theorem does_step (m : Message) (r : Raft T) :
    Does (moving T m) r (step m) (fun _ _ => True) := by
  unfold step
  apply Does.read_bind
  refine Does.ite (fun h => does_dispatch (Or.inl h)) fun _ => ?_
  refine Does.ite (fun hgt => ?_) fun hgt => Does.ite (fun hlt => ?_) fun hlt => ?_
  · refine Does.ite (fun _ => Does.pure trivial) fun hreq => Does.ite (fun hpre => ?_) fun _ => ?_
    · refine does_dispatch (Or.inr (Or.inr ?_))
      rcases hpre with h | ⟨h, hrej⟩
      · exact absurd (Or.inr h) hreq
      · exact ⟨h, by simpa using hrej, hgt⟩
    · refine Does.ite (fun ht => ?_) fun _ => ?_
      · refine Does.bind (does_becomeFollower (.laterLeader hgt ht)) fun _ r' hr' => ?_
        exact does_dispatch (Or.inr (Or.inl (congrArg Ctl.term hr').symm))
      · refine Does.bind (does_becomeFollower (.laterTerm hgt)) fun _ r' hr' => ?_
        exact does_dispatch (Or.inr (Or.inl (congrArg Ctl.term hr').symm))
  · refine Does.bind (Q := fun _ _ => True) ?_ fun _ _ _ => Does.pure trivial
    unfold stepLowerTerm
    refine Does.read_bind (Does.ite (fun _ => moving_of_mute ?_) fun _ => ?_)
    · exact lax_mute.send rfl _
    · refine Does.ite (fun ht => ?_) fun _ => Does.pure trivial
      exact does_queue rfl fun _ => .preReject ht rfl rfl rfl rfl
  · have hcur : m.term = r.term := by omega
    exact does_dispatch (Or.inr (Or.inl hcur))

/-! ## §7  Ticks -/

/-- The message a node steps itself when its election timer runs out. -/
def hupOf (r : Raft T) : Message := newMessage INVALID_ID .MsgHup (some r.id)

omit [Storage T] [ProtoMessage Entry] in
/-- A leader's own ticks reach `step_leader`, which is not implemented. -/
theorem step_leader_local [Storage T] [ProtoMessage Entry] (hrole : r.state = .Leader)
    (ht : m.msgType = .MsgCheckQuorum ∨ m.msgType = .MsgBeat) (hterm : m.term = 0) :
    step m r = ⟨.error .unimplemented, r, []⟩ := by
  unfold step
  rw [read_bind_run, ite_run, if_pos hterm]
  unfold dispatch
  have hidle : ¬ r.ctl.Standing := by
    rintro (h | h)
    · exact absurd (hrole.symm.trans h) (by decide)
    · exact absurd (hrole.symm.trans h) (by decide)
  rcases ht with h | h
  · rw [h]
    exact stepByRole_idle hidle
  · rw [h]
    exact stepByRole_idle hidle

section OfCtl

variable {B : Behaviour Event (Raft T)} (hB : OfCtl B)

include hB

theorem does_tickElectionTimeout (hrole : r.state = .Leader) :
    Does B r tickElectionTimeout (fun _ r' => r'.state = .Leader) := by
  unfold tickElectionTimeout
  refine Does.modify_bind (hB _ _ rfl) (Does.read_bind ?_)
  refine Does.bind (Q := fun _ (r' : Raft T) => r'.state = .Leader) ?_
    fun _ r' hr' => Does.read_bind ?_
  · refine Does.ite (fun _ => ?_) fun _ => Does.pure hrole
    exact Does.of_error (step_leader_local (by exact hrole) (Or.inl rfl) rfl) (B.stops_refl _)
  · refine Does.bind (Q := fun _ (r'' : Raft T) => r''.state = .Leader)
      (Does.ite (fun _ => ?_) fun _ => Does.pure hr') fun _ _ h => Does.pure h
    exact Does.of_ok rfl (hB _ _ rfl) hr'

theorem does_tickHeartbeat (hrole : r.state = .Leader) :
    Does B r tickHeartbeat (fun _ _ => True) := by
  unfold tickHeartbeat
  refine Does.modify_bind (hB _ _ rfl) (Does.read_bind ?_)
  refine Does.bind (Q := fun _ (r' : Raft T) => r'.state = .Leader)
    (Does.ite (fun _ => ?_) fun _ => Does.pure hrole) fun _ r' hr' => Does.read_bind ?_
  · apply does_tickElectionTimeout hB
    exact hrole
  · refine Does.ite (fun _ => Does.pure trivial) fun _ => Does.ite (fun _ => ?_) fun _ => ?_
    · refine Does.modify_bind (hB _ _ rfl) ?_
      exact Does.of_error (bind_error (step_leader_local (by exact hr') (Or.inr rfl) rfl))
        (B.stops_refl _)
    · exact Does.pure trivial

end OfCtl

/-- A tick of the election timer steps a `MsgHup`, on a promotable node only. -/
theorem does_tickElection {B : Behaviour Event (Raft T)}
    (hstill : ∀ r' r'' : Raft T, r'.ctl = r.ctl → r''.ctl = r.ctl → B.runs r' [] r'')
    (hstep : ∀ r' : Raft T, r'.ctl = r.ctl → r.id ∈ r.ctl.voters →
      Does B r' (step (hupOf r)) (fun _ _ => True)) :
    Does B r tickElection (fun _ _ => True) := by
  unfold tickElection
  refine Does.modify_bind (hstill _ _ rfl rfl) (Does.read_bind ?_)
  refine Does.ite (fun _ => Does.pure trivial) fun _ => ?_
  unfold promotable
  refine Does.of_run_eq (bind_assoc_run _ _ _ _) (does_getPrs_bind fun p hp => ?_)
  refine Does.of_run_eq (bind_assoc_run _ _ _ _) (Does.read_bind ?_)
  apply Does.of_run_eq (pure_bind_run _ _ _)
  refine Does.ite (fun _ => Does.pure trivial) fun hprom => ?_
  have hmem : r.id ∈ r.ctl.voters := by
    have hv : r.ctl.voters = p.voterIds := ctl_voters (r := r) hp
    rw [hv]
    simpa using hprom
  refine Does.modify_bind (hstill _ _ rfl rfl) ?_
  exact Does.bind (hstep _ rfl hmem) fun _ _ _ => Does.pure trivial

/-- The ticks of a promotable node. -/
theorem does_tick (r : Raft T) : Does (moving T (hupOf r)) r tick (fun _ _ => True) := by
  have helection : Does (moving T (hupOf r)) r tickElection (fun _ _ => True) := by
    refine does_tickElection ?_ fun r' _ _ => does_step (hupOf r) r'
    exact fun r' r'' hr' hr'' => ofCtl_moving _ r' r'' (hr''.trans hr'.symm)
  unfold tick
  apply Does.read_bind
  cases hs : r.state with
  | Leader => exact does_tickHeartbeat (ofCtl_moving _) hs
  | FOLLOWER => exact helection
  | PreCandidate => exact helection
  | Candidate => exact helection

/-- The ticks of a node that is not promotable. -/
theorem does_tick_of_not_promotable (hprom : r.id ∉ r.ctl.voters) :
    Does (still T) r tick (fun _ _ => True) := by
  have helection : Does (still T) r tickElection (fun _ _ => True) := by
    refine does_tickElection ?_ fun _ _ hmem => absurd hmem hprom
    exact fun r' r'' hr' hr'' => ofCtl_still r' r'' (hr''.trans hr'.symm)
  unfold tick
  apply Does.read_bind
  cases hs : r.state with
  | Leader => exact does_tickHeartbeat ofCtl_still hs
  | FOLLOWER => exact helection
  | PreCandidate => exact helection
  | Candidate => exact helection

end Methods

end Raft

end RsRaft
