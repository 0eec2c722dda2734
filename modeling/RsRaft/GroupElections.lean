import RsRaft.GroupLog
import RsRaft.RaftMoves

/-!
# Elections in a group

Entering a term, standing, asking, voting and counting, each accounted for by steps
of the group. Of `step_candidate` it is the arm of the vote responses; what a new leader
sends first is a parameter, since `send` refuses it.

§1 terms and roles · §2 leading · §3 campaigns · §4 votes · §5 ticks.
-/

namespace RsRaft

open PlainLog Call Raft

namespace Raft

variable {T : Type} [Storage T] [ProtoMessage Entry]

/-- The arm of `step_candidate` for vote responses, with `bcast` for what a new leader
sends. -/
def stepVoteResponseVia (bcast : Call Panic Event (Raft T) Unit) (msg : Message) :
    Call Panic Event (Raft T) Unit := do
  let self ← Call.read
  if (self.state = .PreCandidate ∧ msg.msgType ≠ .MsgRequestPreVoteResponse)
      ∨ (self.state = .Candidate ∧ msg.msgType ≠ .MsgRequestVoteResponse) then pure ()
  else
    let acceptance := !msg.reject
    registerVote msg.from_ acceptance
    match ← pollVotes with
    | .Elected =>
        if self.state = .PreCandidate then campaign CAMPAIGN_ELECTION
        else
          becomeLeader
          bcast
    | .Ineligible => becomeFollower self.term INVALID_ID
    | .Eligible => pure ()

theorem stepVoteResponseVia_bcastAppend (msg : Message) :
    (stepVoteResponseVia bcastAppend msg : Call Panic Event (Raft T) Unit) =
      stepVoteResponse msg := rfl

end Raft

variable {V : Finset ℕ} {A A' : Consensus.Group ℕ Entry} {b s v : ℕ} {m q : Message}
  {K : Consensus.Group ℕ Entry → Prop} {hK : ∀ A A', Consensus.Records A A' → K A → K A'}
  {r r' : Raft MemStorage} {t l : ℕ}

/-! ## §1  Terms and roles -/

namespace Mirrors

/-- In a term it has not entered a node has neither voted nor led. -/
theorem not_voted (h : Mirrors V A v r) (hA : Consensus.Sound (Quorum V) b s A)
    (ht : r.term < t) (d : ℕ) : ¬ A.voted v t d := by
  intro hd
  have hle := (hA.voted v t d hd).1
  rw [h.term] at hle
  omega

theorem not_led (h : Mirrors V A v r) (hA : Consensus.Sound (Quorum V) b s A)
    (ht : r.term < t) {R : Consensus.Reign ℕ Entry} (hR : A.reign t = some R) :
    R.leader ≠ v := by
  rintro rfl
  have hle := (hA.leader t R hR).1
  rw [h.term] at hle
  omega

theorem lastIndex_eq (h : Mirrors V A v r) {li : ℕ} (hli : r.raftLog.lastIndex = .ok li) :
    li = r.raftLog.logical.lastIndex := by
  rw [h.sound.wellFormed.presents.lastIndex] at hli
  exact (Except.ok.inj hli).symm

theorem lastTerm_eq (h : Mirrors V A v r) {lt : ℕ} (hlt : r.raftLog.lastTerm = .ok lt) :
    lt = r.raftLog.logical.lastStamp := by
  rw [h.sound.wellFormed.presents.lastTerm] at hlt
  exact (Except.ok.inj hlt).symm

end Mirrors

theorem wellFormed_resetProgress {prs : ProgressSet} (h : prs.WellFormed) (id last : ℕ) :
    (resetProgress prs id last).WellFormed := by
  refine ⟨?_, h.disjoint⟩
  intro k
  refine Iff.trans ?_ (h.members k)
  rw [AList.mem_iff_exists_lookup, AList.mem_iff_exists_lookup, resetProgress,
    AList.lookup_mapValues]
  simp

theorem StartedOver.follows {role : StateRole} {members : Option ProgressSet}
    {prs : ProgressSet} (h : StartedOver role members) (hprs : members = some prs)
    (id last : ℕ) : StartedOver .FOLLOWER (some (resetProgress prs id last)) := by
  have hkept : StartedOver role (some (resetProgress prs id last)) := h.of_voters hprs rfl
  exact ⟨rfl, hkept.voters⟩

/-- After a reset a peer matches nothing, and the node itself all of its log. -/
theorem get_resetProgress {prs : ProgressSet} {self last id : ℕ} {pr : Progress}
    (hget : (resetProgress prs self last).get id = some pr) :
    pr.matched = (if id = self then last else 0) ∧ pr.nextIdx = last + 1 ∧
      pr.state = .Probe ∧ pr.recentActive = false ∧ pr.isPaused = false := by
  have hmap : (resetProgress prs self last).get id = (prs.get id).map fun pr =>
      if id = self then { pr.reset (last + 1) with matched := last } else pr.reset (last + 1) :=
    AList.lookup_mapValues _ prs.progress id
  rw [hmap] at hget
  obtain ⟨pr₀, _, rfl⟩ := Option.map_eq_some_iff.mp hget
  by_cases hid : id = self
  · rw [if_pos hid, if_pos hid]
    exact ⟨rfl, rfl, rfl, rfl, rfl⟩
  · rw [if_neg hid, if_neg hid]
    exact ⟨rfl, rfl, rfl, rfl, rfl⟩

/-- Entering a later term, or staying in one the node does not lead. -/
theorem Mirrors.enter (h : Mirrors V A v r) (hA : Consensus.Sound (Quorum V) b s A)
    (ht : r.term < t ∨ (t = r.term ∧ r.state ≠ .Leader)) :
    ∃ A', Consensus.Moves (Quorum V) v A A' ∧ Consensus.Records A A' ∧ A'.term v = t ∧
      A'.log v = A.log v ∧ A'.committed v = A.committed v ∧
      (∀ d, A'.voted v t d → r.term = t ∧ A.voted v r.term d) ∧
      ∀ R, A'.reign t = some R → R.leader = v → StartedOver r.state r.prs := by
  rcases ht with hlt | ⟨rfl, hrole⟩
  · have hstep : Consensus.Step (Quorum V) v A _ :=
      .enter (t := t) (by rw [h.term]; exact hlt)
    refine ⟨_, .step .refl hstep, (hA.step (fun _ _ => Quorum.meet) hstep).2,
      Function.update_self .., rfl, rfl, ?_, ?_⟩
    · exact fun d hd => absurd hd (h.not_voted hA hlt d)
    · exact fun R hR hlead => absurd hlead (h.not_led hA hlt hR)
  · exact ⟨A, .refl, .refl A, h.term, rfl, rfl, fun d hd => ⟨rfl, hd⟩,
      fun R hR hlead => (h.led R hR hlead).resolve_left hrole⟩

/-- A follower of a later term, or of its own if it does not lead it. -/
theorem accounted_becomeFollower
    (ht : r.term < t ∨ (t = r.term ∧ r.state ≠ .Leader)) :
    Does (accounted V b s v K hK) r (becomeFollower t l) (fun _ _ => True) := by
  rcases reset_cases t r with ⟨li, prs, _, hprs, hreset⟩ | ⟨p, r', hreset, _⟩
  · refine Does.of_ok (becomeFollower_ok hreset l) ?_ trivial
    intro A hA _ h
    obtain ⟨A', hmoves, hrec, hterm, hlog, hcommitted, hvoted, hled⟩ := h.enter hA ht
    refine ⟨A', hmoves, ?_⟩
    exact
      { id := h.id
        term := hterm
        sound := h.sound
        snapshot := h.snapshot
        log := hlog.symm ▸ h.log
        committed := hcommitted.trans h.committed
        members := by
          rintro _ ⟨⟩
          exact wellFormed_resetProgress (h.members prs hprs) _ _
        voters := h.voters.imp (fun hover => hover.follows hprs _ _) fun hall => by
          rintro _ ⟨⟩
          exact hall prs hprs
        vote := fun d hd => by
          obtain ⟨hsame, hd⟩ := hvoted d hd
          obtain ⟨hvote, hne⟩ := h.vote d hd
          exact ⟨hvote.trans (if_pos hsame).symm, hne⟩
        standing := fun hc => by rcases hc with hc | hc <;> cases hc
        candidate := fun hc => by cases hc
        leader := fun hl => by cases hl
        peers := fun hl => by cases hl
        led := fun R hR hlead =>
          Or.inr ((hled R hR hlead).follows hprs _ _)
        posted := fun m hm => (h.posted m hm).mono hrec }
  · refine Does.of_error (p := p) (t := r') (l := resetEvents r.term t) ?_ trivial
    unfold becomeFollower
    rw [bind_error hreset]

/-- A candidate stands with its log in the next term, and votes for itself. -/
theorem accounted_becomeCandidate (hv : v ∈ V) (h0 : INVALID_ID ∉ V)
    (hkept : ¬ StartedOver r.state r.prs) :
    Does (accounted V b s v K hK) r becomeCandidate
      (fun _ r' => r'.state = .Candidate ∧ r'.term ≠ 0) := by
  by_cases hrole : r.state = .Leader
  · refine Does.of_run_eq (y := panic .assertion) ?_ (Does.panic _)
    unfold becomeCandidate
    rw [read_bind_run, ite_run, if_pos hrole]
  rcases reset_cases (r.term + 1) r with ⟨li, prs, _, hprs, hreset⟩ | ⟨p, r', hreset, _⟩
  · refine Does.of_ok (becomeCandidate_ok hrole hreset) ?_ ⟨rfl, Nat.succ_ne_zero _⟩
    have hlt : r.term < r.term + 1 := Nat.lt_succ_self _
    refine accounted_step fun A hA _ h =>
      ⟨_, .stand (t := r.term + 1) (by rw [h.term]; exact hlt), ?_⟩
    have hrec := (hA.step (fun _ _ => Quorum.meet)
      (.stand (t := r.term + 1) (by rw [h.term]; exact hlt))).2
    have hself := h.id
    exact
      { id := h.id
        term := Function.update_self ..
        sound := h.sound
        snapshot := h.snapshot
        log := h.log
        committed := h.committed
        members := by
          rintro _ ⟨⟩
          exact wellFormed_resetProgress (h.members prs hprs) _ _
        voters := Or.inr (by
          rintro _ ⟨⟩
          exact h.voters.resolve_left hkept prs hprs)
        vote := by
          rintro d (hd | ⟨_, _, rfl⟩)
          · exact absurd hd (h.not_voted hA hlt d)
          · exact ⟨hself.symm, fun hz => h0 (hz ▸ hv)⟩
        standing := fun _ => hv
        candidate := fun _ => by
          refine ⟨?_, hself, Or.inr ⟨rfl, rfl, rfl⟩, fun k hk => ?_⟩
          · show (if v = v ∧ r.term + 1 = r.term + 1 then _ else _) = _
            rw [if_pos ⟨rfl, rfl⟩]
          · rw [mem_granters] at hk
            cases hk
        leader := fun hl => by cases hl
        peers := fun hl => by cases hl
        led := fun R hR hlead => absurd hlead (h.not_led hA hlt hR)
        posted := fun m hm => (h.posted m hm).mono hrec }
  · refine Does.of_error (p := p) (t := r') (l := resetEvents r.term (r.term + 1)) ?_ trivial
    unfold becomeCandidate
    rw [read_bind_run, ite_run, if_neg hrole, bind_error hreset]

theorem accounted_becomePreCandidate (hv : v ∈ V) (hkept : ¬ StartedOver r.state r.prs) :
    Does (accounted V b s v K hK) r becomePreCandidate
      (fun _ r' => r'.state = .PreCandidate) := by
  unfold becomePreCandidate
  apply Does.read_bind
  refine Does.ite (fun _ => Does.panic _) fun hrole => ?_
  refine Does.of_ok (a := ())
    (t := { r with state := .PreCandidate, votes := ∅, leaderId := INVALID_ID })
    (l := [.role .PreCandidate]) ?_ ?_ rfl
  · simp [setState]
  · refine accounted_still fun A hA h => ?_
    exact { h with
      voters := Or.inr (h.voters.resolve_left hkept)
      standing := fun _ => hv
      candidate := fun hc => by cases hc
      leader := fun hl => by cases hl
      peers := fun hl => by cases hl
      led := fun R hR hlead => absurd hlead (h.not_leader hrole hkept hR) }

/-! ## §2  Leading -/

/-- A candidate whose votes are enough leads its term, with its own log acknowledged. -/
theorem Mirrors.lead (h : Mirrors V A v r) (hA : Consensus.Sound (Quorum V) b s A)
    (hrole : r.state = .Candidate) {prs : ProgressSet} (hprs : r.prs = some prs)
    (hwon : r.ctl.Elected) {li : ℕ} (hli : r.raftLog.lastIndex = .ok li) :
    ∃ A', Consensus.Moves (Quorum V) v A A' ∧
      Mirrors V A' v { r.resetTo r.term li prs with leaderId := r.id, state := .Leader } := by
  obtain ⟨hstood, hvote, hself, hgrants⟩ := h.candidate hrole
  have hnot : r.state ≠ .Leader := by
    rw [hrole]
    decide
  have hstands : r.state ≠ .FOLLOWER := by
    rw [hrole]
    decide
  have hkept : ¬ StartedOver r.state r.prs := fun hover => hstands hover.follower
  have hquorum : Quorum V {w | A.voted w r.term v} := by
    refine ⟨granters r.votes, fun k hk => (hgrants k hk).1, ?_, fun k hk => (hgrants k hk).2⟩
    rw [Ctl.Elected, ctl_voters hprs, h.size hstands hprs] at hwon
    exact hwon
  have hstep : Consensus.Step (Quorum V) v A _ := .elect (by rw [h.term]; exact hstood)
    (fun R hR => h.not_leader hnot hkept (h.term ▸ hR)) (by rw [h.term]; exact hquorum)
  obtain ⟨hA₁, hrec⟩ := hA.step (fun _ _ => Quorum.meet) hstep
  -- the new leader follows its own log before it looks at its peers
  have h₁ : Mirrors V
      { A with
        reign := Function.update A.reign (A.term v)
          (some ⟨v, A.log v, A.log v, {w | A.voted w (A.term v) v}⟩) } v
      { r with state := .Leader, prs := none } :=
    { h with
      members := by rintro _ ⟨⟩
      voters := Or.inr (by rintro _ ⟨⟩)
      standing := fun hc => by rcases hc with hc | hc <;> cases hc
      candidate := fun hc => by cases hc
      leader := fun _ => ⟨_, by rw [← h.term]; exact Function.update_self .., rfl⟩
      peers := by rintro _ _ _ _ ⟨⟩
      led := fun _ _ _ => Or.inl rfl
      posted := fun m hm => (h.posted m hm).mono hrec }
  obtain ⟨A', hstep', h', hacked⟩ := h₁.follow hA₁ rfl
  refine ⟨A', .step (.step .refl hstep) hstep', ?_⟩
  exact
    { h' with
      members := by
        rintro _ ⟨⟩
        exact wellFormed_resetProgress (h.members prs hprs) _ _
      voters := Or.inr (by
        rintro _ ⟨⟩
        exact (h.seated hstands hprs :))
      led := fun _ _ _ => Or.inl rfl
      vote := fun d hd => by
        obtain ⟨hv, hne⟩ := h'.vote d hd
        exact ⟨hv.trans (if_pos rfl).symm, hne⟩
      standing := fun hc => by rcases hc with hc | hc <;> cases hc
      candidate := fun hc => by cases hc
      peers := by
        rintro _ _ id pr ⟨⟩ hpr
        obtain ⟨hmatched, hnext, hstate, hactive, _⟩ := get_resetProgress hpr
        obtain rfl := h.lastIndex_eq hli
        refine ⟨?_, ?_, ?_, ?_, by rw [hstate]; decide, hactive⟩
        · rw [hmatched]
          split
          · exact Nat.le_refl _
          · exact Nat.zero_le _
        · rw [hmatched]
          by_cases hid : id = r.id
          · rw [if_pos hid, hid, h.id]
            exact Or.inr ⟨_, Nat.le_refl _, hacked⟩
          · rw [if_neg hid]
            exact Or.inl rfl
        · rw [hnext]
          exact Nat.succ_pos _
        · rw [hnext]
          exact Nat.le_refl _ }

/-- Winning an election. -/
theorem accounted_becomeLeader (hrole : r.state = .Candidate) (hwon : r.ctl.Elected) :
    Does (accounted V b s v K hK) r becomeLeader (fun _ r' => r'.state = .Leader) := by
  have hnot : r.state ≠ .Leader := by
    rw [hrole]
    decide
  have hev : resetEvents r.term r.term = [] := if_pos rfl
  rcases reset_cases r.term r with ⟨li, prs, hli, hprs, hreset⟩ | ⟨p, r', hreset, _⟩
  · rw [hev] at hreset
    refine Does.of_run_eq (y := (fun _ => ⟨.ok (), { r.resetTo r.term li prs with
        leaderId := r.id, state := .Leader }, [.leads r.term, .role .Leader]⟩) >>= fun _ => _)
      (becomeLeader_head hnot hreset) ?_
    refine Does.bind (Q := fun _ r₁ => r₁.state = .Leader)
      (Does.of_ok rfl (fun A hA _ h => h.lead hA hrole hprs hwon hli) rfl) fun _ r₁ hl₁ => ?_
    refine Does.bind (accounted_updateOwnProgress hl₁ fun A _ pr hpr => ?_)
      fun _ r₂ ⟨hl₂, _⟩ => ?_
    · exact ⟨hpr.inside, Nat.succ_pos _, Nat.succ_le_succ hpr.inside, nofun, rfl⟩
    · refine Does.read_bind (Does.lift_bind fun last _ => Does.modify_bind ?_ ?_)
      · exact accounted_still fun A _ h => { h with }
      · exact accounted_appendEntry (r := { r₂ with pendingConfIndex := last }) hl₂ _
  · rw [hev] at hreset
    refine Does.of_error (p := p) (t := r') (l := [.leads r.term]) ?_ trivial
    unfold becomeLeader
    rw [read_bind_run, emit_bind_run, ite_run, if_neg hnot, bind_error hreset]
    rfl

/-! ## §3  Campaigns -/

/-- One more vote counted, in a real election only of a voter who gave it. -/
theorem Mirrors.count (h : Mirrors V A v r) {k : ℕ} {g : Bool}
    (hk : r.state = .Candidate → g = true → k ∈ V ∧ A.voted k r.term v) :
    Mirrors V A v { r with votes := r.votes.orInsert k g } :=
  { h with
    candidate := fun hc => by
      obtain ⟨hstood, hvote, hself, hgrants⟩ := h.candidate hc
      refine ⟨hstood, hvote, hself, fun k' hk' => ?_⟩
      rw [mem_granters] at hk'
      rcases AList.lookup_orInsert hk' with hold | ⟨rfl, hg, _⟩
      · exact hgrants k' (mem_granters.mpr hold)
      · exact hk hc hg.symm }

theorem accounted_voteForSelf : Does (accounted V b s v K hK) r voteForSelf
    (fun _ r' => r'.state = r.state ∧ r'.term = r.term) := by
  refine Does.of_ok (a := ()) rfl (accounted_still fun A _ h => h.count ?_) ⟨rfl, rfl⟩
  intro hc _
  rw [h.id]
  exact ⟨h.standing (Or.inr hc), (h.candidate hc).2.2.1⟩

/-- A candidate asks with the last index and term of the log it stands with. -/
theorem accounted_requestVote {ct : Bytes} {voteMsg : MessageType} {id : ℕ} (ht : t ≠ 0)
    (hkind : voteMsg = .MsgRequestPreVote ∨
      (voteMsg = .MsgRequestVote ∧ r.state = .Candidate ∧ t = r.term ∧ id ∈ V)) :
    Does (accounted V b s v K hK) r (requestVote ct voteMsg t id)
      (fun _ r' => r'.state = r.state ∧ r'.term = r.term) := by
  unfold requestVote
  refine Does.read_bind (Does.lift_bind fun li hli => Does.lift_bind fun lt hlt => ?_)
  dsimp only
  generalize hq : (if ct = CAMPAIGN_TRANSFER then _ else _ : Message) = q
  have hfields : q.msgType = voteMsg ∧ q.to_ = id ∧ q.term = t ∧ q.index = li ∧
      q.logTerm = lt := by
    rw [← hq]
    split <;> exact ⟨rfl, rfl, rfl, rfl, rfl⟩
  obtain ⟨htype, hto, hterm, hindex, hlogTerm⟩ := hfields
  have hvote : isVoteMessage q.msgType = true := by
    rw [htype]
    rcases hkind with rfl | ⟨rfl, _⟩
    · rfl
    · rfl
  refine Does.of_ok (send_of_vote hvote (by rw [hterm]; exact ht) r)
    (accounted_still fun A _ h => h.post ?_) ⟨rfl, rfl⟩
  intro q' hq'
  obtain rfl := List.mem_singleton.mp hq'
  rcases hkind with rfl | ⟨rfl, hc, rfl, hid⟩
  · exact .of_silent h.id (Or.inl htype)
  · refine ⟨h.id, fun _ => ⟨h.standing (Or.inr hc), hto ▸ hid, A.log v, ?_, ?_, ?_⟩,
      ?_, ?_, ?_, ?_⟩
    · show A.stood v q.term = _
      rw [hterm]
      exact (h.candidate hc).1
    · rw [← h.log.lastIndex_eq, ← h.lastIndex_eq hli, hindex]
    · rw [← h.log.lastStamp_eq, ← h.lastTerm_eq hlt, hlogTerm]
    all_goals
      intro hother
      cases htype.symm.trans hother

/-- The requests of a campaign. -/
theorem accounted_requestVotes {ct : Bytes} {voteMsg : MessageType} (ht : t ≠ 0)
    (hkind : (voteMsg = .MsgRequestPreVote ∧ r.state = .PreCandidate) ∨
      (voteMsg = .MsgRequestVote ∧ r.state = .Candidate ∧ t = r.term)) :
    Does (accounted V b s v K hK) r (requestVotes ct voteMsg t) (fun _ _ => True) := by
  have hroles : r.state ≠ .Leader ∧ r.state ≠ .FOLLOWER := by
    rcases hkind with ⟨_, hrole⟩ | ⟨_, hrole, _⟩
    · rw [hrole]
      decide
    · rw [hrole]
      decide
  obtain ⟨hnot, hstands⟩ := hroles
  have hkept : ¬ StartedOver r.state r.prs := fun hover => hstands hover.follower
  refine accounted_of_mirrors fun ⟨A₀, h₀⟩ => ?_
  unfold requestVotes
  apply Does.read_bind
  cases hprs : r.prs with
  | none =>
      refine Does.of_run_eq (y := panic .unwrapNone) ?_ (Does.panic _)
      simp [takePrs, hprs]
  | some p =>
      -- the progress set is out while the requests are made
      refine Does.bind (Q := fun p' r₁ => p' = p ∧ r₁.state = r.state ∧ r₁.term = r.term) ?_ ?_
      · refine Does.of_ok (a := p) (t := { r with prs := none }) (l := []) ?_ ?_ ⟨rfl, rfl, rfl⟩
        · simp [takePrs, hprs]
          rfl
        · refine accounted_still fun A _ h => ?_
          exact { h with
            members := by rintro _ ⟨⟩
            voters := Or.inr (by rintro _ ⟨⟩)
            led := fun R hR hlead => absurd hlead (h.not_leader hnot hkept hR)
            peers := fun hl => absurd hl hnot }
      · rintro p r₁ ⟨rfl, hstate₁, hterm₁⟩
        refine Does.bind (Does.forM (I := fun t => t.state = r.state ∧ t.term = r.term)
          ⟨hstate₁, hterm₁⟩ ?_) ?_
        · rintro id hid t ⟨hstate, hterm⟩
          have hmem := (List.mem_filter.mp hid).1
          refine (accounted_requestVote ht ?_).weaken ?_
          · rcases hkind with ⟨htype, _⟩ | ⟨htype, hrole, hsame⟩
            · exact Or.inl htype
            · refine Or.inr ⟨htype, hstate.trans hrole, hsame.trans hterm.symm, ?_⟩
              rw [← h₀.seated hstands hprs]
              exact List.mem_toFinset.mpr hmem
          · rintro _ _ ⟨hs, ht⟩
            exact ⟨hs.trans hstate, ht.trans hterm⟩
        · rintro _ r₂ ⟨hstate₂, _⟩
          refine Does.of_ok (a := ()) rfl (accounted_still fun A _ h => ?_) trivial
          exact { h with
            members := by
              rintro _ ⟨⟩
              exact h₀.members p hprs
            voters := Or.inr (by
              rintro _ ⟨⟩
              exact h₀.seated hstands hprs)
            led := fun R hR hlead => Or.inl ((h.led R hR hlead).resolve_right
              fun hover => hstands (hstate₂.symm.trans hover.follower))
            peers := fun hl => absurd (hstate₂.symm.trans hl) hnot }

/-- The requests of a round that was begun in term `t`. -/
theorem accounted_ask {ct : Bytes} (hpre : ct = CAMPAIGN_PRE_ELECTION → r.state = .PreCandidate)
    (hreal : ct ≠ CAMPAIGN_PRE_ELECTION → r.state = .Candidate ∧ t = r.term ∧ t ≠ 0) :
    Does (accounted V b s v K hK) r
      (if ct = CAMPAIGN_PRE_ELECTION then requestVotes ct .MsgRequestPreVote (t + 1)
        else requestVotes ct .MsgRequestVote t) (fun _ _ => True) := by
  refine Does.ite (fun hct => ?_) fun hct => ?_
  · exact accounted_requestVotes (Nat.succ_ne_zero _) (Or.inl ⟨rfl, hpre hct⟩)
  · obtain ⟨hrole, hsame, ht⟩ := hreal hct
    exact accounted_requestVotes ht (Or.inr ⟨rfl, hrole, hsame⟩)

/-- One round, whose winner goes on as `elected` says. -/
theorem accounted_campaignRound {ct : Bytes} (hv : v ∈ V) (h0 : INVALID_ID ∉ V)
    (hkept : ¬ StartedOver r.state r.prs) {elected : Call Panic Event (Raft MemStorage) Unit}
    (helected : ∀ r', (ct = CAMPAIGN_PRE_ELECTION ∧ r'.state = .PreCandidate ∨
        ct ≠ CAMPAIGN_PRE_ELECTION ∧ r'.state = .Candidate) → r'.ctl.Elected →
      Does (accounted V b s v K hK) r' elected (fun _ _ => True)) :
    Does (accounted V b s v K hK) r (campaignRound ct elected) (fun _ _ => True) := by
  unfold campaignRound
  refine Does.ite (fun hct => ?_) fun hct => ?_
  · refine Does.bind (accounted_becomePreCandidate hv hkept) fun _ r' hrole => ?_
    refine Does.read_bind (Does.bind accounted_voteForSelf ?_)
    rintro _ r₁ ⟨hstate, _⟩
    refine does_pollVotes_bind fun st hst => ?_
    have hpre : r₁.state = .PreCandidate := hstate.trans hrole
    cases st with
    | Elected => exact helected r₁ (Or.inl ⟨hct, hpre⟩) (hst.mp rfl)
    | Eligible => exact accounted_ask (fun _ => hpre) fun hne => absurd hct hne
    | Ineligible => exact accounted_ask (fun _ => hpre) fun hne => absurd hct hne
  · refine Does.bind (accounted_becomeCandidate hv h0 hkept) fun _ r' hcand => ?_
    refine Does.read_bind (Does.bind accounted_voteForSelf ?_)
    rintro _ r₁ ⟨hstate, hterm⟩
    refine does_pollVotes_bind fun st hst => ?_
    have hcand₁ : r₁.state = .Candidate := hstate.trans hcand.1
    have hreal : ct ≠ CAMPAIGN_PRE_ELECTION →
        r₁.state = .Candidate ∧ r'.term = r₁.term ∧ r'.term ≠ 0 :=
      fun _ => ⟨hcand₁, hterm.symm, hcand.2⟩
    cases st with
    | Elected => exact helected r₁ (Or.inr ⟨hct, hcand₁⟩) (hst.mp rfl)
    | Eligible => exact accounted_ask (fun heq => absurd heq hct) hreal
    | Ineligible => exact accounted_ask (fun heq => absurd heq hct) hreal

theorem accounted_campaign (hv : v ∈ V) (h0 : INVALID_ID ∉ V)
    (hkept : ¬ StartedOver r.state r.prs) (ct : Bytes) :
    Does (accounted V b s v K hK) r (campaign ct) (fun _ _ => True) := by
  have hlead : ∀ {ct : Bytes}, ct ≠ CAMPAIGN_PRE_ELECTION → ∀ r' : Raft MemStorage,
      (ct = CAMPAIGN_PRE_ELECTION ∧ r'.state = .PreCandidate ∨
        ct ≠ CAMPAIGN_PRE_ELECTION ∧ r'.state = .Candidate) → r'.ctl.Elected →
      Does (accounted V b s v K hK) r' becomeLeader (fun _ _ => True) := by
    rintro ct hct r' (⟨heq, _⟩ | ⟨_, hrole⟩) hwon
    · exact absurd heq hct
    · exact (accounted_becomeLeader hrole hwon).weaken fun _ _ _ => trivial
  unfold campaign
  refine accounted_campaignRound hv h0 hkept fun r' hrole hwon => ?_
  refine Does.ite (fun hct => ?_) fun hct => hlead hct r' hrole hwon
  have hpre : r'.state = .PreCandidate := by
    rcases hrole with ⟨_, hpre⟩ | ⟨hne, _⟩
    · exact hpre
    · exact absurd hct hne
  refine accounted_campaignRound hv h0 (fun hover => ?_) (hlead (by decide))
  cases hpre.symm.trans hover.follower

/-! ## §4  Votes -/

section

variable {k : ℕ}

/-- A vote goes to a candidate whose log is not behind the node's own. -/
theorem Mirrors.grant (h : Mirrors V A v r) (hA : Consensus.Sound (Quorum V) b s A)
    (h0 : INVALID_ID ∉ V) (hm : Posted V A k m)
    (ht : m.msgType = .MsgRequestVote) (hto : m.to_ = v) (hterm : m.term = r.term)
    (hvote : r.vote = m.from_ ∨ r.vote = INVALID_ID)
    (hup : r.raftLog.isUpToDate m.index m.logTerm = .ok true) (hq : q.from_ = v)
    (hqt : q.msgType = .MsgRequestVoteResponse) (hqto : q.to_ = m.from_)
    (hqterm : q.term = m.term) :
    ∃ A', Consensus.Step (Quorum V) v A A' ∧
      Mirrors V A' v { r with msgs := r.msgs ++ [q], electionElapsed := 0, vote := m.from_ } := by
  obtain ⟨hk, hv, S, hS, hindex, hstamp⟩ := hm.request ht
  rw [hto] at hv
  have hne : m.from_ ≠ INVALID_ID := by
    rw [hm.from_]
    exact fun hz => h0 (hz ▸ hk)
  have hfree : ∀ d, A.voted v r.term d → d = k := by
    intro d hd
    obtain ⟨rfl, hd0⟩ := h.vote d hd
    rw [← hm.from_]
    exact hvote.resolve_right hd0
  have hupTo : Consensus.UpToDate S (A.log v) := by
    rw [h.sound.wellFormed.presents.isUpToDate, Except.ok.injEq, decide_eq_true_eq, ← hindex,
      ← hstamp, h.log.lastStamp_eq, h.log.lastIndex_eq] at hup
    exact hup
  have hstep : Consensus.Step (Quorum V) v A _ :=
    .vote (c := k) (by rw [h.term, ← hterm]; exact hS) (by rw [h.term]; exact hfree) hupTo
  obtain ⟨_, hrec⟩ := hA.step (fun _ _ => Quorum.meet) hstep
  refine ⟨_, hstep, ?_⟩
  exact
    { h with
      vote := by
        rintro d (hd | ⟨_, _, rfl⟩)
        · obtain rfl := hfree d hd
          exact ⟨hm.from_.symm, hm.from_ ▸ hne⟩
        · exact ⟨hm.from_.symm, hm.from_ ▸ hne⟩
      candidate := fun hc => by
        obtain ⟨hstood, hself, hvoted, hgrants⟩ := h.candidate hc
        refine ⟨hstood, ?_, Or.inl hvoted, fun k' hk' => ?_⟩
        · rcases hvote with heq | heq
          · exact heq.symm.trans hself
          · exact absurd (hself.symm.trans heq) fun hz => h0 (hz ▸ hv)
        · exact ⟨(hgrants k' hk').1, Or.inl (hgrants k' hk').2⟩
      peers := fun hl prs id pr hprs hpr =>
        (h.peers hl prs id pr hprs hpr).mono (fun _ _ _ hj => hj) (Nat.le_refl _)
      posted := by
        intro m' hm'
        rcases List.mem_append.mp hm' with hold | hnew
        · exact (h.posted m' hold).mono hrec
        · obtain rfl := List.mem_singleton.mp hnew
          refine ⟨hq, ?_, fun _ _ => ⟨hv, Or.inr ⟨rfl, ?_, ?_⟩⟩, ?_, ?_, ?_⟩
          · exact fun hother => by cases hqt.symm.trans hother
          · rw [hqterm, hterm, h.term]
          · rw [hqto, hm.from_]
          all_goals
            intro hother
            cases hqt.symm.trans hother }

/-- A message that says nothing goes out. -/
theorem accounted_reply {q : Message} (hv : isVoteMessage q.msgType = true)
    (ht : q.msgType = .MsgRequestPreVote ∨ q.msgType = .MsgRequestPreVoteResponse ∨
      (q.reject = true ∧ q.msgType = .MsgRequestVoteResponse)) :
    Does (accounted V b s v K hK) r (send q) (fun _ _ => True) := by
  by_cases hterm : q.term = 0
  · exact Does.of_error (send_of_term_eq_zero hterm r) trivial
  · refine Does.of_ok (send_of_vote hv hterm r) (accounted_still fun A _ h => h.post ?_) trivial
    intro q' hq'
    obtain rfl := List.mem_singleton.mp hq'
    exact .of_silent h.id (by tauto)

/-- The arm of `step` for vote requests, in the node's own term. -/
theorem accounted_stepVoteRequest (h0 : INVALID_ID ∉ V)
    (hreq : m.msgType = .MsgRequestVote ∨ m.msgType = .MsgRequestPreVote) (hto : m.to_ = v)
    (hterm : m.term = 0 ∨ m.term = r.term) :
    Does (accounted V b s v (fun A => Posted V A k m) fun _ _ hrec hm => hm.mono hrec) r
      (stepVoteRequest m) (fun _ _ => True) := by
  unfold stepVoteRequest
  refine Does.read_bind (Does.lift_bind fun approves happ => ?_)
  refine Does.lift_bind fun respType hresp => ?_
  dsimp only
  rcases hreq with ht | ht
  · obtain rfl : respType = .MsgRequestVoteResponse := by
      simpa [voteRespMsgType, ht] using hresp.symm
    refine Does.ite (fun happroves => ?_) fun _ => accounted_reply rfl (Or.inr (Or.inr ⟨rfl, rfl⟩))
    subst happroves
    simp only [if_pos ht]
    by_cases hzero : m.term = 0
    · exact Does.of_error (bind_error (send_of_term_eq_zero
        (q := { newMessage m.from_ .MsgRequestVoteResponse none with
          reject := false
          term := m.term }) hzero r)) trivial
    · have hvote := approvesVote_vote happ ht
      have hup : r.raftLog.isUpToDate m.index m.logTerm = .ok true := by
        unfold approvesVote at happ
        split at happ
        · exact happ
        · cases happ
      have hsend := send_of_vote (q := { newMessage m.from_ .MsgRequestVoteResponse none with
        reject := false
        term := m.term }) rfl hzero r
      refine Does.of_ok (a := ()) (by rw [bind_ok hsend]; rfl)
        (accounted_step fun A hA hm h => ?_) trivial
      exact h.grant hA h0 hm ht hto (hterm.resolve_left hzero) hvote hup h.id rfl rfl rfl
  · obtain rfl : respType = .MsgRequestPreVoteResponse := by
      simpa [voteRespMsgType, ht] using hresp.symm
    refine Does.ite (fun _ => ?_) fun _ => accounted_reply rfl (Or.inr (Or.inl rfl))
    refine Does.bind (accounted_reply rfl (Or.inr (Or.inl rfl))) fun _ r' _ => ?_
    rw [if_neg (by rw [ht]; decide)]
    exact Does.pure trivial

/-- A vote request is stepped. -/
theorem accounted_step_request (h0 : INVALID_ID ∉ V)
    (hreq : m.msgType = .MsgRequestVote ∨ m.msgType = .MsgRequestPreVote) (hto : m.to_ = v) :
    Does (accounted V b s v (fun A => Posted V A k m) fun _ _ hrec hm => hm.mono hrec) r
      (step m) (fun _ _ => True) := by
  have hdispatch : m.term = 0 ∨ m.term = r.term →
      Does (accounted V b s v (fun A => Posted V A k m) fun _ _ hrec hm => hm.mono hrec) r
        (dispatch m) (fun _ _ => True) := by
    intro hterm
    unfold dispatch
    have harm := accounted_stepVoteRequest (b := b) (s := s) (k := k) h0 hreq hto hterm
    rcases hreq with ht | ht <;> rw [ht] <;>
      exact Does.bind harm fun _ _ _ => Does.pure trivial
  unfold step
  refine Does.read_bind (Does.ite (fun hzero => hdispatch (Or.inl hzero)) fun _ => ?_)
  refine Does.ite (fun _ => ?_) fun hgt => Does.ite (fun _ => ?_) fun hlt => ?_
  · -- the request of a later term is not looked at
    rw [if_pos hreq]
    exact Does.pure trivial
  · refine Does.bind (Q := fun _ _ => True) ?_ fun _ _ _ => Does.pure trivial
    unfold stepLowerTerm
    refine Does.read_bind (Does.ite (fun hother => ?_) fun _ => ?_)
    · rcases hreq with ht | ht <;> rw [ht] at hother <;> simp at hother
    · exact Does.ite (fun _ => accounted_reply rfl (Or.inr (Or.inl rfl))) fun _ =>
        Does.pure trivial
  · exact hdispatch (Or.inr (by omega))

/-- A vote of the own term is counted. -/
theorem accounted_stepVoteResponse (h0 : INVALID_ID ∉ V)
    (hstand : r.state = .PreCandidate ∨ r.state = .Candidate) (hto : m.to_ = v)
    (hterm : m.msgType = .MsgRequestVoteResponse → m.term = r.term)
    {bcast : Call Panic Event (Raft MemStorage) Unit}
    (hbcast : ∀ {K' : Consensus.Group ℕ Entry → Prop}
      {hK' : ∀ A A', Consensus.Records A A' → K' A → K' A'} (r' : Raft MemStorage),
      r'.state = .Leader → Does (accounted V b s v K' hK') r' bcast (fun _ _ => True)) :
    Does (accounted V b s v (fun A => Posted V A k m) fun _ _ hrec hm => hm.mono hrec) r
      (stepVoteResponseVia bcast m) (fun _ _ => True) := by
  refine accounted_of_mirrors fun ⟨A₀, h₀⟩ => ?_
  have hv : v ∈ V := h₀.standing hstand
  have hkept : ¬ StartedOver r.state r.prs := by
    rintro ⟨hrole, _⟩
    rcases hstand with hs | hs
    · cases hs.symm.trans hrole
    · cases hs.symm.trans hrole
  unfold stepVoteResponseVia
  refine Does.read_bind (Does.ite (fun _ => Does.pure trivial) fun hskip => ?_)
  refine Does.modify_bind (accounted_unnoticed fun A _ hm h => h.count ?_)
    (does_pollVotes_bind fun st hst => ?_)
  · intro hc hg
    have ht : m.msgType = .MsgRequestVoteResponse := by
      by_contra hother
      exact hskip (Or.inr ⟨hc, hother⟩)
    obtain ⟨hk, hvoted⟩ := hm.grant ht (by simpa using hg)
    rw [hm.from_, ← hterm ht]
    exact ⟨hk, hto ▸ hvoted⟩
  · cases st with
    | Elected =>
        refine Does.ite (fun _ => accounted_campaign hv h0 (by exact hkept) _) fun hpre => ?_
        have hcand : r.state = .Candidate := hstand.resolve_left hpre
        exact Does.bind (accounted_becomeLeader (by exact hcand) (hst.mp rfl))
          fun _ r' hl => hbcast r' hl
    | Ineligible =>
        refine accounted_becomeFollower (Or.inr ⟨rfl, ?_⟩)
        show r.state ≠ .Leader
        rcases hstand with hs | hs <;> rw [hs] <;> decide
    | Eligible => exact Does.pure trivial

end

/-! ## §5  Ticks -/

theorem accounted_stepHup (hv : v ∈ V) (h0 : INVALID_ID ∉ V)
    (hkept : ¬ StartedOver r.state r.prs) :
    Does (accounted V b s v K hK) r stepHup (fun _ _ => True) := by
  unfold stepHup
  refine Does.read_bind (Does.ite (fun _ => ?_) fun _ => Does.pure trivial)
  refine Does.lift_bind fun ents _ => Does.ite (fun _ => Does.pure trivial) fun _ => ?_
  exact Does.ite (fun _ => accounted_campaign hv h0 hkept _) fun _ =>
    accounted_campaign hv h0 hkept _

/-- The timer of a voter may begin a campaign. -/
theorem accounted_tickElection (h0 : INVALID_ID ∉ V) :
    Does (accounted V b s v K hK) r tickElection (fun _ _ => True) := by
  refine accounted_of_mirrors fun ⟨A₀, h₀⟩ => ?_
  unfold tickElection
  refine Does.modify_bind (accounted_still fun A _ h => { h with }) (Does.read_bind ?_)
  refine Does.ite (fun _ => Does.pure trivial) fun _ => ?_
  unfold promotable
  refine Does.of_run_eq (bind_assoc_run _ _ _ _) (does_getPrs_bind fun p hp => ?_)
  refine Does.of_run_eq (bind_assoc_run _ _ _ _) (Does.read_bind ?_)
  apply Does.of_run_eq (pure_bind_run _ _ _)
  refine Does.ite (fun _ => Does.pure trivial) fun hprom => ?_
  have hmem : r.id ∈ p.voterIds.keys := AList.mem_keys.mp (by simpa using hprom)
  have hkept : ¬ StartedOver r.state r.prs := by
    intro hover
    rw [hover.voters p hp] at hmem
    cases hmem
  have hv : v ∈ V := by
    rw [← h₀.voters.resolve_left hkept p hp, List.mem_toFinset, ← h₀.id]
    exact hmem
  refine Does.modify_bind (accounted_still fun A _ h => { h with }) ?_
  refine Does.bind (Q := fun _ _ => True) ?_ fun _ _ _ => Does.pure trivial
  unfold step
  refine Does.read_bind ?_
  rw [if_pos (by rfl)]
  exact Does.bind (accounted_stepHup hv h0 hkept) fun _ _ _ => Does.pure trivial

/-- The timers of a leader. -/
theorem accounted_tickHeartbeat (hl : r.state = .Leader) :
    Does (accounted V b s v K hK) r tickHeartbeat (fun _ _ => True) := by
  unfold tickHeartbeat
  refine Does.modify_bind (accounted_still fun A _ h => { h with }) (Does.read_bind ?_)
  refine Does.bind (Q := fun _ r' => r'.state = .Leader) ?_ fun _ r₁ hl₁ => Does.read_bind ?_
  · refine Does.ite (fun _ => ?_) fun _ => Does.pure hl
    unfold tickElectionTimeout
    refine Does.modify_bind (accounted_still fun A _ h => { h with }) (Does.read_bind ?_)
    refine Does.bind (Q := fun _ r' => r'.state = .Leader) ?_ fun _ r₂ hl₂ => Does.read_bind ?_
    · refine Does.ite (fun _ => ?_) fun _ => Does.pure hl
      exact Does.of_error (step_leader_local (by exact hl) (Or.inl rfl) rfl) trivial
    · refine Does.bind (Q := fun _ r' => r'.state = .Leader) (Does.ite (fun _ => ?_)
        fun _ => Does.pure hl₂) fun _ _ h => Does.pure h
      exact Does.of_ok (a := ()) rfl (accounted_still fun A _ h => { h with }) hl₂
  · refine Does.ite (fun _ => Does.pure trivial) fun _ => Does.ite (fun _ => ?_)
      fun _ => Does.pure trivial
    refine Does.modify_bind (accounted_still fun A _ h => { h with }) ?_
    exact Does.of_error (bind_error (step_leader_local (by exact hl₁) (Or.inr rfl) rfl)) trivial

theorem accounted_tick (h0 : INVALID_ID ∉ V) :
    Does (accounted V b s v K hK) r tick (fun _ _ => True) := by
  unfold tick
  apply Does.read_bind
  cases hs : r.state with
  | Leader => exact accounted_tickHeartbeat hs
  | FOLLOWER => exact accounted_tickElection h0
  | PreCandidate => exact accounted_tickElection h0
  | Candidate => exact accounted_tickElection h0

end RsRaft
