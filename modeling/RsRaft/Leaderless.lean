import RsRaft.ElectionSafety
import RsRaft.GroupElections
import RsRaft.Replication

/-!
# A cluster that stays without a leader

Two voters or more never get a leader that runs. A node's own vote is no majority,
so the election is won while a vote is handled, and the winner goes straight into
`bcast_append`. Its first append has no term yet, which `send` refuses: the winner
panics. What stays running has never led, and so no log ever changes.

§1 a node that stands by · §2 roles and campaigns · §3 votes · §4 the winner ·
§5 the cluster.
-/

namespace RsRaft

open PlainLog Call Raft

section

variable {V : Finset ℕ} {log : RaftLog MemStorage} {r : Raft MemStorage} {m : Message}

/-! ## §1  A node that stands by -/

/-- A node that does not lead, over the log it began with. -/
structure StandsBy (V : Finset ℕ) (log : RaftLog MemStorage) (r : Raft MemStorage) :
    Prop where
  raftLog : r.raftLog = log
  role : r.state ≠ .Leader
  voters : ∀ prs, r.prs = some prs → prs.WellFormed ∧ prs.voterIds.keys.toFinset = V

/-- Taking the progress set out does no harm. -/
theorem StandsBy.without (h : StandsBy V log r) : StandsBy V log { r with prs := none } where
  raftLog := h.raftLog
  role := h.role
  voters _ hprs := by cases hprs

theorem StandsBy.push (h : StandsBy V log r) (ms : List Message) :
    StandsBy V log (r.push ms) where
  raftLog := h.raftLog
  role := h.role
  voters := h.voters

/-- A vote message is queued, and nothing else happens. -/
theorem StandsBy.send (h : StandsBy V log r) {q : Message}
    (hv : isVoteMessage q.msgType = true) :
    Does ending r (Raft.send q) (fun _ r' => StandsBy V log r') := by
  by_cases hterm : q.term = 0
  · exact Does.of_error (send_of_term_eq_zero hterm r) trivial
  · exact Does.of_ok (send_of_vote hv hterm r) trivial (h.push _)

/-! ## §2  Roles and campaigns -/

theorem StandsBy.becomeFollower (h : StandsBy V log r) (term leaderId : ℕ) :
    Does ending r (Raft.becomeFollower term leaderId) (fun _ r' => StandsBy V log r') := by
  rcases reset_cases term r with ⟨li, prs, _, hprs, hreset⟩ | ⟨p, r', hreset, _⟩
  · refine Does.of_ok (becomeFollower_ok hreset leaderId) trivial ?_
    exact
      { raftLog := h.raftLog
        role := by simp
        voters := by
          rintro _ ⟨⟩
          obtain ⟨hwf, hV⟩ := h.voters prs hprs
          exact ⟨wellFormed_resetProgress hwf _ _, hV⟩ }
  · exact Does.of_error (bind_error hreset) trivial

theorem StandsBy.becomePreCandidate (h : StandsBy V log r) :
    Does ending r Raft.becomePreCandidate
      (fun _ r' => StandsBy V log r' ∧ r'.votes = ∅) := by
  unfold Raft.becomePreCandidate
  refine Does.read_bind (Does.ite (fun _ => Does.panic _) fun _ => ?_)
  refine Does.of_ok (a := ())
    (t := { r with state := .PreCandidate, votes := ∅, leaderId := INVALID_ID })
    (l := [.role .PreCandidate]) ?_ trivial ⟨?_, rfl⟩
  · simp [setState]
  · exact
      { raftLog := h.raftLog
        role := by simp
        voters := h.voters }

theorem StandsBy.becomeCandidate (h : StandsBy V log r) :
    Does ending r Raft.becomeCandidate (fun _ r' => StandsBy V log r' ∧ r'.votes = ∅) := by
  rcases reset_cases (r.term + 1) r with ⟨li, prs, _, hprs, hreset⟩ | ⟨p, r', hreset, _⟩
  · refine Does.of_ok (becomeCandidate_ok h.role hreset) trivial ⟨?_, rfl⟩
    exact
      { raftLog := h.raftLog
        role := by simp
        voters := by
          rintro _ ⟨⟩
          obtain ⟨hwf, hV⟩ := h.voters prs hprs
          exact ⟨wellFormed_resetProgress hwf _ _, hV⟩ }
  · refine Does.of_error (p := p) (t := r') (l := resetEvents r.term (r.term + 1)) ?_ trivial
    unfold Raft.becomeCandidate
    rw [read_bind_run, ite_run, if_neg h.role, bind_error hreset]

theorem StandsBy.requestVotes (h : StandsBy V log r) {ct : Bytes} {voteMsg : MessageType}
    {term : ℕ} (hv : isVoteMessage voteMsg = true) :
    Does ending r (Raft.requestVotes ct voteMsg term) (fun _ r' => StandsBy V log r') := by
  unfold Raft.requestVotes takePrs
  refine Does.read_bind (Does.of_run_eq (bind_assoc_run _ _ _ _) (Does.read_bind ?_))
  cases hprs : r.prs with
  | none => exact Does.panic _
  | some p =>
      refine Does.of_run_eq (bind_assoc_run _ _ _ _) (Does.modify_bind trivial ?_)
      apply Does.of_run_eq (pure_bind_run _ _ _)
      -- the progress set is out while the requests are made
      refine Does.bind (Does.forM (I := StandsBy V log) h.without ?_) ?_
      · intro id _ t ht
        unfold requestVote
        refine Does.read_bind (Does.lift_bind fun index _ => Does.lift_bind fun logTerm _ => ?_)
        refine ht.send ?_
        dsimp only
        split
        · exact hv
        · exact hv
      · intro _ r' h'
        refine Does.of_ok (a := ()) rfl trivial ?_
        exact
          { raftLog := h'.raftLog
            role := h'.role
            voters := by
              rintro _ ⟨⟩
              exact h.voters p hprs }

theorem card_granters_self (id : ℕ) :
    (granters ((∅ : AList fun _ : ℕ => Bool).orInsert id true)).card ≤ 1 := by
  rw [← Finset.card_singleton id]
  refine Finset.card_le_card fun k hk => ?_
  rcases mem_granters_orInsert hk with hk | ⟨rfl, _⟩
  · rw [mem_granters] at hk
    cases hk
  · exact Finset.mem_singleton_self k

/-- The own vote is no majority of two voters, so it does not decide. -/
theorem StandsBy.voteForSelf_bind {β : Type} {f : CandidacyStatus → Call Panic Event _ β}
    {R : β → Raft MemStorage → Prop} (h : StandsBy V log r) (hvotes : r.votes = ∅)
    (hV : 2 ≤ V.card)
    (hf : ∀ st, st ≠ .Elected → ∀ r', StandsBy V log r' → Does ending r' (f st) R) :
    Does ending r (voteForSelf >>= fun _ => pollVotes >>= f) R := by
  refine Does.bind (Q := fun _ r' => r' = { r with votes := r.votes.orInsert r.id true })
    (Does.of_ok rfl trivial rfl) ?_
  rintro _ _ rfl
  unfold pollVotes
  refine Does.of_run_eq (bind_assoc_run _ _ _ _) (does_getPrs_bind fun p hp => ?_)
  refine hf (p.candidacyStatus (r.votes.orInsert r.id true)) ?_ _ ⟨h.raftLog, h.role, h.voters⟩
  obtain ⟨_, hvoters⟩ := h.voters p hp
  have hsize : p.voterIds.size = V.card := by rw [← hvoters, AList.card_keys]
  have hfew := card_granters_self r.id
  rw [ProgressSet.candidacyStatus_eq, hvotes, hsize, if_neg (by rw [majority]; omega)]
  split
  · decide
  · decide

/-- Whoever campaigns only asks. -/
theorem StandsBy.campaignRound (h : StandsBy V log r) (hV : 2 ≤ V.card) (ct : Bytes)
    (elected : Call Panic Event (Raft MemStorage) Unit) :
    Does ending r (Raft.campaignRound ct elected) (fun _ r' => StandsBy V log r') := by
  have hasked : ∀ {r' : Raft MemStorage} {t : ℕ}, StandsBy V log r' →
      Does ending r'
        (if ct = CAMPAIGN_PRE_ELECTION then Raft.requestVotes ct .MsgRequestPreVote (t + 1)
          else Raft.requestVotes ct .MsgRequestVote t) (fun _ r'' => StandsBy V log r'') :=
    fun h' => Does.ite (fun _ => h'.requestVotes rfl) fun _ => h'.requestVotes rfl
  unfold Raft.campaignRound
  refine Does.ite (fun _ => ?_) fun _ => ?_
  · refine Does.bind h.becomePreCandidate ?_
    rintro _ r' ⟨h', hvotes⟩
    refine Does.read_bind (h'.voteForSelf_bind hvotes hV fun st hst r'' h'' => ?_)
    cases st with
    | Elected => exact absurd rfl hst
    | Eligible => exact hasked h''
    | Ineligible => exact hasked h''
  · refine Does.bind h.becomeCandidate ?_
    rintro _ r' ⟨h', hvotes⟩
    refine Does.read_bind (h'.voteForSelf_bind hvotes hV fun st hst r'' h'' => ?_)
    cases st with
    | Elected => exact absurd rfl hst
    | Eligible => exact hasked h''
    | Ineligible => exact hasked h''

theorem StandsBy.stepHup (h : StandsBy V log r) (hV : 2 ≤ V.card) :
    Does ending r Raft.stepHup (fun _ r' => StandsBy V log r') := by
  unfold Raft.stepHup
  refine Does.read_bind (Does.ite (fun _ => ?_) fun _ => Does.pure h)
  refine Does.lift_bind fun ents _ => Does.ite (fun _ => Does.pure h) fun _ => ?_
  exact Does.ite (fun _ => h.campaignRound hV _ _) fun _ => h.campaignRound hV _ _

/-! ## §3  Votes -/

theorem StandsBy.stepVoteRequest (h : StandsBy V log r) :
    Does ending r (Raft.stepVoteRequest m) (fun _ r' => StandsBy V log r') := by
  unfold Raft.stepVoteRequest
  refine Does.read_bind (Does.lift_bind fun approves _ => Does.lift_bind fun respType hresp => ?_)
  have hv := voteRespMsgType_isVote hresp
  refine Does.ite (fun _ => ?_) fun _ => h.send hv
  refine Does.bind (h.send hv) fun _ r' h' => Does.ite (fun _ => ?_) fun _ => Does.pure h'
  exact Does.of_ok (a := ()) rfl trivial ⟨h'.raftLog, h'.role, h'.voters⟩

/-- An answer to a lower term is a vote message, or it is refused. -/
theorem StandsBy.stepLowerTerm (h : StandsBy V log r) :
    Does ending r (Raft.stepLowerTerm m) (fun _ r' => StandsBy V log r') := by
  unfold Raft.stepLowerTerm
  refine Does.read_bind (Does.ite (fun _ => ?_) fun _ => Does.ite (fun _ => ?_) fun _ => ?_)
  · exact Does.of_error (send_of_term_eq_zero rfl r) trivial
  · exact h.send rfl
  · exact Does.pure h

/-! ## §4  The winner -/

/-- A new leader, whose log ended at `last` before: no peer has been sent anything. -/
structure Opened (V : Finset ℕ) (me last : ℕ) (r : Raft MemStorage) : Prop where
  id : r.id = me
  log : r.raftLog.Sound
  base : r.raftLog.logical.base ≤ last
  reaches : last ≤ r.raftLog.logical.lastIndex
  voters : ∀ prs, r.prs = some prs → ∀ k ∈ V, k ∈ prs.progress
  peers : ∀ prs, r.prs = some prs → ∀ k pr, k ≠ me → prs.get k = some pr →
    pr.isPaused = false ∧ pr.nextIdx = last + 1

variable {me last : ℕ}

theorem Opened.updateOwnProgress (h : Opened V me last r) (f : Progress → Progress) :
    Does ending r (Raft.updateOwnProgress f) (fun _ r' => Opened V me last r') := by
  unfold Raft.updateOwnProgress
  refine Does.read_bind (does_getPrs_bind fun p hp => ?_)
  cases hget : p.get r.id with
  | none => exact Does.panic _
  | some pr =>
      refine Does.of_ok (a := ()) rfl trivial ?_
      exact
        { id := h.id
          log := h.log
          base := h.base
          reaches := h.reaches
          voters := by
            rintro _ ⟨⟩ k hk
            exact AList.mem_replace.mpr (h.voters p hp k hk)
          peers := by
            rintro _ ⟨⟩ k pr' hk hpr'
            rcases ProgressSet.get_put hget hpr' with ⟨rfl, _⟩ | hold
            · exact absurd h.id hk
            · exact h.peers p hp k pr' hk hold }

theorem Opened.without (h : Opened V me last r) : Opened V me last { r with prs := none } where
  id := h.id
  log := h.log
  base := h.base
  reaches := h.reaches
  voters _ hprs := by cases hprs
  peers _ hprs := by cases hprs

/-- A longer log, or one that has committed more. -/
theorem Opened.grow (h : Opened V me last r) {log' : RaftLog MemStorage} (hsound : log'.Sound)
    (hbase : log'.logical.base = r.raftLog.logical.base)
    (hlast : r.raftLog.logical.lastIndex ≤ log'.logical.lastIndex) :
    Opened V me last { r with raftLog := log' } where
  id := h.id
  log := hsound
  base := by rw [hbase]; exact h.base
  reaches := Nat.le_trans h.reaches hlast
  voters := h.voters
  peers := h.peers

theorem Opened.maybeCommit (h : Opened V me last r) :
    Does ending r Raft.maybeCommit (fun _ r' => Opened V me last r') := by
  unfold Raft.maybeCommit
  refine does_getPrs_bind fun p _ => Does.lift_bind fun mci _ => ?_
  refine Does.read_bind (Does.lift_bind fun a ha => Does.modify_bind trivial (Does.pure ?_))
  obtain ⟨ok, log'⟩ := a
  rcases h.log.maybeCommit_cases ha with rfl | ⟨hlt, _, hin, rfl⟩
  · exact h
  · have hcommit := Nat.le_of_lt hlt
    obtain ⟨hsound, _⟩ := h.log.with_cursors (Nat.le_refl _) hcommit
      (Nat.le_trans h.log.applied_le hcommit) hin
    exact h.grow hsound rfl (Nat.le_refl _)

theorem Opened.appendEntry (h : Opened V me last r) (ents : List Entry) :
    Does ending r (Raft.appendEntry ents) (fun _ r' => Opened V me last r') := by
  unfold Raft.appendEntry
  refine Does.read_bind (Does.lift_bind fun li hli => Does.lift_bind fun a ha => ?_)
  obtain ⟨n, log'⟩ := a
  have hpres := h.log.wellFormed.presents
  obtain rfl : r.raftLog.logical.lastIndex = li := by
    rw [hpres.lastIndex] at hli
    exact Except.ok.inj hli
  obtain ⟨hsound, _, _, hlog⟩ := h.log.append_end (by
    intro k e he
    rw [List.getElem?_mapIdx] at he
    obtain ⟨d, _, rfl⟩ := Option.map_eq_some_iff.mp he
    rfl) ha
  have hopen : Opened V me last { r with raftLog := log' } := by
    refine h.grow hsound ?_ ?_
    · rw [hlog, overwrite_base]
    · rw [hlog, lastIndex_overwrite base_le_lastIndex (Nat.le_refl _)]
      exact Nat.le_add_right _ _
  refine Does.modify_bind trivial (Does.bind (hopen.updateOwnProgress _) fun _ r₁ h₁ => ?_)
  exact Does.bind h₁.maybeCommit fun _ _ h₂ => Does.pure h₂

theorem StandsBy.becomeLeader (h : StandsBy V log r) (hsound : log.Sound) :
    Does ending r Raft.becomeLeader
      (fun _ r' => Opened V r.id log.logical.lastIndex r') := by
  obtain rfl := h.raftLog
  rcases reset_cases r.term r with ⟨li, prs, hli, hprs, hreset⟩ | ⟨p, r', hreset, _⟩
  · obtain rfl : r.raftLog.logical.lastIndex = li := by
      rw [hsound.wellFormed.presents.lastIndex] at hli
      exact Except.ok.inj hli
    rw [show resetEvents r.term r.term = [] from if_pos rfl] at hreset
    refine Does.of_run_eq (y := (fun _ => ⟨.ok (),
        { r.resetTo r.term r.raftLog.logical.lastIndex prs with
          leaderId := r.id
          state := .Leader }, [.leads r.term, .role .Leader]⟩) >>= fun _ => _)
      (becomeLeader_head h.role hreset) ?_
    have hopen : Opened V r.id r.raftLog.logical.lastIndex
        { r.resetTo r.term r.raftLog.logical.lastIndex prs with
          leaderId := r.id
          state := .Leader } :=
      { id := rfl
        log := hsound
        base := base_le_lastIndex
        reaches := Nat.le_refl _
        voters := by
          rintro _ ⟨⟩ k hk
          obtain ⟨hwf, hV⟩ := h.voters prs hprs
          rw [← hV, List.mem_toFinset, ← AList.mem_keys] at hk
          exact ((wellFormed_resetProgress hwf _ _).members k).mpr (Or.inl hk)
        peers := by
          rintro _ ⟨⟩ k pr _ hpr
          obtain ⟨_, hnext, _, _, hpaused⟩ := get_resetProgress hpr
          exact ⟨hpaused, hnext⟩ }
    refine Does.bind (Q := fun _ r₁ => Opened V r.id r.raftLog.logical.lastIndex r₁)
      (Does.of_ok rfl trivial hopen) fun _ r₁ h₁ => ?_
    refine Does.bind (h₁.updateOwnProgress _) fun _ r₂ h₂ => ?_
    refine Does.read_bind (Does.lift_bind fun li _ => Does.modify_bind trivial ?_)
    refine Opened.appendEntry (r := { r₂ with pendingConfIndex := li }) ?_ _
    exact ⟨h₂.id, h₂.log, h₂.base, h₂.reaches, h₂.voters, h₂.peers⟩
  · refine Does.of_error (p := p) (t := r') (l := .leads r.term :: resetEvents r.term r.term)
      ?_ trivial
    unfold Raft.becomeLeader
    rw [read_bind_run, emit_bind_run, ite_run, if_neg h.role, bind_error hreset]
    rfl

/-- The first append to any peer has entries to send and no term. -/
theorem Opened.sendAppend (h : Opened V me last r) {k : ℕ} {pr : Progress}
    (hopen : pr.isPaused = false) (hnext : pr.nextIdx = last + 1) :
    Does ending r (Raft.sendAppend k pr) (fun _ _ => False) := by
  unfold Raft.sendAppend sendAppendVia
  rw [hopen, if_neg (by decide)]
  have hpres := h.log.wellFormed.presents
  refine Does.read_bind (Does.lift_bind fun tr htr => Does.lift_bind fun er her => ?_)
  rw [hpres.term] at htr
  cases htr
  obtain ⟨es, hes, _⟩ := entries_segment h.log.wellFormed (i := pr.nextIdx)
    (by rw [hnext]; exact Nat.lt_succ_of_le h.base)
    (by rw [hnext]; exact Nat.succ_le_succ h.reaches) r.maxMsgSize
  rw [hes] at her
  cases her
  dsimp only
  refine Does.bind (does_prepareSendEntries _ _ _ _ r) fun a r' ha => ?_
  exact Does.bind (does_send_refused ha r' trivial (Q := fun _ _ => False)) fun _ _ hno => hno.elim

/-- The loop over the peers stops at the first peer it sends to. -/
theorem Opened.bcastAppend (h : Opened V me last r) {k : ℕ} (hk : k ∈ V) (hother : k ≠ me) :
    Does ending r Raft.bcastAppend (fun _ _ => False) := by
  unfold Raft.bcastAppend forPeers takePrs
  refine Does.read_bind (Does.of_run_eq (bind_assoc_run _ _ _ _) (Does.read_bind ?_))
  cases hprs : r.prs with
  | none => exact Does.panic _
  | some p =>
      refine Does.of_run_eq (bind_assoc_run _ _ _ _) (Does.modify_bind trivial ?_)
      apply Does.of_run_eq (pure_bind_run _ _ _)
      refine Does.bind (Q := fun _ _ => False) ?_ fun _ _ hno => hno.elim
      unfold AList.forValuesM
      refine Does.foldlM_stops (I := fun acc t => Opened V me last t ∧ k ∈ acc ∧
        ∀ j pr, j ≠ me → acc.lookup j = some pr → pr.isPaused = false ∧ pr.nextIdx = last + 1)
        ⟨h.without, h.voters p hprs k hk, h.peers p hprs⟩ ?_
        (AList.mem_keys.mp (h.voters p hprs k hk)) ?_
      · rintro j _ acc t ⟨ht, hkacc, hpeers⟩
        cases hget : acc.lookup j with
        | none => exact Does.pure ⟨ht, hkacc, hpeers⟩
        | some pr =>
            refine Does.bind (Q := fun pr' t' => t' = t ∧ j = me)
              (Does.ite (fun hj => ?_) fun hj => ?_) ?_
            · rw [h.id] at hj
              obtain ⟨hpaused, hnext⟩ := hpeers j pr hj hget
              exact (ht.sendAppend hpaused hnext).weaken fun _ _ hno => hno.elim
            · exact Does.pure ⟨rfl, (not_not.mp hj).trans h.id⟩
            · rintro pr' _ ⟨rfl, rfl⟩
              refine Does.pure ⟨ht, AList.mem_replace.mpr hkacc, fun i pri hi hpri => ?_⟩
              rw [AList.lookup_replace_ne pr' hi] at hpri
              exact hpeers i pri hi hpri
      · rintro acc t ⟨ht, hkacc, hpeers⟩
        obtain ⟨pr, hget⟩ := AList.mem_iff_exists_lookup.mp hkacc
        obtain ⟨hpaused, hnext⟩ := hpeers k pr hother hget
        rw [hget]
        dsimp only
        rw [if_pos (by rw [h.id]; exact hother)]
        exact Does.bind (ht.sendAppend hpaused hnext) fun _ _ hno => hno.elim

/-- Whoever wins an election panics in its first broadcast. -/
theorem StandsBy.win (h : StandsBy V log r) (hsound : log.Sound) (hV : 2 ≤ V.card) :
    Does ending r (Raft.becomeLeader >>= fun _ => Raft.bcastAppend) (fun _ _ => False) := by
  obtain ⟨k, hk, hother⟩ := Finset.exists_mem_ne (Nat.lt_of_succ_le hV) r.id
  exact Does.bind (h.becomeLeader hsound) fun _ _ hopen => hopen.bcastAppend hk hother

theorem StandsBy.stepVoteResponse (h : StandsBy V log r) (hsound : log.Sound)
    (hV : 2 ≤ V.card) :
    Does ending r (Raft.stepVoteResponse m) (fun _ r' => StandsBy V log r') := by
  unfold Raft.stepVoteResponse
  refine Does.read_bind (Does.ite (fun _ => Does.pure h) fun _ => ?_)
  refine Does.modify_bind trivial (does_pollVotes_bind fun st _ => ?_)
  have h' : StandsBy V log { r with votes := r.votes.orInsert m.from_ (!m.reject) } :=
    ⟨h.raftLog, h.role, h.voters⟩
  cases st with
  | Elected =>
      refine Does.ite (fun _ => h'.campaignRound hV _ _) fun _ => ?_
      exact (h'.win hsound hV).weaken fun _ _ hno => hno.elim
  | Ineligible => exact h'.becomeFollower _ _
  | Eligible => exact Does.pure h'

/-! ## §5  The cluster -/

/-- What reaches a node of the cluster. -/
def Asks (m : Message) : Prop := m.msgType = .MsgHup ∨ isVoteMessage m.msgType = true

theorem StandsBy.dispatch (h : StandsBy V log r) (hsound : log.Sound) (hV : 2 ≤ V.card)
    (hm : Asks m) : Does ending r (Raft.dispatch m) (fun _ r' => StandsBy V log r') := by
  have hresponse : Does ending r (stepByRole m) (fun _ r' => StandsBy V log r') := by
    by_cases hstand : r.ctl.Standing
    · refine Does.of_run_eq (stepByRole_standing hstand) ?_
      unfold stepCandidate
      rcases hm with hm | hm
      · rw [hm]
        exact Does.pure h
      · cases ht : m.msgType
        case MsgRequestVoteResponse =>
          exact Does.bind (h.stepVoteResponse hsound hV) fun _ _ h' => Does.pure h'
        case MsgRequestPreVoteResponse =>
          exact Does.bind (h.stepVoteResponse hsound hV) fun _ _ h' => Does.pure h'
        case MsgRequestVote => exact Does.pure h
        case MsgRequestPreVote => exact Does.pure h
        all_goals rw [ht] at hm; cases hm
    · exact Does.of_run_eq (stepByRole_idle hstand) (Does.panic _)
  unfold Raft.dispatch
  cases hm' : m.msgType
  case MsgHup => exact Does.bind (h.stepHup hV) fun _ _ h' => Does.pure h'
  case MsgRequestVote => exact Does.bind h.stepVoteRequest fun _ _ h' => Does.pure h'
  case MsgRequestPreVote => exact Does.bind h.stepVoteRequest fun _ _ h' => Does.pure h'
  all_goals exact hresponse

theorem StandsBy.step (h : StandsBy V log r) (hsound : log.Sound) (hV : 2 ≤ V.card)
    (hm : Asks m) : Does ending r (Raft.step m) (fun _ r' => StandsBy V log r') := by
  unfold Raft.step
  refine Does.read_bind (Does.ite (fun _ => h.dispatch hsound hV hm) fun _ => ?_)
  refine Does.ite (fun _ => ?_) fun _ => Does.ite (fun _ => ?_) fun _ => h.dispatch hsound hV hm
  · refine Does.ite (fun _ => Does.pure h) fun _ => ?_
    refine Does.ite (fun _ => h.dispatch hsound hV hm) fun _ => Does.ite (fun _ => ?_) fun _ => ?_
    · exact Does.bind (h.becomeFollower _ _) fun _ _ h' => h'.dispatch hsound hV hm
    · exact Does.bind (h.becomeFollower _ _) fun _ _ h' => h'.dispatch hsound hV hm
  · exact Does.bind h.stepLowerTerm fun _ _ h' => Does.pure h'

theorem StandsBy.tick (h : StandsBy V log r) (hsound : log.Sound) (hV : 2 ≤ V.card) :
    Does ending r Raft.tick (fun _ r' => StandsBy V log r') := by
  have helection : Does ending r Raft.tickElection (fun _ r' => StandsBy V log r') := by
    unfold Raft.tickElection promotable
    refine Does.modify_bind trivial (Does.read_bind ?_)
    have h₁ : StandsBy V log { r with electionElapsed := r.electionElapsed + 1 } :=
      ⟨h.raftLog, h.role, h.voters⟩
    refine Does.ite (fun _ => Does.pure h₁) fun _ => ?_
    refine Does.of_run_eq (bind_assoc_run _ _ _ _) (does_getPrs_bind fun p _ => ?_)
    refine Does.of_run_eq (bind_assoc_run _ _ _ _) (Does.read_bind ?_)
    apply Does.of_run_eq (pure_bind_run _ _ _)
    refine Does.ite (fun _ => Does.pure h₁) fun _ => Does.modify_bind trivial ?_
    have h₂ : StandsBy V log { r with electionElapsed := 0 } := ⟨h.raftLog, h.role, h.voters⟩
    exact Does.bind (h₂.step hsound hV (Or.inl rfl)) fun _ _ h' => Does.pure h'
  unfold Raft.tick
  apply Does.read_bind
  cases hs : r.state with
  | Leader => exact absurd hs h.role
  | FOLLOWER => exact helection
  | PreCandidate => exact helection
  | Candidate => exact helection

theorem StandsBy.handle (h : StandsBy V log r) (hsound : log.Sound) (hV : 2 ≤ V.card)
    {i : Input} (hi : ∀ m, i = .step m → Asks m) :
    Does ending r (Raft.handle i) (fun _ r' => StandsBy V log r') := by
  cases i with
  | tick => exact Does.bind (h.tick hsound hV) fun _ _ h' => Does.pure h'
  | step m => exact Does.bind (h.step hsound hV (hi m rfl)) fun _ _ h' => Does.pure h'

end

namespace Cluster

variable {V : Finset ℕ} {C₀ C C' : Cluster MemStorage}

/-- Whoever still runs stands by. -/
def Leaderless (V : Finset ℕ) (C₀ C : Cluster MemStorage) : Prop :=
  ∀ n M, C n = some M → M.stopped = false →
    ∃ M₀, C₀ n = some M₀ ∧ StandsBy V M₀.raft.raftLog M.raft

theorem Leaderless.step (h : Leaderless V C₀ C) (hsafe : Safe V C) (hV : 2 ≤ V.card)
    (hsound : ∀ n M, C₀ n = some M → M.raft.raftLog.Sound) (hstep : Step C C') :
    Leaderless V C₀ C' := by
  cases hstep with
  | @call n M i rng hn hrunning hi =>
    intro k K hk hst
    by_cases hkn : k = n
    · subst hkn
      rw [Function.update_self] at hk
      cases hk
      obtain ⟨M₀, hM₀, hstands⟩ := h k M hn hrunning
      refine ⟨M₀, hM₀, ?_⟩
      have hstart : StandsBy V M₀.raft.raftLog { M.raft with rng := rng } :=
        ⟨hstands.raftLog, hstands.role, hstands.voters⟩
      have hdoes := hstart.handle (hsound k M₀ hM₀) hV (i := i) (by
        rintro m rfl
        cases hi with
        | deliver hj hm hto => exact (hsafe.arrives hj hm hto).kind.imp_right And.left)
      cases hrun : Raft.handle i { M.raft with rng := rng } with
      | mk x r' es =>
          cases x with
          | ok a => exact (hdoes.ok hrun).2
          | error p =>
              rw [hrun] at hst
              cases hst
    · rw [Function.update_of_ne hkn] at hk
      exact h k K hk hst

theorem Reachable.leaderless (h₀ : Initial V C₀) (hV : 2 ≤ V.card)
    (hprs : ∀ n M prs, C₀ n = some M → M.raft.prs = some prs → prs.WellFormed)
    (hsound : ∀ n M, C₀ n = some M → M.raft.raftLog.Sound) (h : Reachable C₀ C) :
    Leaderless V C₀ C := by
  induction h with
  | refl =>
      intro n M hn _
      obtain ⟨prs, hp, hvoters⟩ := h₀.voters n M hn
      refine ⟨M, hn, rfl, ?_, fun p hp' => ?_⟩
      · rw [h₀.follower n M hn]
        decide
      · obtain rfl : prs = p := Option.some.inj (hp.symm.trans hp')
        exact ⟨hprs n M prs hn hp, hvoters⟩
  | step h hstep ih => exact ih.step (h.safe h₀) hV hsound hstep

/-- With two voters or more, nobody who still runs leads or has ever changed its log, and
nobody has sent anything but votes. -/
theorem none_leads (h₀ : Initial V C₀) (hV : 2 ≤ V.card)
    (hprs : ∀ n M prs, C₀ n = some M → M.raft.prs = some prs → prs.WellFormed)
    (hsound : ∀ n M, C₀ n = some M → M.raft.raftLog.Sound) (h : Reachable C₀ C) {n : ℕ}
    {M : Member MemStorage} (hn : C n = some M) :
    (∀ q ∈ M.raft.msgs, isVoteMessage q.msgType = true) ∧
      (M.stopped = false → M.raft.state ≠ .Leader ∧
        ∃ M₀, C₀ n = some M₀ ∧ M.raft.raftLog = M₀.raft.raftLog) := by
  refine ⟨fun q hq => ?_, fun hst => ?_⟩
  · obtain ⟨_, _, hpast, _⟩ := h.safe h₀ n M hn
    exact (hpast.sound q hq).kind
  · obtain ⟨M₀, hM₀, hstands⟩ := h.leaderless h₀ hV hprs hsound n M hn hst
    exact ⟨hstands.role, M₀, hM₀, hstands.raftLog⟩

theorem sound_empty : RaftLog.Sound
    { store := ({} : MemStorage), unstable := Unstable.new 1, committed := 0, applied := 0 } :=
  (RaftLog.sound_new (show ({} : MemStorage).core.WellFormed from
    MemStorageCore.wellFormed_default) rfl).1

/-- The first wins the election and panics; the second, who granted its vote, runs on. -/
theorem none_leads_elected :
    (leading.raft.state = .Leader ∧ leading.stopped = true) ∧
    (granting.stopped = false ∧ granting.raft.state ≠ .Leader ∧
      ∃ M₀, threeNodes 2 = some M₀ ∧ granting.raft.raftLog = M₀.raft.raftLog) := by
  have hmember : ∀ n M, threeNodes n = some M → M = first ∨ M = second ∨ M = third := by
    intro n M hn
    simp only [threeNodes, Function.update_apply] at hn
    split at hn
    · simp_all
    · split at hn <;> simp_all
  have hstays := (none_leads threeNodes_initial (by decide) ?_ ?_ elected_reachable (n := 2)
    (M := granting) (by simp [elected])).2
  · exact ⟨⟨by decide +kernel, by decide +kernel⟩, by decide +kernel, hstays (by decide +kernel)⟩
  · intro n M prs hn hp
    obtain rfl : ProgressSet.ofIds [1, 2, 3] [] = prs := by
      rcases hmember n M hn with rfl | rfl | rfl
      · exact Option.some.inj hp
      · exact Option.some.inj hp
      · exact Option.some.inj hp
    exact ProgressSet.wellFormed_ofIds (by decide)
  · intro n M hn
    rcases hmember n M hn with rfl | rfl | rfl
    · exact sound_empty
    · exact sound_empty
    · exact sound_empty

end Cluster

end RsRaft
