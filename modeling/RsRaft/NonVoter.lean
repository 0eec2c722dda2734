import RsRaft.Run

/-!
# Nodes outside the voter set

`tick_election` asks whether the node is promotable before it steps a `MsgHup`;
a `MsgHup` that arrives through `step` is not asked about, and neither
`campaign` nor `candidacy_status` looks at who the node is. A node outside of
its voter set therefore stays a follower exactly as long as nobody hands it a
`MsgHup` that gets as far as `campaign`, or, if it already stands, the response
that completes a majority.

§1 calm traces · §2 calls that do not campaign · §3 runs.
-/

namespace RsRaft

open Ctl Call

/-! ## §1  Calm traces -/

/-- Not a role other than follower, and not a vote for oneself. -/
def Event.calm : Event → Bool
  | .role s => s == .FOLLOWER
  | .selfVote => false
  | _ => true

def Calm (es : List Event) : Prop := ∀ e ∈ es, e.calm = true

theorem Calm.nil : Calm [] := by
  intro e he
  cases he

theorem Calm.append {es es' : List Event} (h : Calm es) (h' : Calm es') : Calm (es ++ es') := by
  intro e he
  rcases List.mem_append.mp he with he | he
  · exact h e he
  · exact h' e he

theorem calm_resetEvents (old term : ℕ) : Calm (Raft.resetEvents old term) := by
  unfold Raft.resetEvents
  split
  · exact Calm.nil
  · simp [Calm, Event.calm]

namespace Ctl

variable {m : Message} {c c' : Ctl} {es : List Event}

/-- Only election messages make a node stand. -/
theorem Move.calm (h : Move m c es c') (hm : ¬ Elects m) : Calm es := by
  cases h with
  | follow _ => exact (calm_resetEvents _ _).append (by simp [Calm, Event.calm])
  | preCampaign hup _ _ _ => exact absurd (Or.inl hup) hm
  | campaign _ h => exact absurd (h.elim (fun h => Or.inl h.1) And.left) hm
  | ownVote h _ => exact absurd h hm
  | count _ _ => exact Calm.nil
  | lead h _ _ => exact absurd h hm
  | queue _ _ => simp [Calm, Event.calm]
  | grant _ _ _ _ _ _ _ _ => simp [Calm, Event.calm]
  | refused _ => simp [Calm, Event.calm]

theorem Moves.calm (h : Moves m c es c') (hm : ¬ Elects m) : Calm es := by
  induction h with
  | refl => exact Calm.nil
  | step _ hmove ih => exact ih.append (hmove.calm hm)

theorem Moves.id_voters (h : Moves m c es c') : c'.id = c.id ∧ c'.voters = c.voters := by
  induction h with
  | refl => exact ⟨rfl, rfl⟩
  | step _ hmove ih => exact ⟨hmove.id_voters.1.trans ih.1, hmove.id_voters.2.trans ih.2⟩

theorem Breaks.calm {msgs : List Message} (h : Breaks m c es msgs) (hm : ¬ Elects m) :
    Calm es := by
  obtain ⟨es₀, es₁, c', hmoves, rfl, _, hlast⟩ := h
  refine (hmoves.calm hm).append ?_
  rcases hlast with rfl | ⟨es₂, c'', hmove⟩
  · exact Calm.nil
  · exact fun e he => hmove.calm hm e (List.mem_append_left _ he)

end Ctl

/-! ## §2  Calls that do not campaign -/

namespace Raft

section Methods

variable {T : Type} [Storage T] {m : Message} {r : Raft T} {α : Type}
  {x : Call Panic Event (Raft T) α} {Q : α → Raft T → Prop}

/-- A call with a calm trace. -/
def calming (T : Type) : Behaviour Event (Raft T) where
  runs _ es _ := Calm es
  stops _ es _ := Calm es
  refl _ := Calm.nil
  stops_refl _ := Calm.nil
  trans h h' := h.append h'
  stops_after h h' := h.append h'

omit [Storage T] in
theorem calming_of_moving (h : Does (moving T m) r x Q) (hm : ¬ Elects m) :
    Does (calming T) r x Q :=
  h.mono (fun _ _ h => Moves.calm h hm) (fun _ _ h => Breaks.calm h hm)

theorem calm_becomeFollower (term l : ℕ) (r : Raft T) :
    Does (calming T) r (becomeFollower term l)
      (fun _ r' => r'.state = .FOLLOWER ∧ r'.term = term ∧ r'.raftLog = r.raftLog) := by
  refine (does_becomeFollower_of ?_ ?_).weaken ?_
  · exact fun _ _ => calm_resetEvents _ _
  · exact fun _ _ _ => (calm_resetEvents _ _).append (by simp [Calm, Event.calm])
  · rintro _ r' ⟨hctl, hlog⟩
    exact ⟨congrArg Ctl.role hctl, congrArg Ctl.term hctl, hlog⟩

variable [ProtoMessage Entry]

/-- The un-applied entries can be read, and none of them keeps `MsgHup` from
campaigning. -/
def PassesScan (r : Raft T) : Prop :=
  ∃ ents, r.raftLog.slice (r.raftLog.applied + 1) (r.raftLog.committed + 1) NO_LIMIT
      = .ok (.ok ents) ∧
    (numPendingConf ents = 0 ∨ r.raftLog.committed ≤ r.raftLog.applied)

/-- The message is a `MsgHup` that starts an election of the node. -/
def StartsElection (r : Raft T) (m : Message) : Prop :=
  m.msgType = .MsgHup ∧ (m.term = 0 ∨ r.term ≤ m.term) ∧
    (r.state ≠ .Leader ∨ r.term < m.term) ∧ r.PassesScan

omit [Storage T] [ProtoMessage Entry] in
/-- The message is the response with which a standing node has a majority. -/
def CompletesElection (r : Raft T) (m : Message) : Prop :=
  ((r.state = .PreCandidate ∧ m.msgType = .MsgRequestPreVoteResponse) ∨
    (r.state = .Candidate ∧ m.msgType = .MsgRequestVoteResponse)) ∧
  r.ctl.Admits m ∧ (r.ctl.count m.from_ (!m.reject)).Elected

theorem calm_stepHup (h : r.state = .Leader ∨ ¬ r.PassesScan) :
    Does (calming T) r stepHup (fun _ _ => True) := by
  unfold stepHup
  refine Does.read_bind (Does.ite (fun hrole => ?_) fun _ => Does.pure trivial)
  have hscan := h.resolve_left hrole
  refine Does.lift_bind fun ents hents => Does.ite (fun _ => Does.pure trivial) fun hpend => ?_
  refine absurd ⟨ents, ?_, ?_⟩ hscan
  · unfold unwrap at hents
    obtain ⟨res, hslice, hres⟩ := bind_eq_ok hents
    cases res with
    | error e => cases hres
    | ok ents' =>
        cases hres
        exact hslice
  · rcases not_and_or.mp hpend with h | h
    · exact Or.inl (by simpa using h)
    · exact Or.inr (by simpa using h)

theorem calm_stepVoteResponse (hstand : r.ctl.Standing) (ha : r.ctl.Admits m)
    (h : ¬ r.CompletesElection m) :
    Does (calming T) r (stepVoteResponse m) (fun _ _ => True) := by
  unfold stepVoteResponse
  refine Does.read_bind (Does.ite (fun _ => Does.pure trivial) fun hskip => ?_)
  have hkind : (r.state = .PreCandidate ∧ m.msgType = .MsgRequestPreVoteResponse) ∨
      (r.state = .Candidate ∧ m.msgType = .MsgRequestVoteResponse) := by
    rcases hstand with hpre | hcand
    · exact Or.inl ⟨hpre, by_contra fun h => hskip (Or.inl ⟨hpre, h⟩)⟩
    · exact Or.inr ⟨hcand, by_contra fun h => hskip (Or.inr ⟨hcand, h⟩)⟩
  -- whoever sent the votes, only a majority takes the node further
  refine Does.modify_bind Calm.nil (does_pollVotes_bind fun st hst => ?_)
  cases st with
  | Elected => exact absurd ⟨hkind, ha, hst.mp rfl⟩ h
  | Ineligible => exact (calm_becomeFollower _ _ _).weaken fun _ _ _ => trivial
  | Eligible => exact Does.pure trivial

/-- Behind the comparison of terms, an election message that neither starts nor
completes an election is handled calmly. -/
theorem calm_dispatch (ha : r.ctl.Admits m) (hm : Elects m)
    (hhup : m.msgType = .MsgHup → r.state = .Leader ∨ ¬ r.PassesScan)
    (h : ¬ r.CompletesElection m) :
    Does (calming T) r (dispatch m) (fun _ _ => True) := by
  have hcandidate : m.msgType = .MsgRequestVoteResponse ∨
      m.msgType = .MsgRequestPreVoteResponse → r.ctl.Standing →
      Does (calming T) r (stepCandidate m) (fun _ _ => True) := by
    intro ht hstand
    have hresp := calm_stepVoteResponse hstand ha h
    unfold stepCandidate
    rcases ht with ht | ht <;> rw [ht] <;>
      exact Does.bind hresp fun _ _ _ => Does.pure trivial
  have hresponse : m.msgType = .MsgRequestVoteResponse ∨
      m.msgType = .MsgRequestPreVoteResponse →
      Does (calming T) r (stepByRole m) (fun _ _ => True) := by
    intro ht
    by_cases hc : r.ctl.Standing
    · exact Does.of_run_eq (stepByRole_standing hc) (hcandidate ht hc)
    · exact Does.of_run_eq (stepByRole_idle hc) (Does.panic _)
  unfold dispatch
  rcases hm with ht | ht | ht
  · rw [ht]
    exact Does.bind (calm_stepHup (hhup ht)) fun _ _ _ => Does.pure trivial
  · rw [ht]
    exact hresponse (Or.inr ht)
  · rw [ht]
    exact hresponse (Or.inl ht)

/-- A step that neither starts nor completes an election is calm. -/
theorem calm_step (h₁ : ¬ r.StartsElection m) (h₂ : ¬ r.CompletesElection m) :
    Does (calming T) r (step m) (fun _ _ => True) := by
  by_cases hm : Elects m
  swap
  · exact calming_of_moving (does_step m r) hm
  have hnreq : ¬ (m.msgType = .MsgRequestVote ∨ m.msgType = .MsgRequestPreVote) := by
    rcases hm with ht | ht | ht <;> simp [ht]
  have hnlead : ¬ (m.msgType = .MsgAppend ∨ m.msgType = .MsgHeartbeat ∨
      m.msgType = .MsgSnapshot) := by
    rcases hm with ht | ht | ht <;> simp [ht]
  have hscan : m.msgType = .MsgHup → (m.term = 0 ∨ r.term ≤ m.term) →
      (r.state ≠ .Leader ∨ r.term < m.term) → ¬ r.PassesScan :=
    fun ht hterm hrole hscan => h₁ ⟨ht, hterm, hrole, hscan⟩
  have hlocal : (m.term = 0 ∨ r.term ≤ m.term) → m.msgType = .MsgHup →
      r.state = .Leader ∨ ¬ r.PassesScan := by
    intro hterm ht
    by_cases hrole : r.state = .Leader
    · exact Or.inl hrole
    · exact Or.inr (hscan ht hterm (Or.inl hrole))
  unfold step
  apply Does.read_bind
  refine Does.ite (fun h0 => calm_dispatch (Or.inl h0) hm (hlocal (Or.inl h0)) h₂) fun _ => ?_
  refine Does.ite (fun hgt => ?_) fun hgt => Does.ite (fun _ => ?_) fun hlt => ?_
  · rw [if_neg hnreq, if_neg hnlead]
    refine Does.ite (fun hpre => ?_) fun _ => ?_
    · obtain ⟨ht, hrej⟩ : m.msgType = .MsgRequestPreVoteResponse ∧ ¬ m.reject = true := by
        rcases hpre with h | h
        · exact absurd (Or.inr h) hnreq
        · exact h
      refine calm_dispatch (Or.inr (Or.inr ⟨ht, by simpa using hrej, hgt⟩)) hm ?_ h₂
      exact hlocal (Or.inr (by omega))
    · -- a later term: the node follows it before the message is looked at
      refine Does.bind (calm_becomeFollower _ _ r) fun _ r' ⟨hrole, hterm, hlog⟩ => ?_
      refine calm_dispatch (Or.inr (Or.inl hterm.symm)) hm (fun ht => Or.inr ?_) ?_
      · unfold PassesScan
        rw [hlog]
        exact hscan ht (Or.inr (by omega)) (Or.inr hgt)
      · rintro ⟨⟨hpre, _⟩ | ⟨hcand, _⟩, _⟩
        · rw [hrole] at hpre
          cases hpre
        · rw [hrole] at hcand
          cases hcand
  · refine Does.bind (Q := fun _ _ => True) ?_ fun _ _ _ => Does.pure trivial
    unfold stepLowerTerm
    refine Does.read_bind (Does.ite (fun hc => ?_) fun _ => Does.ite (fun ht => ?_) fun _ => ?_)
    · rcases hc.2 with ht | ht
      · exact absurd (Or.inr (Or.inl ht)) hnlead
      · exact absurd (Or.inl ht) hnlead
    · exact absurd (Or.inr ht) hnreq
    · exact Does.pure trivial
  · have hcur : m.term = r.term := by omega
    exact calm_dispatch (Or.inr (Or.inl hcur)) hm (hlocal (Or.inr (by omega))) h₂

/-! ## §3  Runs -/

/-- The call starts or completes an election of the node through `step`. -/
def Campaigns (r : Raft T) (i : Input) : Prop :=
  ∃ m, i = .step m ∧ (r.StartsElection m ∨ r.CompletesElection m)

/-- On a node that is not promotable, a call that is not such a one is calm and
leaves the node not promotable. -/
theorem calm_handle {i : Input} (hid : r.id ∉ r.ctl.voters) (h : ¬ r.Campaigns i) :
    Does (calming T) r (handle i) (fun _ r' => r'.id ∉ r'.ctl.voters) := by
  have hcalm : Does (calming T) r (handle i) (fun _ _ => True) := by
    cases i with
    | tick =>
        refine Does.bind (Q := fun _ _ => True) ?_ fun _ _ _ => Does.pure trivial
        refine (does_tick_of_not_promotable hid).mono ?_ ?_
        · rintro _ _ ⟨rfl, _⟩
          exact Calm.nil
        · rintro _ _ ⟨rfl, _⟩
          exact Calm.nil
    | step m =>
        refine Does.bind (calm_step ?_ ?_) fun _ _ _ => Does.pure trivial
        · exact fun hm => h ⟨m, rfl, Or.inl hm⟩
        · exact fun hm => h ⟨m, rfl, Or.inr hm⟩
  -- the configuration is no part of a move, so the node stays outside of it
  have hmoves := does_handle i r
  cases hrun : handle i r with
  | mk v r' es =>
    cases v with
    | error p => exact Does.of_error hrun (hcalm.error hrun)
    | ok a =>
        obtain ⟨hids, hvoters⟩ := Moves.id_voters (hmoves.ok hrun).1
        refine Does.of_ok hrun (hcalm.ok hrun).1 ?_
        rw [hvoters, show r'.id = r.id from hids]
        exact hid

/-- A node outside of its voter set never leaves the follower role, and never
votes for itself, in a run none of whose calls starts or completes an election
through `step`. -/
theorem run_calm_of_not_voter {prs : ProgressSet} (hprs : r.prs = some prs)
    (hid : r.id ∉ prs.voterIds) (is : List Input)
    (h : EveryStep (fun r i => ¬ r.Campaigns i) is r) : Calm (run is r).trace := by
  have hid' : r.id ∉ r.ctl.voters := by rwa [ctl_voters hprs]
  clear hid hprs
  induction is generalizing r with
  | nil => exact Calm.nil
  | cons i is ih =>
      have hdoes := calm_handle hid' h.1
      rw [run_cons]
      cases hrun : handle i r with
      | mk v r' es =>
        cases v with
        | error p =>
            rw [bind_error hrun]
            exact hdoes.error hrun
        | ok a =>
            obtain ⟨hcalm, hid''⟩ := hdoes.ok hrun
            rw [bind_ok hrun]
            exact Calm.append hcalm (ih (h.2 r' es hrun) hid'')

end Methods

/-- A learner whose election timer has run out only ticks. -/
theorem learner_tick_calm : Calm (run [.tick, .tick] (memNode 4 [1, 2, 3] [4])).trace := by
  refine run_calm_of_not_voter rfl (by decide) _ ⟨?_, fun _ _ _ => ⟨?_, ?_⟩⟩
  · rintro ⟨m, hm, _⟩
    cases hm
  · rintro ⟨m, hm, _⟩
    cases hm
  · exact fun _ _ _ => trivial

/-- The same learner is handed a `MsgHup` and stands for election. -/
theorem learner_hup_not_calm :
    ¬ Calm (run [.step { msgType := .MsgHup, from_ := 4 }] (memNode 4 [1, 2, 3] [4])).trace := by
  unfold Calm
  decide

end Raft

end RsRaft
