import RsRaft.Run

/-!
# Term and vote over a run

Election safety rests on two facts about the hard state: the term never goes
down, and within a term the vote is given once. Both hold of every assignment
of every run except for one path: a message without a term is local to `step`,
but `step_candidate` takes its term over as if it had been compared.

§1 monotone traces · §2 moves that are monotone · §3 runs.
-/

namespace RsRaft

open Ctl Call

/-! ## §1  Monotone traces -/

/-- Starting from `term` and `vote`, no assignment of the trace lowers the term;
a new term starts without a vote, and within a term the vote changes only from
`INVALID_ID`. -/
def Monotone : ℕ → ℕ → List Event → Prop
  | _, _, [] => True
  | term, vote, .hardState term' vote' :: es =>
      ((term < term' ∧ vote' = INVALID_ID) ∨
        (term' = term ∧ (vote' = vote ∨ vote = INVALID_ID))) ∧ Monotone term' vote' es
  | term, vote, _ :: es => Monotone term vote es

instance Monotone.decidable : ∀ (term vote : ℕ) (es : List Event),
    Decidable (Monotone term vote es)
  | _, _, [] => .isTrue trivial
  | _, _, .hardState term' vote' :: es =>
      have := Monotone.decidable term' vote' es
      inferInstanceAs (Decidable (_ ∧ _))
  | term, vote, .handed _ :: es => Monotone.decidable term vote es
  | term, vote, .leads _ :: es => Monotone.decidable term vote es
  | term, vote, .role _ :: es => Monotone.decidable term vote es
  | term, vote, .selfVote :: es => Monotone.decidable term vote es

/-- Term and vote after a trace. -/
def replay : ℕ × ℕ → List Event → ℕ × ℕ
  | hs, [] => hs
  | _, .hardState term vote :: es => replay (term, vote) es
  | hs, _ :: es => replay hs es

theorem monotone_append (es es' : List Event) : ∀ hs : ℕ × ℕ,
    Monotone hs.1 hs.2 (es ++ es') ↔
      Monotone hs.1 hs.2 es ∧ Monotone (replay hs es).1 (replay hs es).2 es' := by
  induction es with
  | nil => intro hs; simp [Monotone, replay]
  | cons e es ih =>
      rintro ⟨term, vote⟩
      cases e with
      | hardState term' vote' =>
          have := ih (term', vote')
          simp only [List.cons_append, Monotone, replay, this, and_assoc]
      | handed m => exact ih (term, vote)
      | leads t => exact ih (term, vote)
      | role s => exact ih (term, vote)
      | selfVote => exact ih (term, vote)

theorem replay_append (es es' : List Event) : ∀ hs : ℕ × ℕ,
    replay hs (es ++ es') = replay (replay hs es) es' := by
  induction es with
  | nil => intro hs; rfl
  | cons e es ih =>
      intro hs
      cases e with
      | hardState term vote => exact ih (term, vote)
      | handed m => exact ih hs
      | leads t => exact ih hs
      | role s => exact ih hs
      | selfVote => exact ih hs

/-! ## §2  Moves that are monotone -/

/-- A leader's message without a term meets a standing node of a later term. -/
def LowersTerm (c : Ctl) (m : Message) : Prop :=
  c.Standing ∧ (m.msgType = .MsgAppend ∨ m.msgType = .MsgHeartbeat) ∧ m.term = 0 ∧ 0 < c.term

namespace Ctl

variable {m : Message} {c c' : Ctl} {es : List Event}

theorem monotone_resetEvents {t : ℕ} (h : c.term ≤ t) :
    Monotone c.term c.vote (Raft.resetEvents c.term t) ∧
      replay (c.term, c.vote) (Raft.resetEvents c.term t)
        = (t, if c.term = t then c.vote else INVALID_ID) := by
  unfold Raft.resetEvents
  by_cases ht : c.term = t
  · simp [ht, Monotone, replay]
  · rw [if_neg ht, if_neg ht]
    exact ⟨⟨Or.inl ⟨by omega, rfl⟩, trivial⟩, rfl⟩

/-- Becoming a follower lowers the term in one case only. -/
theorem Follows.term_le {t l : ℕ} (h : Follows m c t l) (hgood : ¬ LowersTerm c m) :
    c.term ≤ t := by
  cases h with
  | laterLeader h _ => omega
  | laterTerm h => omega
  | discovered hc ht h =>
      rcases h with h | h
      · by_contra hlt
        exact hgood ⟨hc, ht, h, by omega⟩
      · omega
  | snapshot _ _ _ => exact Nat.le_refl _
  | ended _ _ => exact Nat.le_refl _

/-- One move is monotone and leaves term and vote as its trace says. -/
theorem Move.monotone (h : Move m c es c') (hgood : ¬ LowersTerm c m) :
    Monotone c.term c.vote es ∧ replay (c.term, c.vote) es = (c'.term, c'.vote) := by
  cases h with
  | follow hf =>
      obtain ⟨hmono, hreplay⟩ := monotone_resetEvents (hf.term_le hgood)
      rw [monotone_append _ _ (c.term, c.vote), replay_append, hreplay]
      exact ⟨⟨hmono, trivial⟩, rfl⟩
  | preCampaign _ _ _ _ => exact ⟨trivial, rfl⟩
  | campaign _ _ =>
      exact ⟨⟨Or.inl ⟨Nat.lt_succ_self _, rfl⟩, Or.inr ⟨rfl, Or.inr rfl⟩, trivial⟩, rfl⟩
  | ownVote _ _ => exact ⟨trivial, rfl⟩
  | count _ _ => exact ⟨trivial, rfl⟩
  | lead _ _ _ => exact ⟨trivial, by simp [replay, Ctl.lead, Ctl.reset]⟩
  | queue _ _ => exact ⟨trivial, rfl⟩
  | grant _ _ hvote _ _ _ _ _ =>
      refine ⟨⟨Or.inr ⟨rfl, ?_⟩, trivial⟩, rfl⟩
      rcases hvote with h | h
      · exact Or.inl h.symm
      · exact Or.inr h
  | refused _ => exact ⟨trivial, rfl⟩

/-- So the term does not go down in a move. -/
theorem Move.term_le (h : Move m c es c') (hgood : ¬ LowersTerm c m) : c.term ≤ c'.term := by
  cases h with
  | follow hf => exact hf.term_le hgood
  | campaign _ _ => exact Nat.le_succ _
  | preCampaign _ _ _ _ => exact Nat.le_refl _
  | ownVote _ _ => exact Nat.le_refl _
  | count _ _ => exact Nat.le_refl _
  | lead _ _ _ => exact Nat.le_refl _
  | queue _ _ => exact Nat.le_refl _
  | grant _ _ _ _ _ _ _ _ => exact Nat.le_refl _
  | refused _ => exact Nat.le_refl _

/-- While a leader's message is handled nobody starts to stand. -/
theorem Move.standing (h : Move m c es c')
    (ht : m.msgType = .MsgAppend ∨ m.msgType = .MsgHeartbeat) (hc : c'.Standing) :
    c.Standing ∧ c'.term = c.term := by
  have hnot : ¬ Elects m := by
    rintro (h | h | h) <;> rcases ht with h' | h' <;> rw [h] at h' <;> cases h'
  have hup : m.msgType ≠ .MsgHup := fun h => hnot (Or.inl h)
  cases h with
  | follow _ => rcases hc with h | h <;> cases h
  | preCampaign hm _ _ _ => exact absurd hm hup
  | campaign _ h => exact absurd (h.elim (fun h => Or.inl h.1) And.left) hnot
  | ownVote hm _ => exact absurd hm hnot
  | count h _ =>
      refine absurd ?_ hnot
      rcases h with ⟨_, h⟩ | ⟨_, h⟩
      · exact Or.inr (Or.inl h)
      · exact Or.inr (Or.inr h)
  | lead hm _ _ => exact absurd hm hnot
  | queue _ _ => exact ⟨hc, rfl⟩
  | grant hm _ _ _ _ _ _ _ => rcases ht with h | h <;> rw [hm] at h <;> cases h
  | refused _ => exact ⟨hc, rfl⟩

theorem Moves.not_lowersTerm (h : Moves m c es c') (hgood : ¬ LowersTerm c m) :
    ¬ LowersTerm c' m := by
  induction h with
  | refl => exact hgood
  | step _ hmove ih =>
      rintro ⟨hc, ht, hzero, hpos⟩
      obtain ⟨hc', hterm⟩ := hmove.standing ht hc
      exact ih ⟨hc', ht, hzero, by omega⟩

theorem Moves.monotone (h : Moves m c es c') (hgood : ¬ LowersTerm c m) :
    Monotone c.term c.vote es ∧ replay (c.term, c.vote) es = (c'.term, c'.vote) := by
  induction h with
  | refl => exact ⟨trivial, rfl⟩
  | step hmoves hmove ih =>
      obtain ⟨hmono, hreplay⟩ := hmove.monotone (hmoves.not_lowersTerm hgood)
      rw [monotone_append _ _ (c.term, c.vote), replay_append, ih.2]
      exact ⟨⟨ih.1, hmono⟩, hreplay⟩

theorem Breaks.monotone {msgs : List Message} (h : Breaks m c es msgs)
    (hgood : ¬ LowersTerm c m) : Monotone c.term c.vote es := by
  obtain ⟨es₀, es₁, c', hmoves, rfl, _, hbreak⟩ := h
  obtain ⟨hmono, hreplay⟩ := hmoves.monotone hgood
  rw [monotone_append _ _ (c.term, c.vote), hreplay]
  refine ⟨hmono, ?_⟩
  rcases hbreak with rfl | ⟨es₂, c'', hmove⟩
  · trivial
  · have := (hmove.monotone (hmoves.not_lowersTerm hgood)).1
    rw [monotone_append _ _ (c'.term, c'.vote)] at this
    exact this.1

end Ctl

/-! ## §3  Runs -/

namespace Raft

section Runs

variable {T : Type} [Storage T] [ProtoMessage Entry]

/-- The call hands a term-less append or heartbeat to a standing node. -/
def StepLowersTerm (r : Raft T) (i : Input) : Prop :=
  ∃ m, i = .step m ∧ LowersTerm r.ctl m

omit [Storage T] [ProtoMessage Entry] in
theorem lowersTerm_msgOf {r : Raft T} {i : Input} (h : ¬ StepLowersTerm r i) :
    ¬ LowersTerm r.ctl (i.msgOf r) := by
  cases i with
  | tick =>
      rintro ⟨_, ht, _⟩
      rcases ht with h | h <;> cases h
  | step m => exact fun hm => h ⟨m, rfl, hm⟩

/-- Handling such a message starts by becoming a follower of its term. -/
theorem stepCandidate_lowersTerm {r : Raft T} {m : Message} (h : LowersTerm r.ctl m) :
    ∃ f : Unit → Call Panic Event (Raft T) (Result Unit),
      stepCandidate m = becomeFollower 0 m.from_ >>= f := by
  obtain ⟨_, ht, hzero, _⟩ := h
  unfold stepCandidate
  rcases ht with ht | ht
  · rw [ht, hzero]
    exact ⟨_, rfl⟩
  · rw [ht, hzero]
    exact ⟨_, rfl⟩

/-- Such a call assigns the term `0` before anything else. -/
theorem handle_lowersTerm {r : Raft T} {m : Message} (h : LowersTerm r.ctl m) :
    ∃ es, (handle (.step m) r).trace = .hardState 0 INVALID_ID :: es := by
  have hreset : (reset 0 r).trace = [.hardState 0 INVALID_ID] := by
    have hev : resetEvents r.term 0 = [.hardState 0 INVALID_ID] :=
      if_neg (Nat.pos_iff_ne_zero.mp h.2.2.2)
    rcases reset_cases 0 r with ⟨li, prs, _, _, hrun⟩ | ⟨p, r', hrun, _⟩
    · rw [hrun, hev]
    · rw [hrun, hev]
  -- term `0` skips the comparison, and the role leads to `step_candidate`
  have hstep : step m r = stepCandidate m r := by
    unfold step
    rw [read_bind_run, ite_run, if_pos h.2.2.1]
    unfold dispatch
    rcases h.2.1 with ht | ht
    · rw [ht]
      exact stepByRole_standing h.1
    · rw [ht]
      exact stepByRole_standing h.1
  obtain ⟨f, hf⟩ := stepCandidate_lowersTerm h
  obtain ⟨es₁, h₁⟩ := bind_trace (reset 0)
    (fun _ => do modify fun self => { self with leaderId := m.from_ }; setState .FOLLOWER) r
  obtain ⟨es₂, h₂⟩ := bind_trace (becomeFollower 0 m.from_) f r
  obtain ⟨es₃, h₃⟩ := bind_trace (step m) (fun _ => pure ()) r
  refine ⟨es₁ ++ es₂ ++ es₃, ?_⟩
  show ((step m >>= fun _ => pure ()) r).trace = _
  rw [h₃, hstep, hf, h₂, show (becomeFollower 0 m.from_ r).trace = _ from h₁, hreset]
  simp

/-- Every assignment of a run keeps the order of terms and the vote of a term if
and only if no call of it hands a term-less append or heartbeat to a standing
node whose term is positive. -/
theorem run_monotone_iff (is : List Input) (r : Raft T) :
    Monotone r.term r.vote (run is r).trace ↔ EveryStep (fun r i => ¬ StepLowersTerm r i) is r := by
  induction is generalizing r with
  | nil => exact ⟨fun _ => trivial, fun _ => trivial⟩
  | cons i is ih =>
      by_cases hlow : StepLowersTerm r i
      · -- the first assignment of the call already breaks the order
        obtain ⟨m, rfl, hm⟩ := hlow
        obtain ⟨es, hes⟩ := handle_lowersTerm hm
        obtain ⟨es', hes'⟩ := bind_trace (handle (.step m)) (fun _ => run is) r
        have hpos : 0 < r.term := hm.2.2.2
        constructor
        · intro h
          rw [run_cons, hes', hes] at h
          rcases h.1 with ⟨h, _⟩ | ⟨h, _⟩ <;> omega
        · exact fun h => absurd ⟨m, rfl, hm⟩ h.1
      · have hgood := lowersTerm_msgOf hlow
        have hdoes := does_handle i r
        cases hrun : handle i r with
        | mk v r' es =>
          cases v with
          | error p =>
              have hmono : Monotone r.term r.vote es :=
                Breaks.monotone (hdoes.error hrun) hgood
              rw [run_cons, bind_error hrun]
              refine ⟨fun _ => ⟨hlow, fun r'' es' h => ?_⟩, fun _ => hmono⟩
              rw [hrun] at h
              cases h
          | ok a =>
              -- the trace splits at the call, and the rest starts from its hard state
              have hmoves : Moves (i.msgOf r) r.ctl es r'.ctl := (hdoes.ok hrun).1
              obtain ⟨hmono, hreplay⟩ := hmoves.monotone hgood
              have hsplit : Monotone r.term r.vote (run (i :: is) r).trace ↔
                  Monotone r'.term r'.vote (run is r').trace := by
                rw [run_cons, bind_ok hrun, Outcome.after_trace,
                  monotone_append _ _ (r.term, r.vote)]
                rw [show replay (r.term, r.vote) es = (r'.term, r'.vote) from hreplay]
                exact and_iff_right hmono
              rw [hsplit, ih r']
              refine ⟨fun h => ⟨hlow, fun r'' es' hrun' => ?_⟩, fun h => h.2 r' es hrun⟩
              rw [hrun] at hrun'
              cases hrun'
              exact h

end Runs

/-- A candidate of term `1` that is handed a term-less heartbeat. -/
theorem run_not_monotone :
    ¬ Monotone 1 1
      (run [.step { msgType := .MsgHeartbeat, from_ := 2, to_ := 1 }]
        { memNode 1 [1, 2, 3] [] with state := .Candidate, term := 1, vote := 1 }).trace := by
  decide

end Raft

end RsRaft
