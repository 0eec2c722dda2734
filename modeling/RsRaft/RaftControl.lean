import RsRaft.Raft

/-!
# What a call can do to a node's control state

Term, vote, role, leader, the votes received, the voters and the queue are the
control state of a node. A call on the node moves it in a few ways only, each
with its guard; the trace of the call is the trace of its moves. Everything
said about elections later is said about moves.

§1 running the primitives · §2 the control state and its moves · §3 the
behaviours and how one is used inside another.
-/

namespace RsRaft

namespace Raft

variable {T : Type}

open Call

/-! ## §1  Running the primitives -/

/-- Append messages to the queue, stamped with the sender. -/
def push (r : Raft T) (ms : List Message) : Raft T :=
  { r with msgs := r.msgs ++ ms.map fun q => { q with from_ := r.id } }

theorem push_nil (r : Raft T) : r.push [] = r := by
  simp [push]

theorem push_push (r : Raft T) (ms ms' : List Message) :
    (r.push ms).push ms' = r.push (ms ++ ms') := by
  simp [push]

theorem getPrs_run {r : Raft T} {prs : ProgressSet} (h : r.prs = some prs) :
    getPrs r = ⟨.ok prs, r, []⟩ := by
  unfold getPrs
  rw [read_bind_run, h]
  rfl

theorem pollVotes_run {r : Raft T} {prs : ProgressSet} (h : r.prs = some prs) :
    pollVotes r = ⟨.ok (prs.candidacyStatus r.votes), r, []⟩ := by
  unfold pollVotes
  rw [bind_ok (getPrs_run h)]
  rfl

/-- A message without a term is never queued. -/
theorem send_of_term_eq_zero {q : Message} (h : q.term = 0) (r : Raft T) :
    send q r = ⟨.error (.termNotSet q.msgType), r, [.handed q]⟩ := by
  unfold send
  simp only [emit_bind_run, read_bind_run]
  split
  · simp
  · simp

theorem send_of_vote {q : Message} (hv : isVoteMessage q.msgType = true) (h : q.term ≠ 0)
    (r : Raft T) : send q r = ⟨.ok (), r.push [q], [.handed q]⟩ := by
  unfold send
  simp [hv, h, push]

/-- The node after a `reset` that found its last index and its progress set. -/
def resetTo (r : Raft T) (term lastIndex : ℕ) (prs : ProgressSet) : Raft T :=
  { r with
    term := term
    vote := if r.term = term then r.vote else INVALID_ID
    learnerId := INVALID_ID
    randomizedElectionTimeout :=
      r.minElectionTimeout + r.rng 0 % (r.maxElectionTimeout - r.minElectionTimeout)
    rng := fun n => r.rng (n + 1)
    electionElapsed := 0
    heartbeatElapsed := 0
    leadTransferee := none
    votes := ∅
    pendingConfIndex := 0
    readOnly := ReadOnly.new r.readOnly.option
    prs := some (resetProgress prs r.id lastIndex) }

/-- The one event of a `reset`, if the term changes. -/
def resetEvents (old term : ℕ) : List Event :=
  if old = term then [] else [.hardState term INVALID_ID]

section Reset

variable [Storage T]

theorem reset_ok {r : Raft T} {li : ℕ} {prs : ProgressSet}
    (ht : r.minElectionTimeout < r.maxElectionTimeout)
    (hli : r.raftLog.lastIndex = .ok li) (hprs : r.prs = some prs) (term : ℕ) :
    reset term r = ⟨.ok (), r.resetTo term li prs, resetEvents r.term term⟩ := by
  unfold reset resetTo resetEvents resetRandomizedElectionTimeout abortLeaderTransfer getPrs
    setPrs
  by_cases h : r.term = term
  · subst h
    simp [ht, hli, hprs]
  · simp [h, ht, hli, hprs]

/-- What a `reset` to `term` that panicked left behind. -/
structure ResetStops (r : Raft T) (term : ℕ) (r' : Raft T) : Prop where
  term : r'.term = term
  id : r'.id = r.id
  state : r'.state = r.state
  leaderId : r'.leaderId = r.leaderId
  msgs : r'.msgs = r.msgs
  raftLog : r'.raftLog = r.raftLog

/-- A `reset` completes, or panics behind the assignment of term and vote. -/
theorem reset_cases (term : ℕ) (r : Raft T) :
    (∃ li prs, r.raftLog.lastIndex = .ok li ∧ r.prs = some prs ∧
      reset term r = ⟨.ok (), r.resetTo term li prs, resetEvents r.term term⟩) ∨
    ∃ p r', reset term r = ⟨.error p, r', resetEvents r.term term⟩ ∧
      ResetStops r term r' := by
  have hstops : (∃ p r', reset term r = ⟨.error p, r', resetEvents r.term term⟩ ∧
      r'.term = term ∧ r'.id = r.id ∧ r'.state = r.state ∧ r'.leaderId = r.leaderId ∧
      r'.msgs = r.msgs ∧ r'.raftLog = r.raftLog) →
      ∃ p r', reset term r = ⟨.error p, r', resetEvents r.term term⟩ ∧
        ResetStops r term r' := by
    rintro ⟨p, r', hrun, hterm, hid, hstate, hleader, hmsgs, hlog⟩
    exact ⟨p, r', hrun, ⟨hterm, hid, hstate, hleader, hmsgs, hlog⟩⟩
  by_cases ht : r.minElectionTimeout < r.maxElectionTimeout
  · cases hli : r.raftLog.lastIndex with
    | error p =>
        refine Or.inr (hstops ?_)
        unfold reset resetEvents resetRandomizedElectionTimeout abortLeaderTransfer
        by_cases h : r.term = term
        · simp [h, ht, hli]
        · simp [h, ht, hli]
    | ok li =>
        cases hprs : r.prs with
        | none =>
            refine Or.inr (hstops ?_)
            unfold reset resetEvents resetRandomizedElectionTimeout abortLeaderTransfer getPrs
            by_cases h : r.term = term
            · simp [h, ht, hli, hprs]
            · simp [h, ht, hli, hprs]
        | some prs => exact Or.inl ⟨li, prs, rfl, rfl, reset_ok ht hli hprs term⟩
  · refine Or.inr (hstops ?_)
    unfold reset resetEvents resetRandomizedElectionTimeout
    by_cases h : r.term = term
    · simp [h, ht]
    · simp [h, ht]

end Reset

/-! ## §2  The control state and its moves -/

end Raft

/-- The part of a node elections are about. -/
structure Ctl where
  id : ℕ
  preVote : Bool
  term : ℕ
  vote : ℕ
  role : StateRole
  leader : ℕ
  votes : AList fun _ : ℕ => Bool
  voters : AList fun _ : ℕ => Unit
  msgs : List Message

def Raft.ctl {T : Type} (r : Raft T) : Ctl where
  id := r.id
  preVote := r.preVote
  term := r.term
  vote := r.vote
  role := r.state
  leader := r.leaderId
  votes := r.votes
  voters := r.prs.elim ∅ ProgressSet.voterIds
  msgs := r.msgs

theorem Raft.ctl_voters {T : Type} {r : Raft T} {p : ProgressSet} (hp : r.prs = some p) :
    r.ctl.voters = p.voterIds := by
  simp [Raft.ctl, hp]

namespace Ctl

open Raft (resetEvents)

/-- In the middle of an election of its own. -/
def Standing (c : Ctl) : Prop := c.role = .PreCandidate ∨ c.role = .Candidate

/-- The grants received make a majority of the voters, whoever sent them. -/
def Elected (c : Ctl) : Prop := majority c.voters.size ≤ (granters c.votes).card

def reset (c : Ctl) (term : ℕ) : Ctl :=
  { c with term := term, vote := if c.term = term then c.vote else INVALID_ID, votes := ∅ }

def follow (c : Ctl) (term leader : ℕ) : Ctl :=
  { c.reset term with leader := leader, role := .FOLLOWER }

def preCampaign (c : Ctl) : Ctl :=
  { c with role := .PreCandidate, votes := ∅, leader := INVALID_ID }

def campaign (c : Ctl) : Ctl :=
  { c.reset (c.term + 1) with vote := c.id, role := .Candidate }

def lead (c : Ctl) : Ctl := { c.reset c.term with leader := c.id, role := .Leader }

def count (c : Ctl) (id : ℕ) (vote : Bool) : Ctl :=
  { c with votes := c.votes.orInsert id vote }

def push (c : Ctl) (ms : List Message) : Ctl :=
  { c with msgs := c.msgs ++ ms.map fun q => { q with from_ := c.id } }

/-- How the term of a message that reaches the arms of `step` relates to the
node's: local, equal, or a granted pre-vote from a later term. -/
def Admits (m : Message) (c : Ctl) : Prop :=
  m.term = 0 ∨ m.term = c.term ∨
    (m.msgType = .MsgRequestPreVoteResponse ∧ m.reject = false ∧ c.term < m.term)

/-- The messages that can take an election further. -/
def Elects (m : Message) : Prop :=
  m.msgType = .MsgHup ∨ m.msgType = .MsgRequestPreVoteResponse ∨
    m.msgType = .MsgRequestVoteResponse

/-- When the node becomes a follower, and of which term and leader. -/
inductive Follows (m : Message) (c : Ctl) : ℕ → ℕ → Prop
  /-- A later term, learnt from a leader. -/
  | laterLeader (h : c.term < m.term)
      (ht : m.msgType = .MsgAppend ∨ m.msgType = .MsgHeartbeat ∨ m.msgType = .MsgSnapshot) :
      Follows m c m.term m.from_
  /-- A later term, learnt from someone else. -/
  | laterTerm (h : c.term < m.term) : Follows m c m.term INVALID_ID
  /-- A leader's message meets a node that is standing for election. -/
  | discovered (hc : c.Standing) (ht : m.msgType = .MsgAppend ∨ m.msgType = .MsgHeartbeat)
      (h : m.term = 0 ∨ m.term = c.term) : Follows m c m.term m.from_
  /-- So does a leader's snapshot; its term becomes the leader id. -/
  | snapshot (hc : c.Standing) (ht : m.msgType = .MsgSnapshot)
      (h : m.term = 0 ∨ m.term = c.term) : Follows m c c.term m.term
  /-- The verdict on the votes ends the election. -/
  | ended (hc : c.Standing)
      (ht : m.msgType = .MsgRequestVoteResponse ∨ m.msgType = .MsgRequestPreVoteResponse) :
      Follows m c c.term INVALID_ID

/-- The messages a node queues. -/
inductive Queues (m : Message) (c : Ctl) (q : Message) : Prop
  | request (hrole : c.role = .Candidate) (ht : q.msgType = .MsgRequestVote)
      (hto : q.to_ ∈ c.voters) (hself : q.to_ ≠ c.id) (hterm : q.term = c.term)
  | preRequest (hrole : c.role = .PreCandidate) (ht : q.msgType = .MsgRequestPreVote)
      (hto : q.to_ ∈ c.voters) (hself : q.to_ ≠ c.id) (hterm : q.term = c.term + 1)
  | preGrant (hm : m.msgType = .MsgRequestPreVote) (ht : q.msgType = .MsgRequestPreVoteResponse)
      (hto : q.to_ = m.from_) (hrej : q.reject = false) (hterm : q.term = m.term)
  | preReject (hm : m.msgType = .MsgRequestPreVote) (ht : q.msgType = .MsgRequestPreVoteResponse)
      (hto : q.to_ = m.from_) (hrej : q.reject = true) (hterm : q.term = c.term)
  | reject (hm : m.msgType = .MsgRequestVote) (ht : q.msgType = .MsgRequestVoteResponse)
      (hto : q.to_ = m.from_) (hrej : q.reject = true) (hterm : q.term = c.term)

/-- One move of a node handling `m`, and what an observer sees of it. -/
inductive Move (m : Message) (c : Ctl) : List Event → Ctl → Prop
  | follow {t l : ℕ} (h : Follows m c t l) :
      Move m c (resetEvents c.term t ++ [.role .FOLLOWER]) (c.follow t l)
  | preCampaign (hm : m.msgType = .MsgHup) (ha : c.Admits m) (hrole : c.role ≠ .Leader)
      (hpv : c.preVote = true) : Move m c [.role .PreCandidate] c.preCampaign
  | campaign (hrole : c.role ≠ .Leader)
      (h : (m.msgType = .MsgHup ∧ c.Admits m ∧ c.preVote = false) ∨
        (Elects m ∧ c.role = .PreCandidate ∧ c.Elected)) :
      Move m c [.hardState (c.term + 1) INVALID_ID, .hardState (c.term + 1) c.id,
        .role .Candidate] c.campaign
  | ownVote (hm : Elects m) (hc : c.Standing) : Move m c [.selfVote] (c.count c.id true)
  | count (hc : (c.role = .PreCandidate ∧ m.msgType = .MsgRequestPreVoteResponse) ∨
        (c.role = .Candidate ∧ m.msgType = .MsgRequestVoteResponse)) (ha : c.Admits m) :
      Move m c [] (c.count m.from_ (!m.reject))
  | lead (hm : Elects m) (hrole : c.role = .Candidate) (h : c.Elected) :
      Move m c [.leads c.term, .role .Leader] c.lead
  | queue {q : Message} (h : Queues m c q) (ht : q.term ≠ 0) :
      Move m c [.handed q] (c.push [q])
  | grant {q : Message} (hm : m.msgType = .MsgRequestVote) (hterm : m.term = c.term)
      (hvote : c.vote = m.from_ ∨ c.vote = INVALID_ID)
      (ht : q.msgType = .MsgRequestVoteResponse) (hto : q.to_ = m.from_)
      (hrej : q.reject = false) (hq : q.term = c.term) (hq0 : q.term ≠ 0) :
      Move m c [.handed q, .hardState c.term m.from_] { c.push [q] with vote := m.from_ }
  /-- A message without a term goes no further than the entry of `send`. -/
  | refused {q : Message} (ht : q.term = 0) : Move m c [.handed q] c

/-- The identity and the configuration of a node are no part of a move. -/
theorem Move.id_voters {m : Message} {c c' : Ctl} {es : List Event} (h : Move m c es c') :
    c'.id = c.id ∧ c'.voters = c.voters := by
  cases h <;> exact ⟨rfl, rfl⟩

/-- A sequence of moves. -/
inductive Moves (m : Message) (c : Ctl) : List Event → Ctl → Prop
  | refl : Moves m c [] c
  | step {es es' : List Event} {c' c'' : Ctl} (h : Moves m c es c') (h' : Move m c' es' c'') :
      Moves m c (es ++ es') c''

theorem Moves.trans {m : Message} {c c' c'' : Ctl} {es es' : List Event}
    (h : Moves m c es c') (h' : Moves m c' es' c'') : Moves m c (es ++ es') c'' := by
  induction h' with
  | refl => rwa [List.append_nil]
  | step _ hmove ih =>
      rw [← List.append_assoc]
      exact ih.step hmove

theorem Move.moves {m : Message} {c c' : Ctl} {es : List Event} (h : Move m c es c') :
    Moves m c es c' := Moves.refl.step h

/-- Moves up to a point at which the next move broke off. -/
def Breaks (m : Message) (c : Ctl) (es : List Event) (msgs : List Message) : Prop :=
  ∃ es₀ es₁ c', Moves m c es₀ c' ∧ es = es₀ ++ es₁ ∧ msgs = c'.msgs ∧
    (es₁ = [] ∨ ∃ es₂ c'', Move m c' (es₁ ++ es₂) c'')

theorem Moves.breaks {m : Message} {c c' : Ctl} {es : List Event} (h : Moves m c es c') :
    Breaks m c es c'.msgs :=
  ⟨es, [], c', h, by simp, rfl, Or.inl rfl⟩

theorem Move.breaks {m : Message} {c c' : Ctl} {es l : List Event}
    (h : Move m c (es ++ l) c') : Breaks m c es c.msgs :=
  ⟨[], es, c, .refl, rfl, rfl, Or.inr ⟨l, c', h⟩⟩

theorem Moves.breaks_after {m : Message} {c c' : Ctl} {es es' : List Event}
    {msgs : List Message} (h : Moves m c es c') (h' : Breaks m c' es' msgs) :
    Breaks m c (es ++ es') msgs := by
  obtain ⟨es₀, es₁, c'', hmoves, rfl, hmsgs, hbreak⟩ := h'
  exact ⟨es ++ es₀, es₁, c'', h.trans hmoves, by simp, hmsgs, hbreak⟩

end Ctl

namespace Raft

variable {T : Type}

open Call Ctl

/-! ## §3  The behaviours -/

/-- A call that handles `m` only makes moves. -/
def moving (T : Type) (m : Message) : Behaviour Event (Raft T) where
  runs r es r' := Moves m r.ctl es r'.ctl
  stops r es r' := Breaks m r.ctl es r'.msgs
  refl _ := .refl
  stops_refl _ := Moves.refl.breaks
  trans h h' := h.trans h'
  stops_after h h' := h.breaks_after h'

/-- A call that leaves the control state alone. -/
def still (T : Type) : Behaviour Event (Raft T) where
  runs r es r' := es = [] ∧ r'.ctl = r.ctl
  stops r es r' := es = [] ∧ r'.msgs = r.msgs
  refl _ := ⟨rfl, rfl⟩
  stops_refl _ := ⟨rfl, rfl⟩
  trans := by
    rintro r r' r'' _ _ ⟨rfl, h⟩ ⟨rfl, h'⟩
    exact ⟨rfl, h'.trans h⟩
  stops_after := by
    rintro r r' r'' _ _ ⟨rfl, h⟩ ⟨rfl, h'⟩
    exact ⟨rfl, h'.trans (congrArg Ctl.msgs h)⟩

/-- A call that queues nothing; at most it is refused a message at its end. -/
def mute (T : Type) : Behaviour Event (Raft T) where
  runs r es r' := es = [] ∧ r'.msgs = r.msgs
  stops r es r' := r'.msgs = r.msgs ∧ (es = [] ∨ ∃ q, q.term = 0 ∧ es = [.handed q])
  refl _ := ⟨rfl, rfl⟩
  stops_refl _ := ⟨rfl, Or.inl rfl⟩
  trans := by
    rintro r r' r'' _ _ ⟨rfl, h⟩ ⟨rfl, h'⟩
    exact ⟨rfl, h'.trans h⟩
  stops_after := by
    rintro r r' r'' _ _ ⟨rfl, h⟩ ⟨h', hes⟩
    exact ⟨h'.trans h, hes⟩

/-- A call that only queues messages satisfying `P`, or is refused one. -/
def queueing (T : Type) (P : Message → Prop) : Behaviour Event (Raft T) where
  runs r es r' := ∃ ms, (∀ q ∈ ms, P q) ∧ es = ms.map .handed ∧ r' = r.push ms
  stops r es r' := ∃ ms, (∀ q ∈ ms, P q) ∧ r' = r.push ms ∧
    (es = ms.map .handed ∨ ∃ q, q.term = 0 ∧ es = ms.map .handed ++ [.handed q])
  refl r := ⟨[], by simp, rfl, r.push_nil.symm⟩
  stops_refl r := ⟨[], by simp, r.push_nil.symm, Or.inl rfl⟩
  trans := by
    rintro r _ _ _ _ ⟨ms, hms, rfl, rfl⟩ ⟨ms', hms', rfl, rfl⟩
    refine ⟨ms ++ ms', ?_, by simp, push_push r ms ms'⟩
    intro q hq
    rcases List.mem_append.mp hq with hq | hq
    · exact hms q hq
    · exact hms' q hq
  stops_after := by
    rintro r _ _ _ _ ⟨ms, hms, rfl, rfl⟩ ⟨ms', hms', rfl, hes⟩
    refine ⟨ms ++ ms', ?_, push_push r ms ms', ?_⟩
    · intro q hq
      rcases List.mem_append.mp hq with hq | hq
      · exact hms q hq
      · exact hms' q hq
    · rcases hes with rfl | ⟨q, hq, rfl⟩
      · exact Or.inl (by simp)
      · exact Or.inr ⟨q, hq, by simp⟩

/-- A behaviour that takes no notice of what is no part of the control state. -/
def OfCtl (B : Behaviour Event (Raft T)) : Prop :=
  ∀ r r' : Raft T, r'.ctl = r.ctl → B.runs r [] r'

/-- What is said of the trace, the queue and the control state outlives a still call. -/
theorem still_outcome {α : Type} {R : List Event → List Message → Prop}
    {S : List Event → Ctl → Prop} {Q : α → Raft T → Prop} {r : Raft T} {tr : List Event}
    {x : Call Panic Event (Raft T) α} (hx : Does (still T) r x Q) (hqueue : R tr r.msgs)
    (hctl : S tr r.ctl) :
    R (tr ++ (x r).trace) (x r).state.msgs ∧
      ∀ a, (x r).value = .ok a → S (tr ++ (x r).trace) (x r).state.ctl := by
  refine hx.outcome (R := fun es r' => R (tr ++ es) r'.msgs)
    (S := fun es r' => S (tr ++ es) r'.ctl) ?_ ?_
  · rintro es r' ⟨rfl, hsame⟩
    rw [List.append_nil, hsame, show r'.msgs = r.msgs from congrArg Ctl.msgs hsame]
    exact ⟨hqueue, hctl⟩
  · rintro es r' ⟨rfl, hmsgs⟩
    rw [List.append_nil, hmsgs]
    exact hqueue

theorem ofCtl_still : OfCtl (still T) := fun _ _ h => ⟨rfl, h⟩

theorem ofCtl_moving (m : Message) : OfCtl (moving T m) := by
  intro r r' h
  show Moves m r.ctl [] r'.ctl
  rw [h]
  exact .refl

/-- A behaviour that takes no notice of the log and of who the members are, and
puts up with a message that is refused. -/
structure Lax (B : Behaviour Event (Raft T)) : Prop where
  runs : ∀ (r : Raft T) log prs isLearner,
    B.runs r [] { r with raftLog := log, prs := prs, isLearner := isLearner }
  refuses : ∀ (r : Raft T) q, q.term = 0 → B.stops r [.handed q] r

/-- A behaviour that takes no notice of who the members are. -/
def OfMembers (B : Behaviour Event (Raft T)) : Prop :=
  ∀ (r : Raft T) prs isLearner, B.runs r [] { r with prs := prs, isLearner := isLearner }

theorem Lax.ofMembers {B : Behaviour Event (Raft T)} (hB : Lax B) : OfMembers B :=
  fun r prs isLearner => hB.runs r r.raftLog prs isLearner

theorem lax_mute : Lax (mute T) where
  runs _ _ _ _ := ⟨rfl, rfl⟩
  refuses _ q hq := ⟨rfl, Or.inr ⟨q, hq, rfl⟩⟩

section Rules

variable {α : Type} {m : Message} {r : Raft T} {x : Call Panic Event (Raft T) α}
  {Q : α → Raft T → Prop}

/-- A mute call that never returns. -/
theorem moving_of_mute (h : Does (mute T) r x (fun _ _ => False)) :
    Does (moving T m) r x Q := by
  unfold Does at h ⊢
  cases hx : x r with
  | mk v r' es =>
    rw [hx] at h
    cases v with
    | ok a => exact h.2.elim
    | error p =>
        obtain ⟨hmsgs, hes⟩ := h
        -- no move is complete: nothing was seen, or a refused message
        refine ⟨[], es, r.ctl, .refl, rfl, hmsgs, ?_⟩
        rcases hes with rfl | ⟨q, hq, rfl⟩
        · exact Or.inl rfl
        · exact Or.inr ⟨[], r.ctl, .refused hq⟩

/-- Only the control state a message is queued in matters, not the queue. -/
theorem queues_push {c : Ctl} {q : Message} (h : Queues m c q)
    (ms : List Message) : Queues m (c.push ms) q := by
  cases h with
  | request hrole ht hto hself hterm => exact .request hrole ht hto hself hterm
  | preRequest hrole ht hto hself hterm => exact .preRequest hrole ht hto hself hterm
  | preGrant hm ht hto hrej hterm => exact .preGrant hm ht hto hrej hterm
  | preReject hm ht hto hrej hterm => exact .preReject hm ht hto hrej hterm
  | reject hm ht hto hrej hterm => exact .reject hm ht hto hrej hterm

theorem moves_push {c : Ctl} (ms : List Message)
    (h : ∀ q ∈ ms, Queues m c q ∧ q.term ≠ 0) :
    Moves m c (ms.map .handed) (c.push ms) := by
  -- from the end: the last message is queued behind all the others
  induction ms using List.reverseRecOn with
  | nil => simpa [Ctl.push] using Moves.refl
  | append_singleton ms q ih =>
      have hms := ih fun q' hq' => h q' (List.mem_append_left _ hq')
      obtain ⟨hq, hterm⟩ := h q (by simp)
      have hmove := hms.step (.queue (queues_push hq ms) hterm)
      simpa [Ctl.push] using hmove

/-- Queueing while the progress set is taken out, and putting back a set with
the same voters. -/
theorem does_taken {P : Message → Prop} {body : ProgressSet → Call Panic Event (Raft T) α}
    {b : ProgressSet → α → ProgressSet}
    (hP : ∀ q, P q → Queues m r.ctl q ∧ q.term ≠ 0)
    (hbody : ∀ p, r.prs = some p →
      Does (queueing T P) { r with prs := none } (body p)
        (fun a _ => (b p a).voterIds = p.voterIds)) :
    Does (moving T m) r
      (do let prs ← takePrs
          let a ← body prs
          setPrs (b prs a))
      (fun _ r' => ∃ ms, r'.ctl = r.ctl.push ms) := by
  cases hprs : r.prs with
  | none =>
      refine Does.of_error (p := .unwrapNone) (t := r) (l := []) ?_ Moves.refl.breaks
      simp [takePrs, hprs]
  | some p =>
      have hrun : ∀ f : ProgressSet → Call Panic Event (Raft T) Unit,
          (takePrs >>= f) r = f p { r with prs := none } := by
        intro f
        simp [takePrs, hprs]
      have hb := hbody p hprs
      cases hx : body p { r with prs := none } with
      | mk v r' es =>
        cases v with
        | ok a =>
            obtain ⟨⟨ms, hms, rfl, rfl⟩, hv⟩ := hb.ok hx
            have hctl : ({ r.push ms with prs := some (b p a) } : Raft T).ctl
                = r.ctl.push ms := by
              simp [Raft.ctl, Ctl.push, Raft.push, hprs, hv]
            refine Does.of_ok (a := ()) (t := { r.push ms with prs := some (b p a) })
              (l := ms.map .handed) ?_ ?_ ⟨ms, hctl⟩
            · rw [hrun, bind_ok hx]
              simp [setPrs, Raft.push]
            · show Moves m r.ctl (ms.map .handed) _
              rw [hctl]
              exact moves_push ms fun q hq => hP q (hms q hq)
        | error e =>
            obtain ⟨ms, hms, rfl, hes⟩ := hb.error hx
            have hmoves := moves_push ms fun q hq => hP q (hms q hq)
            refine Does.of_error (p := e) (by rw [hrun, bind_error hx]) ?_
            rcases hes with rfl | ⟨q, hq, rfl⟩
            · exact ⟨_, [], _, hmoves, by simp, rfl, Or.inl rfl⟩
            · exact ⟨_, _, _, hmoves, rfl, rfl, Or.inr ⟨[], _, .refused hq⟩⟩

end Rules

end Raft

end RsRaft
