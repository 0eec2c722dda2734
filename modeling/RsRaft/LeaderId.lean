import RsRaft.Lib.EveryCall
import RsRaft.Run

/-!
# The leader a node names

A node learns its leader from an append, a heartbeat or a snapshot, and each arm
that handles one passes the sender on to `become_follower`. One does not:
`step_candidate` takes the term of a snapshot for the id of the leader.

Every call that names a leader other than the node itself ends in a panic, in
the `step` of a follower or in the `send` of the reply. What the node says then
can be read off the state the panic leaves; a node that goes on names nobody or
itself.

§1 what a node says · §2 calls without a leader's message · §3 a leader's message ·
§4 runs.
-/

namespace RsRaft

open Call

/-! ## §1  What a node says -/

/-- A message only a leader sends. -/
def FromLeader (m : Message) : Prop :=
  m.msgType = .MsgAppend ∨ m.msgType = .MsgHeartbeat ∨ m.msgType = .MsgSnapshot

instance (m : Message) : Decidable (FromLeader m) := by
  unfold FromLeader
  infer_instance

/-- The messages a call hands to the node. -/
def Input.received : Input → List Message
  | .tick => []
  | .step msg => [msg]

/-- Who a node is, and whom it takes for the leader. -/
structure Head where
  id : ℕ
  term : ℕ
  role : StateRole
  leader : ℕ

namespace Head

/-- The leader is nobody, the node itself, or the sender of a leader's message of
the node's term; a node that stands for election has none. -/
def Truthful (heard : List Message) (h : Head) : Prop :=
  (h.leader = INVALID_ID ∨ (h.role = .Leader ∧ h.leader = h.id) ∨
    ∃ m ∈ heard, FromLeader m ∧ m.term = h.term ∧ m.from_ = h.leader) ∧
  (h.role = .PreCandidate ∨ h.role = .Candidate → h.leader = INVALID_ID)

instance (heard : List Message) (h : Head) : Decidable (h.Truthful heard) := by
  unfold Truthful
  infer_instance

/-- The leader is nobody or the node itself. -/
def Own (h : Head) : Prop := h.leader = INVALID_ID ∨ (h.role = .Leader ∧ h.leader = h.id)

theorem Own.truthful {h : Head} (hown : h.Own) (heard : List Message) : h.Truthful heard := by
  constructor
  · exact hown.imp_right Or.inl
  · intro hstand
    rcases hown with hnone | ⟨hlead, _⟩
    · exact hnone
    · rw [hlead] at hstand
      rcases hstand with h | h <;> cases h

end Head

namespace Raft

variable {T : Type}

def head (r : Raft T) : Head where
  id := r.id
  term := r.term
  role := r.state
  leader := r.leaderId

/-- A call that changes nothing of what the node says. -/
def level (T : Type) : Behaviour Event (Raft T) where
  runs r _ r' := r'.head = r.head
  stops r _ r' := r'.head = r.head
  refl _ := rfl
  stops_refl _ := rfl
  trans h h' := h'.trans h
  stops_after h h' := h'.trans h

theorem lax_level : Lax (level T) where
  runs _ _ _ _ := rfl
  refuses _ _ _ := rfl

/-- The term does not go down, and nobody else becomes the leader. -/
def Modest (r r' : Raft T) : Prop := r.term ≤ r'.term ∧ (r.head.Own → r'.head.Own)

theorem Modest.of_head {r r' : Raft T} (h : r'.head = r.head) : Modest r r' := by
  constructor
  · exact Nat.le_of_eq (congrArg Head.term h).symm
  · rw [h]
    exact fun hown => hown

theorem Modest.trans {r r' r'' : Raft T} (h : Modest r r') (h' : Modest r' r'') :
    Modest r r'' :=
  ⟨h.1.trans h'.1, h'.2 ∘ h.2⟩

def modest (T : Type) : Behaviour Event (Raft T) where
  runs r _ r' := Modest r r'
  stops r _ r' := Modest r r'
  refl _ := .of_head rfl
  stops_refl _ := .of_head rfl
  trans := .trans
  stops_after := .trans

theorem ofCtl_modest : OfCtl (modest T) := by
  intro r r' h
  apply Modest.of_head
  show Head.mk r'.ctl.id r'.ctl.term r'.ctl.role r'.ctl.leader = _
  rw [h]
  rfl

theorem lax_modest : Lax (modest T) where
  runs _ _ _ _ := .of_head rfl
  refuses _ _ _ := .of_head rfl

/-! ## §2  Calls without a leader's message -/

section Methods

variable [Storage T] {m : Message} {r : Raft T}

omit [Storage T] in
theorem ResetStops.head {term : ℕ} {r' : Raft T} (h : ResetStops r term r') :
    r'.head = { r.head with term := term } := by
  unfold Raft.head
  rw [h.id, h.term, h.state, h.leaderId]

omit [Storage T] in
theorem ResetStops.modest {term : ℕ} {r' : Raft T} (h : ResetStops r term r')
    (hterm : r.term ≤ term) : Modest r r' := by
  constructor
  · rwa [h.term]
  · rw [h.head]
    exact fun hown => hown

theorem modest_becomeFollower {term : ℕ} (hterm : r.term ≤ term) :
    Does (modest T) r (becomeFollower term INVALID_ID) (fun _ _ => True) := by
  refine (does_becomeFollower_of ?_ ?_).weaken fun _ _ _ => trivial
  · exact fun _ hr' => hr'.modest hterm
  · intro r' hctl _
    constructor
    · rwa [show r'.term = term from congrArg Ctl.term hctl]
    · exact fun _ => Or.inl (congrArg Ctl.leader hctl)

omit [Storage T] in
theorem modest_becomePreCandidate (r : Raft T) :
    Does (modest T) r becomePreCandidate (fun _ _ => True) := by
  unfold becomePreCandidate
  refine Does.read_bind (Does.ite (fun _ => Does.panic _) fun _ => ?_)
  exact Does.of_ok rfl ⟨Nat.le_refl _, fun _ => Or.inl rfl⟩ trivial

/-- `become_candidate` does not clear the leader, but there is none to be cleared. -/
theorem modest_becomeCandidate (r : Raft T) :
    Does (modest T) r becomeCandidate (fun _ r' => r'.term ≠ 0) := by
  refine (does_becomeCandidate_of ?_ ?_).weaken ?_
  · exact fun _ _ hr' => hr'.modest (Nat.le_succ _)
  · intro hrole r' hctl _
    constructor
    · rw [show r'.term = r.term + 1 from congrArg Ctl.term hctl]
      exact Nat.le_succ _
    · intro hown
      left
      rw [← hown.resolve_right fun h => hrole h.1]
      exact congrArg Ctl.leader hctl
  · rintro _ r' ⟨hctl, _⟩
    rw [show r'.term = r.term + 1 from congrArg Ctl.term hctl]
    exact Nat.succ_ne_zero _

theorem modest_becomeLeader (r : Raft T) :
    Does (modest T) r becomeLeader (fun _ _ => True) := by
  refine (does_becomeLeader_of ofCtl_modest ?_ ?_ ?_).weaken fun _ _ _ => trivial
  · exact fun _ => .of_head rfl
  · exact fun _ hr' => hr'.modest (Nat.le_refl _)
  · intro r' hctl
    constructor
    · exact Nat.le_of_eq (congrArg Ctl.term hctl).symm
    · intro _
      right
      exact ⟨congrArg Ctl.role hctl,
        (congrArg Ctl.leader hctl).trans (congrArg Ctl.id hctl).symm⟩

theorem modest_campaign (ct : Bytes) (r : Raft T) :
    Does (modest T) r (campaign ct) (fun _ _ => True) := by
  apply does_campaign_of
  · exact fun r prs => .of_head rfl
  · exact modest_becomePreCandidate
  · exact modest_becomeCandidate
  · exact fun r votes => .of_head rfl
  · exact fun r q _ _ => .of_head rfl
  · exact modest_becomeLeader

omit [Storage T] in
/-- A vote message is queued or refused. -/
theorem modest_send {q : Message} (hv : isVoteMessage q.msgType = true) (r : Raft T) :
    Does (modest T) r (send q) (fun _ _ => True) := by
  by_cases hterm : q.term = 0
  · exact lax_modest.send hterm r
  · exact Does.of_ok (send_of_vote hv hterm r) (.of_head rfl) trivial

theorem modest_stepVoteRequest (m : Message) (r : Raft T) :
    Does (modest T) r (stepVoteRequest m) (fun _ _ => True) := by
  apply does_stepVoteRequest_of
  · exact fun r' q hv _ => modest_send hv r'
  · exact fun r' => .of_head rfl

omit [Storage T] in
theorem modest_stepLowerTerm (m : Message) (r : Raft T) :
    Does (modest T) r (stepLowerTerm m) (fun _ _ => True) := by
  unfold stepLowerTerm
  refine Does.read_bind (Does.ite (fun _ => lax_modest.send rfl r) fun _ => ?_)
  refine Does.ite (fun _ => ?_) fun _ => Does.pure trivial
  apply modest_send
  rfl

variable [ProtoMessage Entry]

theorem modest_bcastAppend (r : Raft T) :
    Does (modest T) r bcastAppend (fun _ _ => True) := by
  unfold bcastAppend forPeers
  have hprs : ∀ (r : Raft T) prs, (modest T).runs r [] { r with prs := prs } :=
    fun _ _ => .of_head rfl
  refine Does.read_bind (Does.bind (does_takePrs hprs r) fun p r' _ => ?_)
  refine Does.bind (does_sendAppends lax_modest.refuses r.id p.progress r') fun _ r'' _ => ?_
  exact Does.of_ok rfl (.of_head rfl) trivial

theorem modest_stepVoteResponse (m : Message) (r : Raft T) :
    Does (modest T) r (stepVoteResponse m) (fun _ _ => True) := by
  unfold stepVoteResponse
  refine Does.read_bind (Does.ite (fun _ => Does.pure trivial) fun _ => ?_)
  refine Does.modify_bind (.of_head rfl) (does_pollVotes_bind fun st _ => ?_)
  cases st with
  | Elected =>
      refine Does.ite (fun _ => modest_campaign _ _) fun _ => ?_
      exact Does.bind (modest_becomeLeader _) fun _ r' _ => modest_bcastAppend r'
  | Ineligible =>
      show Does (modest T) _ (becomeFollower r.term INVALID_ID) _
      exact modest_becomeFollower (Nat.le_refl _)
  | Eligible => exact Does.pure trivial

theorem modest_stepHup (r : Raft T) : Does (modest T) r stepHup (fun _ _ => True) := by
  unfold stepHup
  refine Does.read_bind (Does.ite (fun _ => ?_) fun _ => Does.pure trivial)
  refine Does.lift_bind fun ents _ => Does.ite (fun _ => Does.pure trivial) fun _ => ?_
  exact Does.ite (fun _ => modest_campaign _ _) fun _ => modest_campaign _ _

theorem modest_stepByRole (hm : ¬ FromLeader m) (r : Raft T) :
    Does (modest T) r (stepByRole m) (fun _ _ => True) := by
  by_cases hstand : r.ctl.Standing
  · refine Does.of_run_eq (stepByRole_standing hstand) ?_
    unfold stepCandidate
    cases ht : m.msgType
    case MsgAppend => exact absurd (Or.inl ht) hm
    case MsgHeartbeat => exact absurd (Or.inr (Or.inl ht)) hm
    case MsgSnapshot => exact absurd (Or.inr (Or.inr ht)) hm
    case MsgRequestVoteResponse =>
      exact Does.bind (modest_stepVoteResponse m r) fun _ _ _ => Does.pure trivial
    case MsgRequestPreVoteResponse =>
      exact Does.bind (modest_stepVoteResponse m r) fun _ _ _ => Does.pure trivial
    all_goals exact Does.pure trivial
  · exact Does.of_run_eq (stepByRole_idle hstand) (Does.panic _)

theorem modest_dispatch (hm : ¬ FromLeader m) (r : Raft T) :
    Does (modest T) r (dispatch m) (fun _ _ => True) := by
  unfold dispatch
  cases m.msgType
  case MsgHup => exact Does.bind (modest_stepHup r) fun _ _ _ => Does.pure trivial
  case MsgRequestVote =>
    exact Does.bind (modest_stepVoteRequest m r) fun _ _ _ => Does.pure trivial
  case MsgRequestPreVote =>
    exact Does.bind (modest_stepVoteRequest m r) fun _ _ _ => Does.pure trivial
  all_goals exact modest_stepByRole hm r

theorem modest_step (hm : ¬ FromLeader m) (r : Raft T) :
    Does (modest T) r (step m) (fun _ _ => True) := by
  unfold step
  refine Does.read_bind (Does.ite (fun _ => modest_dispatch hm r) fun _ => ?_)
  refine Does.ite (fun hgt => ?_) fun _ => Does.ite (fun _ => ?_) fun _ => modest_dispatch hm r
  · refine Does.ite (fun _ => Does.pure trivial) fun _ => ?_
    refine Does.ite (fun _ => modest_dispatch hm r) fun _ => Does.ite (fun ht => absurd ht hm) ?_
    intro _
    refine Does.bind (modest_becomeFollower (Nat.le_of_lt hgt)) fun _ r' _ => ?_
    exact modest_dispatch hm r'
  · exact Does.bind (modest_stepLowerTerm m r) fun _ _ _ => Does.pure trivial

theorem modest_tick (r : Raft T) : Does (modest T) r tick (fun _ _ => True) := by
  have hup : ¬ FromLeader (hupOf r) := by
    rintro (h | h | h) <;> cases h
  have helection : Does (modest T) r tickElection (fun _ _ => True) := by
    refine does_tickElection ?_ fun r' _ _ => modest_step hup r'
    exact fun r' r'' hr' hr'' => ofCtl_modest r' r'' (hr''.trans hr'.symm)
  unfold tick
  apply Does.read_bind
  cases hs : r.state with
  | Leader => exact does_tickHeartbeat ofCtl_modest hs
  | FOLLOWER => exact helection
  | PreCandidate => exact helection
  | Candidate => exact helection

/-! ## §3  A leader's message -/

/-- The node can go through a `reset`. -/
def Resettable (r : Raft T) : Prop :=
  r.minElectionTimeout < r.maxElectionTimeout ∧ (∃ li, r.raftLog.lastIndex = .ok li) ∧
    r.prs.isSome

/-- The call panics, and the node says `h` then. -/
def StopsAs {α : Type} (o : Outcome Panic Event (Raft T) α) (h : Head) : Prop :=
  ∃ p, o.value = .error p ∧ o.state.head = h

omit [Storage T] [ProtoMessage Entry] in
theorem stopsAs_of_level {α : Type} {x : Call Panic Event (Raft T) α}
    (h : Does (level T) r x (fun _ _ => False)) : StopsAs (x r) r.head := by
  cases hx : x r with
  | mk v r' es =>
    cases v with
    | ok a => exact (h.ok hx).2.elim
    | error p => exact ⟨p, rfl, h.error hx⟩

section Follow

variable {α : Type} {f : Unit → Call Panic Event (Raft T) α}

omit [ProtoMessage Entry] in
theorem stopsAs_follow (hres : r.Resettable) (t l : ℕ)
    (hf : ∀ r' : Raft T, r'.state = .FOLLOWER → StopsAs (f () r') r'.head) :
    StopsAs ((becomeFollower t l >>= f) r) ⟨r.id, t, .FOLLOWER, l⟩ := by
  obtain ⟨ht, ⟨li, hli⟩, hprs⟩ := hres
  obtain ⟨prs, hprs⟩ := Option.isSome_iff_exists.mp hprs
  rw [bind_ok (becomeFollower_ok (reset_ok ht hli hprs t) l)]
  exact hf _ rfl

omit [ProtoMessage Entry] in
theorem stopsAs_reset (hres : ¬ r.Resettable) (t l : ℕ) :
    StopsAs ((becomeFollower t l >>= f) r) { r.head with term := t } := by
  rcases reset_cases t r with ⟨li, prs, hli, hprs, hreset⟩ | ⟨p, r', hreset, hr'⟩
  · -- what is left to go wrong is the range of the random timeout
    have ht : ¬ r.minElectionTimeout < r.maxElectionTimeout := by
      intro ht
      exact hres ⟨ht, ⟨li, hli⟩, by rw [hprs]; rfl⟩
    have hvalue : (reset t r).value = .error .emptyRange := by
      unfold reset resetRandomizedElectionTimeout
      by_cases h : r.term = t
      · simp [h, ht]
      · simp [h, ht]
    rw [hreset] at hvalue
    cases hvalue
  · have hrun : becomeFollower t l r = ⟨.error p, r', resetEvents r.term t⟩ := by
      unfold becomeFollower
      rw [bind_error hreset]
    rw [bind_error hrun]
    exact ⟨p, rfl, hr'.head⟩

end Follow

/-- The term and the leader that `step_candidate` hands to `become_follower`. -/
def follows (r : Raft T) (m : Message) : ℕ × ℕ :=
  if m.msgType = .MsgSnapshot then (r.term, m.term) else (m.term, m.from_)

theorem stepCandidate_fromLeader (hm : FromLeader m) (r : Raft T) :
    ∃ f : Unit → Call Panic Event (Raft T) (Result Unit),
      (∀ r' : Raft T, StopsAs (f () r') r'.head) ∧
      stepCandidate m r = (becomeFollower (r.follows m).1 (r.follows m).2 >>= f) r := by
  have hstop : ∀ {x : Call Panic Event (Raft T) Unit},
      (∀ r' : Raft T, Does (level T) r' x (fun _ _ => False)) → ∀ r' : Raft T,
      StopsAs ((x >>= fun _ => (pure (.ok ()) : Call Panic Event (Raft T) (Result Unit))) r')
        r'.head := by
    intro x hx r'
    exact stopsAs_of_level (Does.bind (hx r') fun _ _ h => h.elim)
  unfold stepCandidate follows
  rcases hm with ht | ht | ht
  · rw [ht]
    exact ⟨_, hstop (does_handlerAppendEntries lax_level m), rfl⟩
  · rw [ht]
    exact ⟨_, hstop (does_handlerHeartbeat lax_level m), rfl⟩
  · rw [ht]
    exact ⟨_, hstop (does_handlerSnapshot lax_level m), rfl⟩

theorem dispatch_fromLeader (hm : FromLeader m) (r : Raft T) :
    dispatch m r = stepByRole m r := by
  unfold dispatch
  rcases hm with ht | ht | ht <;> rw [ht]

/-- A node that is not standing has no `step` of its own. -/
theorem stopsAs_idle (hm : FromLeader m) (hidle : ¬ r.ctl.Standing) :
    StopsAs (dispatch m r) r.head := by
  rw [dispatch_fromLeader hm, stepByRole_idle hidle]
  exact ⟨_, rfl, rfl⟩

/-- A message of the node's term, or of none, goes to the arms of `step`. -/
theorem step_current (hterm : m.term = 0 ∨ m.term = r.term) : step m r = dispatch m r := by
  unfold step
  rw [read_bind_run, ite_run]
  rcases hterm with h | h
  · rw [if_pos h]
  · by_cases hzero : m.term = 0
    · rw [if_pos hzero]
    · rw [if_neg hzero, ite_run, if_neg (by omega), ite_run, if_neg (by omega)]

/-- What the node says when a leader's message has stopped it. -/
inductive Heeds (r : Raft T) (m : Message) : Head → Prop
  | nothing {t : ℕ} : Heeds r m { r.head with term := t }
  | sender : Heeds r m ⟨r.id, m.term, .FOLLOWER, m.from_⟩
  | snapshot (ht : m.msgType = .MsgSnapshot) (hstand : r.ctl.Standing)
      (hterm : m.term = 0 ∨ m.term = r.term) (hres : r.Resettable) :
      Heeds r m ⟨r.id, r.term, .FOLLOWER, m.term⟩

/-- No call with a leader's message that is not outdated returns. -/
theorem step_heeds (hm : FromLeader m) (hnew : m.term = 0 ∨ r.term ≤ m.term) :
    ∃ h, StopsAs (step m r) h ∧ Heeds r m h := by
  by_cases hcur : m.term = 0 ∨ m.term = r.term
  · rw [step_current hcur]
    by_cases hstand : r.ctl.Standing
    · obtain ⟨f, hf, hrun⟩ := stepCandidate_fromLeader hm r
      rw [dispatch_fromLeader hm, stepByRole_standing hstand, hrun]
      by_cases hres : r.Resettable
      · refine ⟨_, stopsAs_follow hres _ _ fun r' _ => hf r', ?_⟩
        unfold follows
        split
        · rename_i ht
          exact .snapshot ht hstand hcur hres
        · exact .sender
      · exact ⟨_, stopsAs_reset hres _ _, .nothing⟩
    · exact ⟨_, stopsAs_idle hm hstand, .nothing (t := r.term)⟩
  · rw [not_or] at hcur
    obtain ⟨hzero, hne⟩ := hcur
    have hgt : m.term > r.term := by omega
    have hnot : ¬ (m.msgType = .MsgRequestVote ∨ m.msgType = .MsgRequestPreVote) ∧
        ¬ (m.msgType = .MsgRequestPreVote ∨
          (m.msgType = .MsgRequestPreVoteResponse ∧ ¬ m.reject)) := by
      rcases hm with ht | ht | ht <;> simp [ht]
    have hrun : step m r = (becomeFollower m.term m.from_ >>= fun _ => dispatch m) r := by
      unfold step
      rw [read_bind_run, ite_run, if_neg hzero, ite_run, if_pos hgt, ite_run, if_neg hnot.1,
        ite_run, if_neg hnot.2]
      show (if FromLeader m then _ else _ : Call Panic Event (Raft T) (Result Unit)) r = _
      rw [ite_run, if_pos hm]
    rw [hrun]
    by_cases hres : r.Resettable
    · refine ⟨_, stopsAs_follow hres _ _ fun r' hrole => stopsAs_idle hm ?_, .sender⟩
      rintro (h | h)
      · exact absurd (hrole.symm.trans h) (by decide)
      · exact absurd (hrole.symm.trans h) (by decide)
    · exact ⟨_, stopsAs_reset hres _ _, .nothing⟩

/-- A snapshot of the node's own term meets a node that stands for election, and
the term is not the sender. -/
def Misled (r : Raft T) (m : Message) : Prop :=
  m.msgType = .MsgSnapshot ∧ r.ctl.Standing ∧ m.term = r.term ∧ m.term ≠ 0 ∧
    m.from_ ≠ m.term ∧ r.Resettable

theorem step_misled (h : r.Misled m) :
    StopsAs (step m r) ⟨r.id, r.term, .FOLLOWER, m.term⟩ := by
  obtain ⟨ht, hstand, hterm, _, _, hres⟩ := h
  have hm : FromLeader m := Or.inr (Or.inr ht)
  obtain ⟨f, hf, hrun⟩ := stepCandidate_fromLeader hm r
  rw [step_current (Or.inr hterm), dispatch_fromLeader hm, stepByRole_standing hstand, hrun]
  have hfollows : r.follows m = (r.term, m.term) := if_pos ht
  rw [hfollows]
  exact stopsAs_follow hres _ _ fun r' _ => hf r'

omit [ProtoMessage Entry] in
/-- Anything else a leader's message makes the node say is true. -/
theorem Heeds.truthful {h : Head} (hheeds : r.Heeds m h) (hown : r.head.Own)
    (hm : FromLeader m) {heard : List Message} (hmem : m ∈ heard) (hmisled : ¬ r.Misled m) :
    h.Truthful heard := by
  cases hheeds with
  | @nothing t =>
      have hown' : Head.Own { r.head with term := t } := hown
      exact hown'.truthful _
  | sender =>
      constructor
      · exact Or.inr (Or.inr ⟨m, hmem, hm, rfl, rfl⟩)
      · rintro (h | h) <;> cases h
  | snapshot ht hstand hterm hres =>
      constructor
      · by_cases hzero : m.term = 0
        · exact Or.inl hzero
        · have hcur : m.term = r.term := hterm.resolve_left hzero
          have hsender : m.from_ = m.term := by
            by_contra hne
            exact hmisled ⟨ht, hstand, hcur, hzero, hne, hres⟩
          exact Or.inr (Or.inr ⟨m, hmem, hm, hcur, hsender⟩)
      · rintro (h | h) <;> cases h

/-- An outdated message of a leader is answered or dropped. -/
theorem step_outdated (hm : FromLeader m) (hzero : m.term ≠ 0) (hlt : m.term < r.term) :
    (step m r).state = r := by
  have hpre : m.msgType ≠ .MsgRequestPreVote := by
    rcases hm with ht | ht | ht <;> rw [ht] <;> decide
  have hlower : (stepLowerTerm m r).state = r := by
    unfold stepLowerTerm
    rw [read_bind_run, ite_run, ite_run, if_neg hpre, send_of_term_eq_zero rfl]
    split <;> rfl
  unfold step
  rw [read_bind_run, ite_run, if_neg hzero, ite_run, if_neg (by omega), ite_run, if_pos hlt,
    bind_pure_run]
  exact hlower

/-! ## §4  Runs -/

omit [Storage T] [ProtoMessage Entry] in
theorem modest_of_does {α : Type} {x : Call Panic Event (Raft T) α} {Q : α → Raft T → Prop}
    (h : Does (modest T) r x Q) : Modest r (x r).state :=
  h.elim (R := fun _ r' => Modest r r') (fun _ _ h => h) fun _ _ h => h

/-- What one call does to what the node says. -/
inductive Handled (r : Raft T) (i : Input) : Prop
  /-- The node is as modest as before. -/
  | modest (h : Modest r (handle i r).state)
      (hi : ∀ m ∈ i.received, FromLeader m → m.term < r.term)
  /-- A leader's message stops it. -/
  | stops {m : Message} {h : Head} (hi : i = .step m) (hm : FromLeader m)
      (hstop : StopsAs (handle i r) h) (hheeds : r.Heeds m h)

theorem handled (i : Input) (r : Raft T) : Handled r i := by
  cases i with
  | tick =>
      refine .modest ?_ (by simp [Input.received])
      show Modest r ((tick >>= fun _ => pure ()) r).state
      rw [bind_pure_run]
      exact modest_of_does (modest_tick r)
  | step m =>
      have hrun : handle (.step m) r = ⟨(step m r).value.map fun _ => (), (step m r).state,
          (step m r).trace⟩ := bind_pure_run _ _ _
      by_cases hm : FromLeader m
      · by_cases hnew : m.term = 0 ∨ r.term ≤ m.term
        · obtain ⟨h, ⟨p, hvalue, hstate⟩, hheeds⟩ := step_heeds hm hnew
          refine .stops rfl hm ⟨p, ?_, ?_⟩ hheeds
          · rw [hrun, hvalue]
            rfl
          · rw [hrun]
            exact hstate
        · rw [not_or] at hnew
          obtain ⟨hzero, hlt⟩ := hnew
          refine .modest ?_ ?_
          · rw [hrun, step_outdated hm hzero (by omega)]
            exact .of_head rfl
          · intro m' hm' _
            obtain rfl : m' = m := by simpa [Input.received] using hm'
            omega
      · refine .modest ?_ ?_
        · rw [hrun]
          exact modest_of_does (modest_step hm r)
        · intro m' hm' hfrom
          obtain rfl : m' = m := by simpa [Input.received] using hm'
          exact absurd hfrom hm

end Methods

end Raft

/-- A node, and the messages it was handed so far. -/
structure Listener (T : Type) where
  raft : Raft T
  heard : List Message := []

namespace Listener

open Raft

section Runs

variable {T : Type} [Storage T] [ProtoMessage Entry]

/-- The call `i` returns and leaves `s'`. -/
def Next (s : Listener T) (i : Input) (s' : Listener T) : Prop :=
  (handle i s.raft).value = .ok () ∧
    s' = ⟨(handle i s.raft).state, s.heard ++ i.received⟩

/-- However the call ends, the node does not lie about its leader then. A panic
leaves the node as it was when it built the reply. -/
def TellsTruth (s : Listener T) (i : Input) : Prop :=
  (handle i s.raft).state.head.Truthful (s.heard ++ i.received)

omit [ProtoMessage Entry] in
/-- The call hands a candidate the snapshot that misleads it. -/
def IsMisled (s : Listener T) (i : Input) : Prop := ∃ m, i = .step m ∧ s.raft.Misled m

omit [Storage T] [ProtoMessage Entry] in
/-- Between two calls a node names nobody else, and what it heard from leaders is
of earlier terms. -/
structure Quiet (s : Listener T) : Prop where
  own : s.raft.head.Own
  heard : ∀ m ∈ s.heard, FromLeader m → m.term < s.raft.term

/-- A node that heard nothing else of its term is caught lying. -/
theorem not_tellsTruth_of_misled {s : Listener T} (h : Quiet s) {m : Message}
    (hmisled : s.raft.Misled m) : ¬ TellsTruth s (.step m) := by
  intro htruth
  obtain ⟨p, _, hstate⟩ := step_misled hmisled
  have hhead : (handle (.step m) s.raft).state.head =
      ⟨s.raft.id, s.raft.term, .FOLLOWER, m.term⟩ := by
    show ((step m >>= fun _ => pure ()) s.raft).state.head = _
    rw [bind_pure_run]
    exact hstate
  obtain ⟨_, _, hterm, hzero, hsender, _⟩ := hmisled
  unfold TellsTruth at htruth
  rw [hhead] at htruth
  rcases htruth.1 with hnone | ⟨hlead, _⟩ | ⟨m', hm', hfrom, hterm', hsender'⟩
  · exact hzero hnone
  · cases hlead
  · -- what was heard before is of earlier terms, so it would be this very message
    rcases List.mem_append.mp hm' with hm' | hm'
    · exact absurd hterm' (Nat.ne_of_lt (h.heard m' hm' hfrom))
    · obtain rfl : m' = m := by simpa [Input.received] using hm'
      exact hsender hsender'

theorem tellsTruth_iff {s : Listener T} (h : Quiet s) (i : Input) :
    TellsTruth s i ↔ ¬ IsMisled s i := by
  constructor
  · rintro htruth ⟨m, rfl, hmisled⟩
    exact not_tellsTruth_of_misled h hmisled htruth
  · intro hmisled
    cases handled i s.raft with
    | modest hmodest _ => exact (hmodest.2 h.own).truthful _
    | stops hi hm hstop hheeds =>
        subst hi
        obtain ⟨p, _, rfl⟩ := hstop
        apply hheeds.truthful h.own hm
        · simp [Input.received]
        · exact fun hmis => hmisled ⟨_, rfl, hmis⟩

theorem Quiet.next {s s' : Listener T} {i : Input} (h : Quiet s) (hnext : Next s i s') :
    Quiet s' := by
  obtain ⟨hvalue, rfl⟩ := hnext
  cases handled i s.raft with
  | modest hmodest hi =>
      constructor
      · exact hmodest.2 h.own
      · intro m hm hfrom
        apply Nat.lt_of_lt_of_le _ hmodest.1
        rcases List.mem_append.mp hm with hm | hm
        · exact h.heard m hm hfrom
        · exact hi m hm hfrom
  | stops _ _ hstop _ =>
      obtain ⟨p, hp, _⟩ := hstop
      rw [hvalue] at hp
      cases hp

/-- A node that starts without a leader tells the truth about its leader along a
run if and only if no call of the run misleads it. -/
theorem tellsTruth_run_iff (is : List Input) {r : Raft T} (hleader : r.leaderId = INVALID_ID) :
    EveryCall Next TellsTruth is ⟨r, []⟩ ↔
      EveryCall Next (fun s i => ¬ IsMisled s i) is ⟨r, []⟩ := by
  have hquiet : Quiet (⟨r, []⟩ : Listener T) := by
    constructor
    · exact Or.inl hleader
    · simp
  refine EveryCall.iff_of_invariant (A := fun _ _ => True) ?_ ?_ hquiet
    (EveryCall.of_forall (fun _ _ => trivial) is _)
  · exact fun s i h _ => tellsTruth_iff h i
  · exact fun s i s' h _ _ hnext => h.next hnext

end Runs

/-- Node `1` of term `1` stands for term `2` and is handed a snapshot of that term. -/
def handedSnapshot (sender : ℕ) : List Input :=
  [.step { msgType := .MsgHup, to_ := 1, from_ := 1 },
    .step { msgType := .MsgSnapshot, to_ := 1, from_ := sender, term := 2 }]

/-- Node `2` sent it: the term happens to be the sender. -/
theorem tellsTruth_run_iff_handedSnapshot :
    { memNode 1 [1, 2, 3] [] with term := 1 }.leaderId = INVALID_ID ∧
    (EveryCall Next TellsTruth (handedSnapshot 2)
        ⟨{ memNode 1 [1, 2, 3] [] with term := 1 }, []⟩ ↔
      EveryCall Next (fun s i => ¬ IsMisled s i) (handedSnapshot 2)
        ⟨{ memNode 1 [1, 2, 3] [] with term := 1 }, []⟩) :=
  ⟨by decide, tellsTruth_run_iff (handedSnapshot 2)
    (r := { memNode 1 [1, 2, 3] [] with term := 1 }) (by decide)⟩

/-- Node `3` sent it, and node `1` takes node `2` for the leader. -/
theorem not_tellsTruth_handedSnapshot :
    ¬ EveryCall Next TellsTruth (handedSnapshot 3)
      ⟨{ memNode 1 [1, 2, 3] [] with term := 1 }, []⟩ := by
  rintro ⟨_, h⟩
  obtain ⟨htruth, _⟩ := h _ ⟨by decide, rfl⟩
  revert htruth
  unfold TellsTruth
  decide

end Listener

end RsRaft
