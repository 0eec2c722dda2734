import RsRaft.Run

/-!
# What reaches the queue

Every message a node sends goes through `send`, which stamps it with the id and
the term of the node. A message that is handed over without a term is refused
before that. Vote messages are built with a term; nobody else sets one, and so
nobody else gets through.

§1 the paths to `send` · §2 calls that only ask for votes · §3 which paths get
through.
-/

namespace RsRaft

/-! ## §1  The paths to `send` -/

/-- The messages handed to `send` along a trace. -/
def handed (es : List Event) : List Message :=
  es.filterMap fun
    | .handed msg => some msg
    | _ => none

theorem handed_append (es es' : List Event) :
    handed (es ++ es') = handed es ++ handed es' := List.filterMap_append

/-- What becomes of `msg` in the queue of the node `id` of term `term`. -/
structure Stamped (id term : ℕ) (msg sent : Message) : Prop where
  msgType : sent.msgType = msg.msgType
  receiver : sent.to_ = msg.to_
  sender : sent.from_ = id
  term : Raft.isVoteMessage sent.msgType = false → sent.msgType ≠ .MsgPropose →
    sent.msgType ≠ .MsgReadIndex → sent.term = term

/-- The places `send` is called from. -/
inductive SendPath where
  /-- The vote requests of `campaign`. -/
  | campaign (campaignType : Bytes)
  /-- The replies to a vote request that has a term. -/
  | voteReply (msg : Message) (h : msg.term ≠ 0)
  /-- The replies to a message of a lower term. -/
  | staleReply (msg : Message)
  | sendAppend (to_ : ℕ) (pr : Progress)
  | sendHeartbeat (to_ : ℕ) (pr : Progress) (ctx : Option Bytes)
  | handlerAppendEntries (msg : Message)
  | handlerHeartbeat (msg : Message)
  | handlerSnapshot (msg : Message)

/-- The paths that hand over a vote message, whenever they hand over a message. -/
def SendPath.OfVotes : SendPath → Prop
  | .campaign _ => True
  | .voteReply _ _ => True
  | .staleReply msg => msg.msgType = .MsgRequestPreVote
  | .sendAppend _ _ => False
  | .sendHeartbeat _ _ _ => False
  | .handlerAppendEntries _ => False
  | .handlerHeartbeat _ => False
  | .handlerSnapshot _ => False

namespace Raft

open Call Ctl

variable {T : Type}

/-- Each message that was handed to `send` during the call is in the queue, stamped. -/
def Sends {α : Type} (r : Raft T) (o : Outcome Panic Event (Raft T) α) : Prop :=
  ∃ ms, o.state.msgs = r.msgs ++ ms ∧
    List.Forall₂ (Stamped r.id o.state.term) (handed o.trace) ms

/-- A message gets through `send` exactly if it has a term. -/
theorem sends_send_iff (q : Message) (r : Raft T) : Sends r (send q r) ↔ q.term ≠ 0 := by
  constructor
  · rintro ⟨ms, hms, hall⟩ hterm
    rw [send_of_term_eq_zero hterm] at hms hall
    obtain rfl : ms = [] := by simpa using hms
    cases hall
  · intro hterm
    by_cases hv : isVoteMessage q.msgType = true
    · rw [send_of_vote hv hterm]
      refine ⟨[{ q with from_ := r.id }], rfl, .cons ⟨rfl, rfl, rfl, ?_⟩ .nil⟩
      intro hnot
      rw [hv] at hnot
      cases hnot
    · have hrun : send q r = ⟨.ok (), { r with msgs := r.msgs ++
          [if q.msgType ≠ .MsgPropose ∧ q.msgType ≠ .MsgReadIndex then
            { q with from_ := r.id, term := r.term }
          else { q with from_ := r.id }] }, [.handed q]⟩ := by
        unfold send
        simp [hv, hterm]
      rw [hrun]
      refine ⟨_, rfl, .cons ?_ .nil⟩
      split
      · exact ⟨rfl, rfl, rfl, fun _ _ _ => rfl⟩
      · rename_i hexempt
        exact ⟨rfl, rfl, rfl, fun _ h h' => absurd ⟨h, h'⟩ hexempt⟩

end Raft

section Paths

variable {T : Type} [Storage T] [ProtoMessage Entry]

/-- The call behind a path. -/
def SendPath.call : SendPath → Call Panic Event (Raft T) Unit
  | .campaign campaignType => Raft.campaign campaignType
  | .voteReply msg _ => Raft.stepVoteRequest msg
  | .staleReply msg => Raft.stepLowerTerm msg
  | .sendAppend to_ pr => do
      let _ ← Raft.sendAppend to_ pr
      pure ()
  | .sendHeartbeat to_ pr ctx => Raft.sendHeartbeat to_ pr ctx
  | .handlerAppendEntries msg => Raft.handlerAppendEntries msg
  | .handlerHeartbeat msg => Raft.handlerHeartbeat msg
  | .handlerSnapshot msg => Raft.handlerSnapshot msg

end Paths

namespace Raft

open Call Ctl

variable {T : Type}

/-! ## §2  Calls that only ask for votes -/

/-- Between the two states only vote messages went to `send`, and all of them got
through. -/
def Asked (r : Raft T) (es : List Event) (r' : Raft T) : Prop :=
  r'.msgs = (r.push (handed es)).msgs ∧ ∀ q ∈ handed es, isVoteMessage q.msgType = true

theorem Asked.silent {r r' : Raft T} {es : List Event} (hes : handed es = [])
    (h : r'.msgs = r.msgs) : Asked r es r' := by
  constructor
  · rw [h, hes, push_nil]
  · simp [hes]

theorem Asked.trans {r r' r'' : Raft T} {es es' : List Event} (h : Asked r es r')
    (hid : r'.id = r.id) (h' : Asked r' es' r'') : Asked r (es ++ es') r'' := by
  obtain ⟨hmsgs, hv⟩ := h
  obtain ⟨hmsgs', hv'⟩ := h'
  constructor
  · rw [hmsgs', handed_append]
    simp [push, hmsgs, hid]
  · intro q hq
    rw [handed_append] at hq
    exact (List.mem_append.mp hq).elim (hv q) (hv' q)

/-- What was asked for in this way is in the queue, stamped. -/
theorem Asked.sends {α : Type} {r : Raft T} {o : Outcome Panic Event (Raft T) α}
    (h : Asked r o.trace o.state) : Sends r o := by
  obtain ⟨hmsgs, hv⟩ := h
  refine ⟨(handed o.trace).map fun q : Message => { q with from_ := r.id }, hmsgs, ?_⟩
  rw [List.forall₂_map_right_iff, List.forall₂_same]
  intro q hq
  refine ⟨rfl, rfl, rfl, fun hnot => ?_⟩
  rw [show isVoteMessage q.msgType = true from hv q hq] at hnot
  cases hnot

/-- A call that asks for votes at most. -/
def voting (T : Type) : Behaviour Event (Raft T) where
  runs r es r' := Asked r es r' ∧ r'.id = r.id
  stops r es r' := Asked r es r'
  refl _ := ⟨.silent rfl rfl, rfl⟩
  stops_refl _ := .silent rfl rfl
  trans h h' := ⟨h.1.trans h.2 h'.1, h'.2.trans h.2⟩
  stops_after h h' := h.1.trans h.2 h'

section Methods

variable [Storage T] {r : Raft T}

omit [Storage T] in
theorem ofCtl_voting : OfCtl (voting T) := by
  intro r r' h
  exact ⟨.silent rfl (congrArg Ctl.msgs h), congrArg Ctl.id h⟩

omit [Storage T] in
theorem voting_becomePreCandidate (r : Raft T) :
    Does (voting T) r becomePreCandidate (fun _ _ => True) := by
  unfold becomePreCandidate
  refine Does.read_bind (Does.ite (fun _ => Does.panic _) fun _ => ?_)
  exact Does.of_ok rfl ⟨.silent rfl rfl, rfl⟩ trivial

theorem voting_becomeCandidate (r : Raft T) :
    Does (voting T) r becomeCandidate (fun _ r' => r'.term ≠ 0) := by
  refine (does_becomeCandidate_of ?_ ?_).weaken ?_
  · exact fun _ _ hr' => .silent rfl hr'.msgs
  · exact fun _ _ hctl _ => ⟨.silent rfl (congrArg Ctl.msgs hctl), congrArg Ctl.id hctl⟩
  · rintro _ r' ⟨hctl, _⟩
    rw [show r'.term = r.term + 1 from congrArg Ctl.term hctl]
    exact Nat.succ_ne_zero _

theorem voting_becomeLeader (r : Raft T) :
    Does (voting T) r becomeLeader (fun _ _ => True) := by
  refine (does_becomeLeader_of ofCtl_voting ?_ ?_ ?_).weaken fun _ _ _ => trivial
  · exact fun _ => .silent rfl rfl
  · exact fun _ hr' => .silent rfl hr'.msgs
  · exact fun _ hctl => ⟨.silent rfl (congrArg Ctl.msgs hctl), congrArg Ctl.id hctl⟩

omit [Storage T] in
theorem voting_queue {q : Message} (hv : isVoteMessage q.msgType = true) (r : Raft T) :
    (voting T).runs r [.handed q] (r.push [q]) := by
  refine ⟨⟨rfl, ?_⟩, rfl⟩
  intro q' hq'
  obtain rfl : q' = q := by simpa [handed] using hq'
  exact hv

omit [Storage T] in
theorem voting_send {q : Message} (hv : isVoteMessage q.msgType = true) (hterm : q.term ≠ 0)
    (r : Raft T) : Does (voting T) r (send q) (fun _ _ => True) :=
  Does.of_ok (send_of_vote hv hterm r) (voting_queue hv r) trivial

theorem voting_campaign (ct : Bytes) (r : Raft T) :
    Does (voting T) r (campaign ct) (fun _ _ => True) := by
  apply does_campaign_of
  · intro r prs
    exact ⟨.silent rfl rfl, rfl⟩
  · exact voting_becomePreCandidate
  · exact voting_becomeCandidate
  · intro r votes
    exact ⟨.silent rfl rfl, rfl⟩
  · exact fun r q hv _ => voting_queue hv r
  · exact voting_becomeLeader

theorem voting_stepVoteRequest {m : Message} (hm : m.term ≠ 0) (hterm : 1 ≤ r.term) :
    Does (voting T) r (stepVoteRequest m) (fun _ _ => True) := by
  apply does_stepVoteRequest_of
  · rintro r' q hv (hq | hq)
    · exact voting_send hv (by rw [hq]; exact hm) r'
    · exact voting_send hv (by rw [hq]; exact Nat.ne_of_gt hterm) r'
  · exact fun r' => ⟨.silent rfl rfl, rfl⟩

end Methods

/-! ## §3  Which paths get through -/

theorem not_sends {α : Type} {r : Raft T} {o : Outcome Panic Event (Raft T) α}
    (hmsgs : o.state.msgs = r.msgs) (hreach : handed o.trace ≠ []) : ¬ Sends r o := by
  rintro ⟨ms, hms, hall⟩
  obtain rfl : ms = [] := by simpa [hmsgs] using hms
  exact hreach (List.forall₂_nil_right_iff.mp hall)

theorem mute_msgs {α : Type} {r : Raft T} {x : Call Panic Event (Raft T) α}
    {Q : α → Raft T → Prop} (h : Does (mute T) r x Q) : (x r).state.msgs = r.msgs :=
  h.elim (R := fun _ r' => r'.msgs = r.msgs) (fun _ _ h => h.2) fun _ _ h => h.1

section Paths

variable [Storage T] [ProtoMessage Entry]

/-- The other paths leave the queue as it was. -/
theorem SendPath.call_msgs (p : SendPath) (hp : ¬ p.OfVotes) (r : Raft T) :
    (p.call r).state.msgs = r.msgs := by
  cases p with
  | campaign ct => exact absurd trivial hp
  | voteReply msg h => exact absurd trivial hp
  | staleReply msg =>
      apply mute_msgs (Q := fun _ _ => True)
      show Does (mute T) r (stepLowerTerm msg) _
      unfold stepLowerTerm
      refine Does.read_bind (Does.ite (fun _ => lax_mute.send rfl r) fun _ => ?_)
      exact Does.ite (fun ht => absurd ht hp) fun _ => Does.pure trivial
  | sendAppend to_ pr =>
      apply mute_msgs (Q := fun _ _ => True)
      exact Does.bind (does_sendAppend lax_mute.refuses to_ pr r) fun _ _ _ => Does.pure trivial
  | sendHeartbeat to_ pr ctx =>
      apply mute_msgs (Q := fun _ _ => True)
      show Does (mute T) r (sendHeartbeat to_ pr ctx) _
      unfold sendHeartbeat
      exact Does.read_bind (lax_mute.send rfl r)
  | handlerAppendEntries msg => exact mute_msgs (does_handlerAppendEntries lax_mute msg r)
  | handlerHeartbeat msg => exact mute_msgs (does_handlerHeartbeat lax_mute msg r)
  | handlerSnapshot msg => exact mute_msgs (does_handlerSnapshot lax_mute msg r)

theorem SendPath.call_votes (p : SendPath) (hp : p.OfVotes) {r : Raft T}
    (hterm : 1 ≤ r.term) : Does (voting T) r p.call (fun _ _ => True) := by
  cases p with
  | campaign ct => exact voting_campaign ct r
  | voteReply msg h => exact voting_stepVoteRequest h hterm
  | staleReply msg =>
      have ht : msg.msgType = .MsgRequestPreVote := hp
      show Does (voting T) r (stepLowerTerm msg) _
      unfold stepLowerTerm
      apply Does.read_bind
      rw [if_neg (by simp [ht]), if_pos ht]
      apply voting_send
      · rfl
      · exact Nat.ne_of_gt hterm
  | _ => exact hp.elim

/-- On a node that has a term, a path that hands a message to `send` gets it into
the queue if and only if the path is one of the vote messages. -/
theorem sends_iff_ofVotes (p : SendPath) {r : Raft T} (hterm : 1 ≤ r.term)
    (hreach : handed (p.call r).trace ≠ []) : Sends r (p.call r) ↔ p.OfVotes := by
  constructor
  · intro hsends
    by_contra hp
    exact not_sends (SendPath.call_msgs p hp r) hreach hsends
  · intro hp
    apply Asked.sends
    exact (SendPath.call_votes p hp hterm).elim (fun _ _ h => h.1) fun _ _ h => h

end Paths

/-- A pre-candidate of term `1` asks the other voters for the term behind it. -/
theorem sends_iff_ofVotes_preCampaign :
    handed ((SendPath.campaign CAMPAIGN_PRE_ELECTION).call
      { memNode 1 [1, 2, 3] [] with term := 1 }).trace ≠ [] ∧
    (Sends { memNode 1 [1, 2, 3] [] with term := 1 }
      ((SendPath.campaign CAMPAIGN_PRE_ELECTION).call
        { memNode 1 [1, 2, 3] [] with term := 1 }) ↔
      (SendPath.campaign CAMPAIGN_PRE_ELECTION).OfVotes) :=
  ⟨by decide, sends_iff_ofVotes (.campaign CAMPAIGN_PRE_ELECTION)
    (r := { memNode 1 [1, 2, 3] [] with term := 1 }) (by decide) (by decide)⟩

/-- The leader of term `1` sends its first append. -/
theorem not_sends_firstAppend :
    handed ((SendPath.sendAppend 2 ((Progress.new 1 256).reset 1)).call
      { memNode 1 [1, 2, 3] [] with term := 1, state := .Leader }).trace ≠ [] ∧
    ¬ Sends { memNode 1 [1, 2, 3] [] with term := 1, state := .Leader }
      ((SendPath.sendAppend 2 ((Progress.new 1 256).reset 1)).call
        { memNode 1 [1, 2, 3] [] with term := 1, state := .Leader }) :=
  ⟨by decide, not_sends (by decide) (by decide)⟩

end Raft

end RsRaft
