import RsRaft.GroupMessages
import RsRaft.GroupRestart

/-!
# What is committed is final

A group of nodes over real stores, any of which may be called at any time, with
messages that come late, repeatedly, in any order, or never. A node may compact what it
has applied and stored for good, and one that has stored what it has may be stopped and
started again over its store. A call that panics is no step.

The calls are functions of the source, but the source alone does not get them to work
together, and this is what is done about it:

* `send` panics on every message of a leader and every reply of a follower, because they
  have no term; here it stamps the message with the term of the node and queues it.
* `step_follower` and `step_leader` are not implemented; what they would call (two
  handlers, `append_entry`, `maybe_commit`, the sending, the methods of `Progress`) is
  called on the node itself. A snapshot is handed to nobody: a restored log cannot be
  written.
* `step` passes over a vote request of a later term; a later term is entered by a call of
  `become_follower`.
* The handler of a part compares the previous entry with the term of the message, not
  with its `log_term`, and so takes hardly any; it may be given the message with its
  `log_term` put there.
* `MemStorageCore::append` loses entries; unstable entries are stored only where it
  does not.

§1 the calls · §2 the group behind the nodes · §3 the nodes refine a group · §4 what is
committed · §5 the logs of leaders · §6 handlers that come to their reply.
-/

namespace RsRaft

open PlainLog Call Raft

/-! ## §1  The calls -/

abbrev Nodes : Type := ℕ → Raft MemStorage

inductive NodeCall where
  | tick
  | follow (term leaderId : ℕ)
  | request (m : Message)
  | response (m : Message)
  | propose (ents : List Entry)
  | commit
  | sendAppend (to_ : ℕ)
  | bcastAppend
  | bcastHeartbeat
  | progress (peer : ℕ) (c : ProgressCall)
  | append (m : Message) (prevTerm : ℕ)
  | heartbeat (m : Message)
  | persist (c : Capture)
  | apply (idx : ℕ)
  | createSnapshot (idx : ℕ) (confState : Option ConfState) (data : Bytes)
  | compact (compactIdx : ℕ)
  | restart (cfg : Config) (minTimeout maxTimeout : ℕ) (rng : ℕ → ℕ)

namespace NodeCall

/-- `mut_store()`, with another core behind its lock. -/
def setCore (core : MemStorageCore) : Call Panic Event (Raft MemStorage) Unit :=
  Call.modify fun self => { self with raftLog := { self.raftLog with store := { core := core } } }

def run : NodeCall → Call Panic Event (Raft MemStorage) Unit
  | tick => do
      let _ ← Raft.tick
      pure ()
  | follow term leaderId => becomeFollower term leaderId
  | request m => do
      let _ ← step m
      pure ()
  | response m => stepVoteResponseVia (bcastAppendVia enqueue) m
  | propose ents => appendEntry ents
  | commit => do
      let _ ← maybeCommit
      pure ()
  | sendAppend to_ => withPeer to_ (sendAppendVia enqueue to_)
  | bcastAppend => bcastAppendVia enqueue
  | bcastHeartbeat => bcastHeartbeatVia enqueue
  | progress peer c => withPeer peer fun pr => Call.lift (c.run pr)
  | append m prevTerm => handlerAppendEntriesVia enqueue { m with term := prevTerm }
  | heartbeat m => handlerHeartbeatVia enqueue m
  | persist c => do
      let self ← Call.read
      let log ← Call.lift (self.raftLog.complete c)
      Call.modify fun self => { self with raftLog := log }
  | apply idx => do
      let self ← Call.read
      let log ← Call.lift (self.raftLog.appliedTo idx)
      Call.modify fun self => { self with raftLog := log }
  | createSnapshot idx confState data => do
      let self ← Call.read
      let r ← Call.lift (self.raftLog.store.core.createSnapshot idx confState data)
      setCore r.2
  | compact compactIdx => do
      let self ← Call.read
      let r ← Call.lift (self.raftLog.store.core.compact compactIdx)
      setCore r.2
  | restart cfg minTimeout maxTimeout rng => Raft.restart cfg minTimeout maxTimeout rng

end NodeCall

namespace Nodes

/-- The message is in some queue, for node `v`. -/
def Delivered (G : Nodes) (v : ℕ) (m : Message) : Prop := m.to_ = v ∧ ∃ k, m ∈ (G k).msgs

end Nodes

/-- When a call is made. A message is one that was sent to the node, of a type and a term that
`step` hands to this arm; a peer holds what it has answered. -/
def NodeCall.Allowed (G : Nodes) (v : ℕ) : NodeCall → Prop
  | tick => True
  | follow term _ => (G v).term < term ∨ (term = (G v).term ∧ (G v).state ≠ .Leader)
  | request m => G.Delivered v m ∧
      (m.msgType = .MsgRequestVote ∨ m.msgType = .MsgRequestPreVote)
  | response m => G.Delivered v m ∧
      ((G v).state = .PreCandidate ∨ (G v).state = .Candidate) ∧
      ((m.msgType = .MsgRequestVoteResponse ∧ m.term = (G v).term) ∨
        (m.msgType = .MsgRequestPreVoteResponse ∧
          (m.term = (G v).term ∨ ((G v).term < m.term ∧ m.reject = false))))
  | propose _ => (G v).state = .Leader
  | commit => (G v).state = .Leader
  | sendAppend _ => (G v).state = .Leader
  | bcastAppend => (G v).state = .Leader
  | bcastHeartbeat => (G v).state = .Leader
  | progress peer c => (G v).state = .Leader ∧ ∀ n, c = .maybeUpdate n →
      ∃ m, G.Delivered v m ∧ m.msgType = .MsgAppendResponse ∧ m.reject = false ∧
        m.from_ = peer ∧ m.term = (G v).term ∧ m.index = n
  | append m prevTerm => G.Delivered v m ∧ m.msgType = .MsgAppend ∧ m.term = (G v).term ∧
      (G v).state = .FOLLOWER ∧ (prevTerm = m.term ∨ prevTerm = m.logTerm)
  | heartbeat m => G.Delivered v m ∧ m.msgType = .MsgHeartbeat ∧ m.term = (G v).term ∧
      (G v).state = .FOLLOWER
  | persist c => (G v).raftLog.capture = some c ∧ (G v).raftLog.Persistable c
  | apply _ => True
  | createSnapshot _ _ _ => True
  | compact compactIdx => compactIdx ≤ (G v).raftLog.applied ∧
      compactIdx < (G v).raftLog.unstable.offset
  | restart cfg _ _ _ => cfg.id = v ∧ (G v).raftLog.store.core.plain = (G v).raftLog.logical

/-- A response that is allowed is what `step` hands to this arm. -/
theorem NodeCall.step_response {G : Nodes} {v : ℕ} {m : Message}
    (h : (NodeCall.response m).Allowed G v) :
    step m (G v) = (stepVoteResponse m >>= fun _ => pure (.ok ())) (G v) := by
  obtain ⟨_, hstand, hkind⟩ := h
  have hdispatch : dispatch m (G v) =
      (stepVoteResponse m >>= fun _ => pure (.ok ())) (G v) := by
    unfold dispatch stepByRole stepCandidate
    rcases hkind with ⟨ht, _⟩ | ⟨ht, _⟩ <;> rcases hstand with hs | hs <;>
      simp only [ht, read_bind_run, hs]
  unfold step
  rw [read_bind_run]
  by_cases hzero : m.term = 0
  · rw [if_pos hzero, hdispatch]
  rw [if_neg hzero]
  rcases hkind with ⟨_, hterm⟩ | ⟨ht, hterm | ⟨hlt, hrej⟩⟩
  · rw [hterm, if_neg (Nat.lt_irrefl _), if_neg (Nat.lt_irrefl _), hdispatch]
  · rw [hterm, if_neg (Nat.lt_irrefl _), if_neg (Nat.lt_irrefl _), hdispatch]
  · rw [if_pos hlt, if_neg (by rw [ht]; decide), if_pos (Or.inr ⟨ht, by simp [hrej]⟩),
      hdispatch]

namespace Nodes

/-- One call, on one node, that returns. -/
inductive Step (G : Nodes) : Nodes → Prop
  | call {v : ℕ} {c : NodeCall} {r : Raft MemStorage} {es : List Event}
      (h : c.Allowed G v) (hrun : c.run (G v) = ⟨.ok (), r, es⟩) :
      Step G (Function.update G v r)

inductive Reachable (G₀ : Nodes) : Nodes → Prop
  | refl : Reachable G₀ G₀
  | step {G G' : Nodes} (h : Reachable G₀ G) (h' : Step G G') : Reachable G₀ G'

/-- Followers with the voters `V`, nothing queued, and logs over stores that begin at the
index `b` of term `s` and hold nothing yet. -/
structure Initial (V : Finset ℕ) (b s : ℕ) (G : Nodes) : Prop where
  valid : INVALID_ID ∉ V
  id : ∀ v, (G v).id = v
  follower : ∀ v, (G v).state = .FOLLOWER
  term : ∀ v, s ≤ (G v).term
  quiet : ∀ v, (G v).msgs = []
  voters : ∀ v prs, (G v).prs = some prs →
    prs.WellFormed ∧ prs.voterIds.keys.toFinset = V
  log : ∀ v, ∃ store : MemStorage, store.core.WellFormed ∧
    store.core.plain = ⟨b, s, []⟩ ∧ RaftLog.new store = .ok (G v).raftLog

/-! ## §2  The group behind the nodes -/

/-- The nodes are the members of a group. -/
structure Mirrored (V : Finset ℕ) (b s : ℕ) (A : Consensus.Group ℕ Entry) (G : Nodes) :
    Prop where
  sound : Consensus.Sound (Quorum V) b s A
  mirrors : ∀ v, Mirrors V A v (G v)

variable {V : Finset ℕ} {b s v w i : ℕ} {G₀ G G' : Nodes} {A : Consensus.Group ℕ Entry}
  {c : NodeCall}

theorem Initial.mirrored (h : Initial V b s G) : ∃ A, Consensus.Initial b s A ∧
    Mirrored V b s A G := by
  have hinit : Consensus.Initial b s ({
      term := fun v => (G v).term
      log := fun _ => ⟨b, s, []⟩
      committed := fun _ => b
      voted := fun _ _ _ => False
      stood := fun _ _ => none
      reign := fun _ => none
      sent := fun _ => False
      acked := fun _ _ _ => False } : Consensus.Group ℕ Entry) :=
    ⟨fun _ => rfl, h.term, fun _ => rfl, fun _ _ _ hno => hno, fun _ _ => rfl, fun _ => rfl,
      fun _ hno => hno, fun _ _ _ hno => hno⟩
  refine ⟨_, hinit, hinit.sound, fun v => ?_⟩
  obtain ⟨store, hstore, hplain, hnew⟩ := h.log v
  obtain ⟨hsound, hsnap, hlogical, hcommitted, _⟩ := RaftLog.sound_new hstore hnew
  have hrole := h.follower v
  have hother : ∀ {role}, (G v).state = role → role ≠ .FOLLOWER → False :=
    fun heq hne => hne (heq.symm.trans hrole)
  exact
    { id := h.id v
      term := rfl
      sound := hsound
      snapshot := hsnap
      log := by
        rw [hlogical, hplain]
        exact .refl _
      committed := by
        rw [hcommitted, hlogical, hplain]
      members := fun prs hprs => (h.voters v prs hprs).1
      voters := Or.inr fun prs hprs => (h.voters v prs hprs).2
      vote := nofun
      standing := fun hc => by
        rcases hc with hc | hc
        · exact (hother hc (by decide)).elim
        · exact (hother hc (by decide)).elim
      candidate := fun hc => (hother hc (by decide)).elim
      leader := fun hl => (hother hl (by decide)).elim
      peers := fun hl => (hother hl (by decide)).elim
      led := nofun
      posted := fun m hm => by
        rw [h.quiet v] at hm
        cases hm }

end Nodes

namespace NodeCall

variable {V : Finset ℕ} {b s v : ℕ} {G : Nodes} {c : NodeCall}

/-- Every call that is allowed is accounted for, given what its message says. -/
theorem accounted (h0 : INVALID_ID ∉ V) (hc : c.Allowed G v) :
    ∃ (K : Consensus.Group ℕ Entry → Prop) (hK : ∀ A A', Consensus.Records A A' → K A → K A'),
      (∀ A, (∀ w, Mirrors V A w (G w)) → K A) ∧
      Does (accounted V b s v K hK) (G v) c.run (fun _ _ => True) := by
  have hposted : ∀ {m k}, m ∈ (G k).msgs →
      ∀ A, (∀ w, Mirrors V A w (G w)) → Posted V A k m :=
    fun hm A hA => (hA _).posted _ hm
  have hnone : ∀ {x : Call Panic Event (Raft MemStorage) Unit},
      Does (RsRaft.accounted V b s v (fun _ => True) fun _ _ _ _ => trivial) (G v) x
        (fun _ _ => True) →
      ∃ (K : Consensus.Group ℕ Entry → Prop) (hK : ∀ A A', Consensus.Records A A' → K A → K A'),
        (∀ A, (∀ w, Mirrors V A w (G w)) → K A) ∧
        Does (RsRaft.accounted V b s v K hK) (G v) x (fun _ _ => True) :=
    fun hx => ⟨_, _, fun _ _ => trivial, hx⟩
  cases c with
  | tick => exact hnone (Does.bind (accounted_tick h0) fun _ _ _ => Does.pure trivial)
  | follow term leaderId => exact hnone (accounted_becomeFollower hc)
  | request m =>
      obtain ⟨⟨hto, k, hm⟩, ht⟩ := hc
      exact ⟨_, _, hposted hm, Does.bind (accounted_step_request h0 ht hto)
        fun _ _ _ => Does.pure trivial⟩
  | response m =>
      obtain ⟨⟨hto, k, hm⟩, hstand, hkind⟩ := hc
      refine ⟨_, _, hposted hm, accounted_stepVoteResponse h0 hstand hto (fun ht => ?_)
        fun _ hl => accounted_bcastAppend hl⟩
      rcases hkind with ⟨_, hterm⟩ | hpre
      · exact hterm
      · cases ht.symm.trans hpre.1
  | propose ents => exact hnone ((accounted_appendEntry hc ents).weaken fun _ _ _ => trivial)
  | commit => exact hnone (Does.bind (accounted_maybeCommit hc) fun _ _ _ => Does.pure trivial)
  | sendAppend to_ =>
      exact hnone (accounted_withPeer hc fun _ _ A₀ pr _ h₀ hk₀ hk =>
        accounted_sendAppend hc h₀.sound (hk A₀ hk₀).2 fun A hA => (hk A hA).2)
  | bcastAppend => exact hnone (accounted_bcastAppend hc)
  | bcastHeartbeat => exact hnone (accounted_bcastHeartbeat hc)
  | progress peer c =>
      obtain ⟨hl, hanswer⟩ := hc
      refine ⟨fun A => ∀ n, c = .maybeUpdate n → A.acked peer (G v).term n,
        fun _ _ hrec hk n hn => hrec.acked _ _ _ (hk n hn), fun A hA n hn => ?_,
        accounted_progress hl fun n hn A hk => hk n hn⟩
      obtain ⟨m, ⟨_, k, hm⟩, ht, hrej, rfl, hterm, rfl⟩ := hanswer n hn
      have hm := hposted hm A hA
      have hacked := hm.answer ht hrej
      rwa [hterm, ← hm.from_] at hacked
  | append m prevTerm =>
      obtain ⟨⟨_, k, hm⟩, ht, hterm, hrole, hu⟩ := hc
      exact ⟨_, _, hposted hm, accounted_handlerAppendEntries ht hterm hrole hu⟩
  | heartbeat m =>
      obtain ⟨⟨hto, k, hm⟩, ht, hterm, hrole⟩ := hc
      exact ⟨_, _, hposted hm, accounted_handlerHeartbeat ht hto hterm hrole⟩
  | persist c =>
      obtain ⟨hcap, hp⟩ := hc
      refine hnone (Does.read_bind (Does.lift_bind fun log hlog => ?_))
      refine Does.of_ok (a := ()) rfl (accounted_still fun A _ h => ?_) trivial
      obtain ⟨hsound, hsnap, hlogical, hcommitted⟩ := h.sound.persist h.snapshot hcap hp hlog
      exact h.keep hsound hsnap (hlogical ▸ .refl _) hcommitted
  | apply idx =>
      refine hnone (Does.read_bind (Does.lift_bind fun log hlog => ?_))
      refine Does.of_ok (a := ()) rfl (accounted_still fun A _ h => ?_) trivial
      obtain ⟨hsound, hsnap, hlogical, hcommitted⟩ := h.sound.apply hlog
      exact h.keep hsound (hsnap.trans h.snapshot) (hlogical ▸ .refl _) hcommitted
  | createSnapshot idx confState data =>
      refine hnone (Does.read_bind (Does.lift_bind fun a ha => ?_))
      refine Does.of_ok (a := ()) rfl (accounted_still fun A _ h => ?_) trivial
      obtain ⟨hsound, hlogical⟩ := h.sound.of_entries (RaftLog.createSnapshot_ok ha)
      exact h.keep hsound h.snapshot (hlogical ▸ .refl _) rfl
  | compact compactIdx =>
      refine hnone (Does.read_bind (Does.lift_bind fun a ha => ?_))
      refine Does.of_ok (a := ()) rfl (accounted_still fun A _ h => ?_) trivial
      obtain ⟨hsound, hremains⟩ := h.sound.compact h.snapshot hc.1 hc.2 ha
      exact h.keep hsound h.snapshot hremains rfl
  | restart cfg minTimeout maxTimeout rng => exact hnone (accounted_restart hc.1 hc.2)

end NodeCall

namespace Nodes

variable {V : Finset ℕ} {b s v w i : ℕ} {G₀ G G' G'' : Nodes} {A : Consensus.Group ℕ Entry}

theorem Reachable.trans (h : Reachable G G') (h' : Reachable G' G'') : Reachable G G'' := by
  induction h' with
  | refl => exact h
  | step _ hstep ih => exact ih.step hstep

/-- One call is a few steps of the group. -/
theorem Mirrored.step (h : Mirrored V b s A G) (h0 : INVALID_ID ∉ V) (hstep : Step G G') :
    ∃ A', Consensus.Reachable (Quorum V) A A' ∧ Mirrored V b s A' G' := by
  obtain @⟨v, c, r, es, hc, hrun⟩ := hstep
  obtain ⟨K, hK, hknown, hdoes⟩ := NodeCall.accounted (b := b) (s := s) h0 hc
  obtain ⟨hruns, _⟩ := hdoes.ok hrun
  obtain ⟨A', hmoves, hr⟩ := hruns A h.sound (hknown A h.mirrors) (h.mirrors v)
  obtain ⟨hsound, hrec, hapart⟩ := h.sound.moves (fun _ _ => Quorum.meet) hmoves
  refine ⟨A', hmoves.reachable, hsound, fun w => ?_⟩
  by_cases hw : w = v
  · subst hw
    rw [Function.update_self]
    exact hr
  · rw [Function.update_of_ne hw]
    exact (h.mirrors w).others hw hrec hapart

/-- A run of the nodes is a run of the group. -/
theorem Mirrored.run (h : Mirrored V b s A G) (h0 : INVALID_ID ∉ V) (hrun : Reachable G G') :
    ∃ A', Consensus.Reachable (Quorum V) A A' ∧ Mirrored V b s A' G' := by
  induction hrun with
  | refl => exact ⟨A, .refl, h⟩
  | step _ hstep ih =>
      obtain ⟨A₁, hreach, h₁⟩ := ih
      obtain ⟨A₂, hreach', h₂⟩ := h₁.step h0 hstep
      exact ⟨A₂, hreach.trans hreach', h₂⟩

/-! Three nodes: the first is elected, and commits its first entry with the second. It
stores what it has, compacts it and starts over, and the second is elected after it with the
third. -/

/-- The nodes after a call. -/
def after (G : Nodes) (v : ℕ) (c : NodeCall) : Nodes :=
  Function.update G v (c.run (G v)).state

theorem Step.after {c : NodeCall} (h : c.Allowed G v) (hok : (c.run (G v)).value.isOk = true) :
    Step G (G.after v c) := by
  unfold Nodes.after
  cases hrun : c.run (G v) with
  | mk x r es =>
      rw [hrun] at hok
      cases x with
      | error p => cases hok
      | ok _ => exact .call h hrun

def threeNodes : Nodes := fun v =>
  { memNode v [1, 2, 3] [] with
    minElectionTimeout := 1
    maxElectionTimeout := 2 }

def elected : Nodes :=
  (((threeNodes.after 1 .tick).after 2 (.follow 1 INVALID_ID)).after 2
    (.request { msgType := .MsgRequestVote, to_ := 2, from_ := 1, term := 1 })).after 1
    (.response { msgType := .MsgRequestVoteResponse, to_ := 1, from_ := 2, term := 1 })

def firstAppend : Message :=
  { msgType := .MsgAppend
    to_ := 2
    from_ := 1
    term := 1
    entries := [{ term := 1, index := 1 }] }

def sent : Nodes := elected.after 1 (.propose [{ data := [7] }])

def committing : Nodes :=
  ((sent.after 2 (.append firstAppend 0)).after 1 (.progress 2 (.maybeUpdate 1))).after 1 .commit

def answer : Message :=
  { msgType := .MsgAppendResponse
    to_ := 1
    from_ := 2
    term := 1
    index := 1 }

def captured : Capture :=
  { entries := [{ term := 1, index := 1 }, { term := 1, index := 2, data := [7] }]
    idx := 2
    term := 1 }

def firstConfig : Config :=
  { id := 1, electionTick := 10, heartbeatTick := 1, minElectionTick := 10, peers := [1, 2, 3] }

/-- The first leader sends a heartbeat, stores its log, compacts it, stops and comes back. -/
def startedOver : Nodes :=
  ((((committing.after 1 .bcastHeartbeat).after 1 (.persist captured)).after 1
    (.apply 1)).after 1 (.compact 1)).after 1 (.restart firstConfig 1 2 fun _ => 0)

def firstHeartbeat : Message :=
  { msgType := .MsgHeartbeat
    to_ := 2
    from_ := 1
    term := 1
    commit := 1 }

def secondRequest : Message :=
  { msgType := .MsgRequestVote
    to_ := 3
    from_ := 2
    term := 2
    index := 1
    logTerm := 1 }

def succeeded : Nodes :=
  (((((startedOver.after 2 (.heartbeat firstHeartbeat)).after 2 .tick).after 3
    (.follow 2 INVALID_ID)).after 3 (.request secondRequest)).after 2
    (.response { msgType := .MsgRequestVoteResponse, to_ := 2, from_ := 3, term := 2 }))

theorem initial_threeNodes : Initial {1, 2, 3} 0 0 threeNodes where
  valid := by decide
  id _ := rfl
  follower _ := rfl
  term _ := Nat.zero_le _
  quiet _ := rfl
  voters := by
    rintro v _ ⟨⟩
    exact ⟨ProgressSet.wellFormed_ofIds (by decide), by decide⟩
  log _ := ⟨{}, MemStorageCore.wellFormed_default, rfl, rfl⟩

theorem elected_reachable : Reachable threeNodes elected := by
  refine .step (.step (.step (.step .refl (.after ?_ ?_)) (.after ?_ ?_)) (.after ?_ ?_))
    (.after ?_ ?_)
  · trivial
  · decide +kernel
  · exact Or.inl (by decide +kernel)
  · decide +kernel
  · exact ⟨⟨rfl, 1, by decide +kernel⟩, Or.inl rfl⟩
  · decide +kernel
  · exact ⟨⟨rfl, 2, by decide +kernel⟩, Or.inr (by decide +kernel),
      Or.inl ⟨rfl, by decide +kernel⟩⟩
  · decide +kernel

theorem sent_reachable : Reachable elected sent := by
  refine .step .refl (.after ?_ ?_)
  · show _ = StateRole.Leader
    decide +kernel
  · decide +kernel

theorem committing_reachable : Reachable sent committing := by
  refine .step (.step (.step .refl (.after ?_ ?_)) (.after ?_ ?_)) (.after ?_ ?_)
  · exact ⟨⟨rfl, 1, by decide +kernel⟩, rfl, by decide +kernel, by decide +kernel, Or.inr rfl⟩
  · decide +kernel
  · refine ⟨by decide +kernel, ?_⟩
    rintro _ ⟨⟩
    exact ⟨answer, ⟨rfl, 2, by decide +kernel⟩, rfl, rfl, rfl, by decide +kernel, rfl⟩
  · decide +kernel
  · show _ = StateRole.Leader
    decide +kernel
  · decide +kernel

theorem startedOver_reachable : Reachable committing startedOver := by
  refine .step (.step (.step (.step (.step .refl (.after ?_ ?_)) (.after ?_ ?_))
    (.after ?_ ?_)) (.after ?_ ?_)) (.after ?_ ?_)
  · show _ = StateRole.Leader
    decide +kernel
  · decide +kernel
  · exact ⟨by decide +kernel, .behind (by decide +kernel)⟩
  · decide +kernel
  · trivial
  · decide +kernel
  · exact ⟨by decide +kernel, by decide +kernel⟩
  · decide +kernel
  · exact ⟨rfl, by decide +kernel⟩
  · decide +kernel

theorem succeeded_reachable : Reachable committing succeeded := by
  refine startedOver_reachable.trans ?_
  refine .step (.step (.step (.step (.step .refl (.after ?_ ?_)) (.after ?_ ?_))
    (.after ?_ ?_)) (.after ?_ ?_)) (.after ?_ ?_)
  · exact ⟨⟨rfl, 1, by decide +kernel⟩, rfl, by decide +kernel, by decide +kernel⟩
  · decide +kernel
  · trivial
  · decide +kernel
  · exact Or.inl (by decide +kernel)
  · decide +kernel
  · exact ⟨⟨rfl, 2, by decide +kernel⟩, Or.inl rfl⟩
  · decide +kernel
  · exact ⟨⟨rfl, 3, by decide +kernel⟩, Or.inr (by decide +kernel),
      Or.inl ⟨rfl, by decide +kernel⟩⟩
  · decide +kernel

/-- Who leads along the run, what the second node is sent, and where the first entry is. -/
structure Succession : Prop where
  elected : (elected 1).state = .Leader ∧ (elected 1).term = 1
  sent : firstAppend ∈ (sent 1).msgs ∧ (sent 2).term = 1 ∧ (sent 2).state = .FOLLOWER
  told : firstHeartbeat ∈ (startedOver 1).msgs ∧ (startedOver 2).term = 1 ∧
    (startedOver 2).state = .FOLLOWER
  committing : (committing 1).state = .Leader ∧ (committing 1).term = 1
  committed : (Nodes.committing 1).raftLog.committed = 1
  appended : (Nodes.committing 1).raftLog.logical.stampAt 1 = some 1
  succeeded : (succeeded 2).state = .Leader ∧ (succeeded 2).term = 2
  held : (Nodes.committing 1).raftLog.logical.base < 1 ∧
    (Nodes.succeeded 2).raftLog.logical.base < 1
  recommitted : (Nodes.succeeded 2).raftLog.committed = 1
  kept : (Nodes.succeeded 2).raftLog.logical.stampAt 1 = some 1

theorem succession : Succession := by
  constructor
  all_goals decide +kernel

/-! ## §3  The nodes refine a group -/

/-- Behind any run of the nodes is a run of a group that shows the same terms, commit indexes
and leaders, but for a leader that has started over, and of whose logs the nodes have left
what they have not compacted. -/
theorem group_refines (hinit : Initial V b s G₀) (hrun : Reachable G₀ G) :
    ∃ A₀ A, Consensus.Initial b s A₀ ∧ Consensus.Reachable (Quorum V) A₀ A ∧
      ∀ v, A.term v = (G v).term ∧ Remains (G v).raftLog.logical (A.log v) ∧
        A.committed v = (G v).raftLog.committed ∧
        ((G v).state = .Leader ↔ ∃ R, A.reign (G v).term = some R ∧ R.leader = v ∧
          ¬ StartedOver (G v).state (G v).prs) := by
  obtain ⟨A₀, h₀, hm₀⟩ := hinit.mirrored
  obtain ⟨A, hreach, hA⟩ := hm₀.run hinit.valid hrun
  refine ⟨A₀, A, h₀, hreach, fun v => ?_⟩
  have h := hA.mirrors v
  refine ⟨h.term, h.log, h.committed, fun hl => ?_, ?_⟩
  · obtain ⟨R, hR, hv⟩ := h.leader hl
    refine ⟨R, hR, hv, fun hover => ?_⟩
    cases hl.symm.trans hover.follower
  · rintro ⟨R, hR, hv, hkept⟩
    exact (h.led R hR hv).resolve_right hkept

theorem group_refines_elected :
    (elected 1).state = .Leader ∧
    ∃ A₀ A, Consensus.Initial 0 0 A₀ ∧ Consensus.Reachable (Quorum {1, 2, 3}) A₀ A ∧
      ∀ v, A.term v = (elected v).term ∧ Remains (elected v).raftLog.logical (A.log v) ∧
        A.committed v = (elected v).raftLog.committed ∧
        ((elected v).state = .Leader ↔ ∃ R, A.reign (elected v).term = some R ∧ R.leader = v ∧
          ¬ StartedOver (elected v).state (elected v).prs) :=
  ⟨succession.elected.1, group_refines initial_threeNodes elected_reachable⟩

/-! ## §4  What is committed -/

/-- The nodes at two times of a run. -/
theorem Initial.mirrored_run (h : Initial V b s G₀) (hrun : Reachable G₀ G)
    (hrun' : Reachable G G') : ∃ A A', Consensus.Reachable (Quorum V) A A' ∧
      Mirrored V b s A G ∧ Mirrored V b s A' G' := by
  obtain ⟨A₀, _, h₀⟩ := h.mirrored
  obtain ⟨A, _, hA⟩ := h₀.run h.valid hrun
  obtain ⟨A', hreach, hA'⟩ := hA.run h.valid hrun'
  exact ⟨A, A', hreach, hA, hA'⟩

/-- Reads up to where two logs are the same come to the same, if both still hold it. -/
theorem slice_of_same {log log' : RaftLog MemStorage} {L L' : PlainLog Entry ℕ} {n low high : ℕ}
    (hwf : log.WellFormed) (hwf' : log'.WellFormed) (hL : Remains log.logical L)
    (hL' : Remains log'.logical L') (hsame : SameUpTo L L' n)
    (hb : log.logical.base < low) (hb' : log'.logical.base < low) (hlh : low ≤ high)
    (hn : high ≤ n + 1) (hlast : n ≤ log.logical.lastIndex) (max : ℕ) :
    ∃ es, log.slice low high max = .ok (.ok es) ∧ log'.slice low high max = .ok (.ok es) := by
  have hbase := hL.base_le
  have hbase' := hL'.base_le
  have hend := hL.lastIndex_eq
  have hend' := hL'.lastIndex_eq
  have hlast' : n ≤ L'.lastIndex := by
    obtain ⟨t, ht⟩ := exists_stampAt (L := L) (i := n) (by omega) (by omega)
    exact (bounds_of_stampAt (hsame.stampAt_eq (Nat.le_refl n) ht)).2
  refine ⟨_, hwf.slice_eq hb hlh (by omega) max, ?_⟩
  rw [hwf'.slice_eq hb' hlh (by omega) max]
  congr 3
  rw [hL.segment_eq (by omega), hL'.segment_eq (by omega)]
  refine (segment_congr (by omega) (by omega) (by omega) (by omega) fun j hj => ?_).symm
  by_cases hjb : L.base < j
  · exact hsame.entry j hjb (by omega)
  · -- at or below the base there are no entries
    rw [entryAt, entryAt, hsame.base, if_neg hjb, if_neg hjb]

/-- Whenever two nodes read entries that they have committed and not compacted, they read
the same. -/
theorem state_machine_safety (hinit : Initial V b s G₀) (hrun : Reachable G₀ G)
    (hrun' : Reachable G G') {low high : ℕ} (hb : (G v).raftLog.logical.base < low)
    (hb' : (G' w).raftLog.logical.base < low) (hlh : low ≤ high)
    (hv : high ≤ (G v).raftLog.committed + 1) (hw : high ≤ (G' w).raftLog.committed + 1)
    (max : ℕ) : ∃ es, (G v).raftLog.slice low high max = .ok (.ok es) ∧
      (G' w).raftLog.slice low high max = .ok (.ok es) := by
  obtain ⟨A, A', hreach, hA, hA'⟩ := hinit.mirrored_run hrun hrun'
  have hmv := hA.mirrors v
  have hmw := hA'.mirrors w
  have hsame := hA.sound.same_of_committed (k := high - 1) (v := v) (w := w)
    (fun _ _ => Quorum.meet) hreach
    (by rw [hmv.committed]; omega) (by rw [hmw.committed]; omega)
  have hlast := hmv.sound.committed_le
  exact slice_of_same hmv.sound.wellFormed hmw.sound.wellFormed hmv.log hmw.log hsame hb hb' hlh
    (by omega) (by omega) max

/-- The first entry, read when the first node has committed it, and later by the second. -/
theorem state_machine_safety_first :
    1 ≤ (committing 1).raftLog.committed ∧ 1 ≤ (succeeded 2).raftLog.committed ∧
    ∃ es, (committing 1).raftLog.slice 1 2 NO_LIMIT = .ok (.ok es) ∧
      (succeeded 2).raftLog.slice 1 2 NO_LIMIT = .ok (.ok es) :=
  ⟨succession.committed.ge, succession.recommitted.ge,
    state_machine_safety initial_threeNodes
      ((elected_reachable.trans sent_reachable).trans committing_reachable) succeeded_reachable
      succession.held.1 succession.held.2 (by decide) (by rw [succession.committed])
      (by rw [succession.recommitted]) NO_LIMIT⟩

/-! ## §5  The logs of leaders -/

/-- A leader holds what any node had committed before in a term not behind its own, or has
compacted it. -/
theorem leader_completeness (hinit : Initial V b s G₀) (hrun : Reachable G₀ G)
    (hrun' : Reachable G G') (hl : (G' w).state = .Leader) (ht : (G v).term ≤ (G' w).term)
    {low high : ℕ} (hb : (G v).raftLog.logical.base < low)
    (hb' : (G' w).raftLog.logical.base < low) (hlh : low ≤ high)
    (hv : high ≤ (G v).raftLog.committed + 1) (max : ℕ) :
    ∃ es, (G v).raftLog.slice low high max = .ok (.ok es) ∧
      (G' w).raftLog.slice low high max = .ok (.ok es) := by
  obtain ⟨A, A', hreach, hA, hA'⟩ := hinit.mirrored_run hrun hrun'
  have hmv := hA.mirrors v
  have hmw := hA'.mirrors w
  obtain ⟨R, hR, _, _, hRlog, _⟩ := hmw.reigning hA'.sound hl
  have hsame := hA.sound.same_of_reign (k := high - 1) (v := v) (fun _ _ => Quorum.meet) hreach
    (by rw [hmv.committed]; omega) hR (by rw [hmv.term]; exact ht)
  have hlast := hmv.sound.committed_le
  exact slice_of_same hmv.sound.wellFormed hmw.sound.wellFormed hmv.log hRlog hsame.symm hb hb'
    hlh (by omega) (by omega) max

theorem leader_completeness_second :
    (succeeded 2).state = .Leader ∧ (succeeded 2).term = 2 ∧
    ∃ es, (committing 1).raftLog.slice 1 2 NO_LIMIT = .ok (.ok es) ∧
      (succeeded 2).raftLog.slice 1 2 NO_LIMIT = .ok (.ok es) :=
  ⟨succession.succeeded.1, succession.succeeded.2,
    leader_completeness initial_threeNodes
      ((elected_reachable.trans sent_reachable).trans committing_reachable) succeeded_reachable
      succession.succeeded.1
      (by rw [succession.committing.2, succession.succeeded.2]; decide) succession.held.1
      succession.held.2 (by decide) (by rw [succession.committed]) NO_LIMIT⟩

/-- A term has one leader, which only ever adds to its log, but for what it compacts. -/
theorem leader_append_only (hinit : Initial V b s G₀) (hrun : Reachable G₀ G)
    (hrun' : Reachable G G') (hl : (G v).state = .Leader) (hl' : (G' w).state = .Leader)
    (ht : (G v).term = (G' w).term) :
    v = w ∧ (G v).raftLog.logical.lastIndex ≤ (G' w).raftLog.logical.lastIndex ∧
      HeldAlike (G v).raftLog.logical (G' w).raftLog.logical
        (G v).raftLog.logical.lastIndex := by
  obtain ⟨A, A', hreach, hA, hA'⟩ := hinit.mirrored_run hrun hrun'
  obtain ⟨R, hR, hlead, _, hRlog, _⟩ := (hA.mirrors v).reigning hA.sound hl
  obtain ⟨R', hR', hlead', _, hRlog', _⟩ := (hA'.mirrors w).reigning hA'.sound hl'
  obtain ⟨_, hrec⟩ := hA.sound.run (fun _ _ => Quorum.meet) hreach
  obtain ⟨R'', hR'', hsame, _, _, hcont⟩ := hrec.reign _ R hR
  rw [ht, hR'] at hR''
  cases hR''
  refine ⟨hlead.symm.trans (hsame.symm.trans hlead'), ?_, ?_⟩
  · rw [hRlog.lastIndex_eq, hRlog'.lastIndex_eq]
    exact hcont.lastIndex_le
  · refine (hcont.sameUpTo ?_).heldAlike hRlog hRlog'
    exact Nat.le_of_eq hRlog.lastIndex_eq

theorem leader_append_only_first :
    (elected 1).raftLog.logical.lastIndex ≤ (committing 1).raftLog.logical.lastIndex ∧
      HeldAlike (elected 1).raftLog.logical (committing 1).raftLog.logical
        (elected 1).raftLog.logical.lastIndex :=
  (leader_append_only initial_threeNodes elected_reachable
    (sent_reachable.trans committing_reachable) succession.elected.1
    succession.committing.1
    (succession.elected.2.trans succession.committing.2.symm)).2

/-- Logs that have an entry of the same term at the same index hold the same up to it. -/
theorem logs_match (hinit : Initial V b s G₀) (hrun : Reachable G₀ G)
    (hrun' : Reachable G G') {t : ℕ} (hv : (G v).raftLog.logical.stampAt i = some t)
    (hw : (G' w).raftLog.logical.stampAt i = some t) :
    HeldAlike (G v).raftLog.logical (G' w).raftLog.logical i := by
  obtain ⟨A, A', hreach, hA, hA'⟩ := hinit.mirrored_run hrun hrun'
  obtain ⟨_, hrec⟩ := hA.sound.run (fun _ _ => Quorum.meet) hreach
  have hmade := (hA.sound.made v).grows hrec.reign
  have hmade' := hA'.sound.made w
  have hlog := (hA.mirrors v).log
  have hlog' := (hA'.mirrors w).log
  exact (hmade.same_of_stampAt hmade' (hlog.stampAt_of hv) (hlog'.stampAt_of hw)).heldAlike
    hlog hlog'

theorem logs_match_first :
    HeldAlike (committing 1).raftLog.logical (succeeded 2).raftLog.logical 1 :=
  logs_match initial_threeNodes
    ((elected_reachable.trans sent_reachable).trans committing_reachable) succeeded_reachable
    succession.appended succession.kept

/-! ## §6  Handlers that come to their reply -/

/-- The handler comes to a reply, without a term, and hands it to `send`. -/
def Replies (handler : (Message → Call Panic Event (Raft MemStorage) Unit) →
    Call Panic Event (Raft MemStorage) Unit) (r : Raft MemStorage) : Prop :=
  ∃ reply r', reply.term = 0 ∧ ∀ send, handler send r = send reply r'

theorem append_replies (hinit : Initial V b s G₀) (hrun : Reachable G₀ G) {m : Message} {u : ℕ}
    (hc : (NodeCall.append m u).Allowed G v) :
    Replies (handlerAppendEntriesVia · { m with term := u }) (G v) := by
  obtain ⟨A, _, _, hA, _⟩ := hinit.mirrored_run hrun .refl
  obtain ⟨⟨_, k, hm⟩, ht, hterm, _, hu⟩ := hc
  have h := hA.mirrors v
  have hm := (hA.mirrors k).posted m hm
  obtain ⟨_, hes⟩ := hm.append ht
  obtain ⟨R, hR⟩ := Mirrors.offered hA.sound hm ht
  rw [hterm] at hR hu
  have hpres := h.sound.wellFormed.presents
  have happend : ¬ m.index < (G v).raftLog.committed →
      ∃ a, (G v).raftLog.maybeAppend m.index u m.commit m.entries = .ok a := by
    intro hnew
    have hb := h.sound.base_le_of_new hnew
    by_cases hread : ((G v).raftLog.logical.stampAt m.index).getD 0 = u
    · have hmatch := h.match_offered hA.sound hR hb hu hread
      rw [hmatch, Option.getD_some] at hread
      obtain ⟨_, hrun, _⟩ := hpres.maybeAppend_accept (hread ▸ hmatch) m.commit hes hR.real
        fun j hj => h.no_conflict hA.sound hR hb hj
      exact ⟨_, hrun⟩
    · exact ⟨_, hpres.maybeAppend_refuse hread m.commit m.entries⟩
  unfold Replies handlerAppendEntriesVia
  simp only [read_bind_run, ite_run]
  split
  · exact ⟨_, _, rfl, fun _ => rfl⟩
  · rename_i hnew
    obtain ⟨⟨a, log'⟩, happend⟩ := happend hnew
    simp only [happend, lift_ok_bind_run, modify_bind_run]
    cases a with
    | some n => exact ⟨_, _, rfl, fun _ => rfl⟩
    | none =>
        obtain rfl := RaftLog.maybeAppend_none happend
        simp only [hpres.lastIndex, lift_ok_bind_run]
        exact ⟨_, _, rfl, fun _ => rfl⟩

theorem heartbeat_replies (hinit : Initial V b s G₀) (hrun : Reachable G₀ G) {m : Message}
    (hc : (NodeCall.heartbeat m).Allowed G v) :
    Replies (handlerHeartbeatVia · m) (G v) := by
  obtain ⟨A, _, _, hA, _⟩ := hinit.mirrored_run hrun .refl
  obtain ⟨⟨hto, k, hm⟩, ht, hterm, _⟩ := hc
  have h := hA.mirrors v
  have hin : m.commit ≤ (G v).raftLog.logical.lastIndex := by
    rcases h.heartbeat hA.sound ((hA.mirrors k).posted m hm) ht hto hterm with hle | ⟨p, _, hp⟩
    · exact Nat.le_trans hle h.sound.committed_le
    · exact (bounds_of_stampAt hp).2
  unfold Replies handlerHeartbeatVia
  simp only [read_bind_run, h.sound.wellFormed.presents.commitTo hin, lift_ok_bind_run]
  exact ⟨_, _, rfl, fun _ => rfl⟩

/-- What a follower is sent by its leader never makes it panic before it replies. -/
theorem follower_returns (hinit : Initial V b s G₀) (hrun : Reachable G₀ G) {m : Message} :
    (∀ u, (NodeCall.append m u).Allowed G v →
      Replies (handlerAppendEntriesVia · { m with term := u }) (G v)) ∧
    ((NodeCall.heartbeat m).Allowed G v → Replies (handlerHeartbeatVia · m) (G v)) :=
  ⟨fun _ hc => append_replies hinit hrun hc, fun hc => heartbeat_replies hinit hrun hc⟩

theorem follower_returns_second :
    Replies (handlerAppendEntriesVia · firstAppend) (sent 2) ∧
      Replies (handlerHeartbeatVia · firstHeartbeat) (startedOver 2) := by
  have hreach := elected_reachable.trans sent_reachable
  constructor
  · refine (follower_returns initial_threeNodes hreach (m := firstAppend)).1 1 ?_
    exact ⟨⟨rfl, 1, succession.sent.1⟩, rfl, succession.sent.2.1.symm, succession.sent.2.2,
      Or.inl rfl⟩
  · refine (follower_returns initial_threeNodes
      ((hreach.trans committing_reachable).trans startedOver_reachable)).2 ?_
    exact ⟨⟨rfl, 1, succession.told.1⟩, rfl, succession.told.2.1.symm, succession.told.2.2⟩

end Nodes

end RsRaft
