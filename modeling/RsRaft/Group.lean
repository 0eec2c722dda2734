import RsRaft.Lib.Consensus
import RsRaft.LogMatching
import RsRaft.LogRun

/-!
# A node as a member of a group

What the state and the queue of a node say about a group that reaches consensus:
`Mirrors V A v r` reads the node `r` as member `v` of the abstract group `A`, with
the voters `V`. A call is accounted for by abstract steps on the part of its node,
and what the other nodes mirror is not touched by them. The logs of the abstract group are
never compacted; that of a node is what it has left of its own.

§1 majorities · §2 what a queued message says · §3 what a node shows · §4 the other
nodes · §5 calls that are accounted for.
-/

namespace RsRaft

open PlainLog Call Raft

/-! ## §1  Majorities -/

/-- The sets of nodes that hold a majority of the voters. -/
def Quorum (V : Finset ℕ) (S : Set ℕ) : Prop :=
  ∃ F ⊆ V, majority V.card ≤ F.card ∧ ∀ v ∈ F, v ∈ S

theorem Quorum.meet {V : Finset ℕ} {S S' : Set ℕ} (h : Quorum V S) (h' : Quorum V S') :
    ∃ v, v ∈ S ∧ v ∈ S' := by
  obtain ⟨F, hF, hcard, hall⟩ := h
  obtain ⟨F', hF', hcard', hall'⟩ := h'
  obtain ⟨v, hv⟩ := majority_inter_nonempty hF hF' hcard hcard'
  rw [Finset.mem_inter] at hv
  exact ⟨v, hall v hv.1, hall' v hv.2⟩

section

variable {V : Finset ℕ} {A A' : Consensus.Group ℕ Entry} {b s v w : ℕ} {m q : Message}

/-! ## §2  What a queued message says -/

/-- What a message in the queue of `v` says about the group. -/
structure Posted (V : Finset ℕ) (A : Consensus.Group ℕ Entry) (v : ℕ) (m : Message) :
    Prop where
  from_ : m.from_ = v
  request : m.msgType = .MsgRequestVote → v ∈ V ∧ m.to_ ∈ V ∧
    ∃ S, A.stood v m.term = some S ∧ S.lastIndex = m.index ∧ S.lastStamp = m.logTerm
  grant : m.msgType = .MsgRequestVoteResponse → m.reject = false →
    v ∈ V ∧ A.voted v m.term m.to_
  append : m.msgType = .MsgAppend →
    A.sent ⟨m.term, m.index, m.logTerm, m.entries, m.commit⟩ ∧
      RaftLog.Consecutive m.index m.entries
  answer : m.msgType = .MsgAppendResponse → m.reject = false → A.acked v m.term m.index
  heartbeat : m.msgType = .MsgHeartbeat → ∃ R, A.reign m.term = some R ∧
    (m.commit ≤ R.log.base ∨ (∃ p, A.sent ⟨m.term, m.commit, p, [], m.commit⟩) ∧
      ∃ j, m.commit ≤ j ∧ A.acked m.to_ m.term j)

theorem Posted.mono (h : Posted V A v m) (hrec : Consensus.Records A A') :
    Posted V A' v m where
  from_ := h.from_
  request ht := by
    obtain ⟨hv, hto, S, hS, hlast⟩ := h.request ht
    exact ⟨hv, hto, S, hrec.stood v _ S hS, hlast⟩
  grant ht hrej := by
    obtain ⟨hv, hvoted⟩ := h.grant ht hrej
    exact ⟨hv, hrec.voted v _ _ hvoted⟩
  append ht := (h.append ht).imp_left (hrec.sent _)
  answer ht hrej := hrec.acked v _ _ (h.answer ht hrej)
  heartbeat ht := by
    obtain ⟨R, hR, hcommit⟩ := h.heartbeat ht
    obtain ⟨R', hR', _, _, _, hc⟩ := hrec.reign _ R hR
    refine ⟨R', hR', hcommit.imp (by rw [hc.base]; exact id) ?_⟩
    rintro ⟨⟨p, hp⟩, j, hj, hacked⟩
    exact ⟨⟨p, hrec.sent _ hp⟩, j, hj, hrec.acked _ _ _ hacked⟩

/-- A message of a kind that says nothing. -/
theorem Posted.of_silent (hfrom : q.from_ = v)
    (ht : q.msgType = .MsgRequestPreVote ∨ q.msgType = .MsgRequestPreVoteResponse ∨
      q.msgType = .MsgHeartbeatResponse ∨ q.msgType = .MsgSnapshot ∨
      (q.reject = true ∧
        (q.msgType = .MsgRequestVoteResponse ∨ q.msgType = .MsgAppendResponse))) :
    Posted V A v q := by
  refine ⟨hfrom, ?_, ?_, ?_, ?_, ?_⟩ <;> intro h <;>
    rcases ht with ht | ht | ht | ht | ⟨hrej, ht | ht⟩ <;> simp_all

/-! ## §3  What a node shows -/

/-- What a leader of term `t`, whose log ends at `last`, records of the peer `id`. -/
structure Known (A : Consensus.Group ℕ Entry) (t last id : ℕ) (pr : Progress) : Prop where
  inside : pr.matched ≤ last
  matched : pr.matched = 0 ∨ ∃ j, pr.matched ≤ j ∧ A.acked id t j
  low : 1 ≤ pr.nextIdx
  high : pr.nextIdx ≤ last + 1
  entries : pr.state ≠ .Snapshot
  inactive : pr.recentActive = false

/-- The role and the members of a node that has started over its store: all the voters have
become learners, and it follows for good. -/
structure StartedOver (role : StateRole) (members : Option ProgressSet) : Prop where
  follower : role = .FOLLOWER
  voters : ∀ prs, members = some prs → prs.voterIds.keys = []

/-- The node `r` as member `v` of the group. -/
structure Mirrors (V : Finset ℕ) (A : Consensus.Group ℕ Entry) (v : ℕ)
    (r : Raft MemStorage) : Prop where
  id : r.id = v
  term : A.term v = r.term
  sound : r.raftLog.Sound
  snapshot : r.raftLog.unstable.snapshot = none
  log : Remains r.raftLog.logical (A.log v)
  committed : A.committed v = r.raftLog.committed
  members : ∀ prs, r.prs = some prs → prs.WellFormed
  voters : StartedOver r.state r.prs ∨
    ∀ prs, r.prs = some prs → prs.voterIds.keys.toFinset = V
  vote : ∀ d, A.voted v r.term d → d = r.vote ∧ d ≠ INVALID_ID
  standing : r.state = .PreCandidate ∨ r.state = .Candidate → v ∈ V
  candidate : r.state = .Candidate →
    A.stood v r.term = some (A.log v) ∧ r.vote = v ∧ A.voted v r.term v ∧
      ∀ k ∈ granters r.votes, k ∈ V ∧ A.voted k r.term v
  leader : r.state = .Leader → ∃ R, A.reign r.term = some R ∧ R.leader = v
  peers : r.state = .Leader → ∀ prs id pr, r.prs = some prs → prs.get id = some pr →
    Known A r.term r.raftLog.logical.lastIndex id pr
  led : ∀ R, A.reign r.term = some R → R.leader = v →
    r.state = .Leader ∨ StartedOver r.state r.prs
  posted : ∀ m ∈ r.msgs, Posted V A v m

theorem Known.mono {t last last' id : ℕ} {pr : Progress} (h : Known A t last id pr)
    (hacked : ∀ v t j, A.acked v t j → A'.acked v t j) (hlast : last ≤ last') :
    Known A' t last' id pr where
  inside := Nat.le_trans h.inside hlast
  matched := by
    refine h.matched.imp_right ?_
    rintro ⟨j, hj, hack⟩
    exact ⟨j, hj, hacked _ _ _ hack⟩
  low := h.low
  high := Nat.le_trans h.high (Nat.succ_le_succ hlast)
  entries := h.entries
  inactive := h.inactive

/-- What it records of all the peers. -/
def KnownAll (A : Consensus.Group ℕ Entry) (t last : ℕ) (prs : ProgressSet) : Prop :=
  ∀ id pr, prs.get id = some pr → Known A t last id pr

theorem KnownAll.mono {t last : ℕ} {prs : ProgressSet} (h : KnownAll A t last prs)
    (hrec : Consensus.Records A A') : KnownAll A' t last prs :=
  fun id pr hpr => (h id pr hpr).mono hrec.acked (Nat.le_refl _)

/-- Replacing the progress of one peer. -/
theorem ProgressSet.get_put {prs : ProgressSet} {id k : ℕ} {pr pr' p : Progress}
    (hpr : prs.get id = some pr) (hp : (prs.put id pr').get k = some p) :
    (k = id ∧ p = pr') ∨ prs.get k = some p := by
  by_cases hk : k = id
  · subst hk
    have hmem : k ∈ prs.progress := AList.mem_iff_exists_lookup.mpr ⟨pr, hpr⟩
    rw [ProgressSet.get, ProgressSet.put, AList.lookup_replace_self pr' hmem] at hp
    exact Or.inl ⟨rfl, (Option.some.inj hp).symm⟩
  · rw [ProgressSet.get, ProgressSet.put, AList.lookup_replace_ne pr' hk] at hp
    exact Or.inr hp

theorem ProgressSet.wellFormed_put {prs : ProgressSet} (h : prs.WellFormed) (id : ℕ)
    (pr : Progress) : (prs.put id pr).WellFormed where
  members k := AList.mem_replace.trans (h.members k)
  disjoint := h.disjoint

/-- The progress of the members does not matter. -/
theorem StartedOver.of_voters {role : StateRole} {members : Option ProgressSet}
    {prs prs' : ProgressSet} (h : StartedOver role members) (hprs : members = some prs)
    (hids : prs'.voterIds = prs.voterIds) : StartedOver role (some prs') where
  follower := h.follower
  voters := by
    rintro _ ⟨⟩
    rw [hids]
    exact h.voters prs hprs

variable {r : Raft MemStorage}

/-- A node that does not follow knows the voters. -/
theorem Mirrors.seated (h : Mirrors V A v r) (hrole : r.state ≠ .FOLLOWER) {prs : ProgressSet}
    (hprs : r.prs = some prs) : prs.voterIds.keys.toFinset = V := by
  rcases h.voters with hover | hall
  · exact absurd hover.follower hrole
  · exact hall prs hprs

theorem Mirrors.size (h : Mirrors V A v r) (hrole : r.state ≠ .FOLLOWER) {prs : ProgressSet}
    (hprs : r.prs = some prs) : prs.voterIds.size = V.card := by
  rw [← AList.card_keys, h.seated hrole hprs]

/-- A node that does not lead its term never did, unless it has started over. -/
theorem Mirrors.not_leader (h : Mirrors V A v r) (hrole : r.state ≠ .Leader)
    (hkept : ¬ StartedOver r.state r.prs) {R : Consensus.Reign ℕ Entry}
    (hR : A.reign r.term = some R) : R.leader ≠ v :=
  fun hlead => (h.led R hR hlead).elim hrole hkept

/-- A leader replaces what it records of one peer. -/
theorem Mirrors.put (h : Mirrors V A v r) {prs : ProgressSet} (hprs : r.prs = some prs)
    {id : ℕ} {pr pr' : Progress} (hpr : prs.get id = some pr)
    (hknown : r.state = .Leader → Known A r.term r.raftLog.logical.lastIndex id pr') :
    Mirrors V A v { r with prs := some (prs.put id pr') } :=
  { h with
    members := by
      rintro _ ⟨⟩
      exact ProgressSet.wellFormed_put (h.members prs hprs) id pr'
    voters := by
      refine h.voters.imp (fun hover => hover.of_voters hprs rfl) fun hall => ?_
      rintro _ ⟨⟩
      exact hall prs hprs
    led := fun R hR hlead =>
      (h.led R hR hlead).imp_right fun hover => hover.of_voters hprs rfl
    peers := by
      rintro hl _ k p ⟨⟩ hp
      rcases ProgressSet.get_put hpr hp with ⟨rfl, rfl⟩ | hold
      · exact hknown hl
      · exact h.peers hl prs k p hprs hold }

/-! ## §4  The other nodes -/

/-- What one node does to the group leaves what another mirrors. -/
theorem Mirrors.others (h : Mirrors V A w r) (hw : w ≠ v) (hrec : Consensus.Records A A')
    (hapart : Consensus.Apart v A A') : Mirrors V A' w r where
  id := h.id
  term := (hapart.term w hw).trans h.term
  sound := h.sound
  snapshot := h.snapshot
  log := (hapart.log w hw).symm ▸ h.log
  committed := (hapart.committed w hw).trans h.committed
  members := h.members
  voters := h.voters
  vote d hd := h.vote d (hapart.voted w hw _ d hd)
  standing := h.standing
  candidate hc := by
    obtain ⟨hstood, hvote, hself, hgrants⟩ := h.candidate hc
    exact ⟨(hapart.log w hw).symm ▸ hrec.stood w _ _ hstood, hvote, hrec.voted w _ _ hself,
      fun k hk => ⟨(hgrants k hk).1, hrec.voted k _ _ (hgrants k hk).2⟩⟩
  leader hl := by
    obtain ⟨R, hR, hlead⟩ := h.leader hl
    obtain ⟨R', hR', hlead', _⟩ := hrec.reign _ R hR
    exact ⟨R', hR', hlead'.trans hlead⟩
  peers hl prs id pr hprs hpr := (h.peers hl prs id pr hprs hpr).mono hrec.acked (Nat.le_refl _)
  led R hR hlead := by
    obtain ⟨R₀, hR₀, hlead₀⟩ := hapart.leader w hw _ R hR hlead
    exact h.led R₀ hR₀ hlead₀
  posted m hm := (h.posted m hm).mono hrec

/-! ## §5  Calls that are accounted for -/

/-- Calls on node `v` that abstract steps of `v` account for, as long as `K` is known of
the group. A call that panics is no step. -/
def accounted (V : Finset ℕ) (b s v : ℕ) (K : Consensus.Group ℕ Entry → Prop)
    (hK : ∀ A A', Consensus.Records A A' → K A → K A') :
    Behaviour Event (Raft MemStorage) where
  runs r _ r' := ∀ A, Consensus.Sound (Quorum V) b s A → K A → Mirrors V A v r →
    ∃ A', Consensus.Moves (Quorum V) v A A' ∧ Mirrors V A' v r'
  stops _ _ _ := True
  refl _ A _ _ h := ⟨A, .refl, h⟩
  stops_refl _ := trivial
  trans := by
    intro r r' r'' es es' h h' A hA hk hr
    obtain ⟨A₁, hmoves, hr₁⟩ := h A hA hk hr
    obtain ⟨hA₁, hrec, _⟩ := hA.moves (fun _ _ => Quorum.meet) hmoves
    obtain ⟨A₂, hmoves', hr₂⟩ := h' A₁ hA₁ (hK A A₁ hrec hk) hr₁
    exact ⟨A₂, hmoves.trans hmoves', hr₂⟩
  stops_after _ _ := trivial

variable {K : Consensus.Group ℕ Entry → Prop}
  {hK : ∀ A A', Consensus.Records A A' → K A → K A'} {r' : Raft MemStorage} {es : List Event}

/-- A call the group takes no notice of. -/
theorem accounted_unnoticed (h : ∀ A, Consensus.Sound (Quorum V) b s A → K A →
    Mirrors V A v r → Mirrors V A v r') : (accounted V b s v K hK).runs r es r' :=
  fun A hA hk hr => ⟨A, .refl, h A hA hk hr⟩

theorem accounted_still (h : ∀ A, Consensus.Sound (Quorum V) b s A → Mirrors V A v r →
    Mirrors V A v r') : (accounted V b s v K hK).runs r es r' :=
  accounted_unnoticed fun A hA _ => h A hA

/-- A call that is one step of the group. -/
theorem accounted_step (h : ∀ A, Consensus.Sound (Quorum V) b s A → K A → Mirrors V A v r →
    ∃ A', Consensus.Step (Quorum V) v A A' ∧ Mirrors V A' v r') :
    (accounted V b s v K hK).runs r es r' := by
  intro A hA hk hr
  obtain ⟨A', hstep, hr'⟩ := h A hA hk hr
  exact ⟨A', .step .refl hstep, hr'⟩

/-- A call need only be looked at on a node that mirrors one of the group, and with what is
known of that group. -/
theorem accounted_within {α : Type} {x : Call Panic Event (Raft MemStorage) α}
    {K' : Consensus.Group ℕ Entry → Prop} (hK' : ∀ A A', Consensus.Records A A' → K' A → K' A')
    (hknown : ∀ A, Consensus.Sound (Quorum V) b s A → K A → Mirrors V A v r → K' A)
    (h : ∀ A, Consensus.Sound (Quorum V) b s A → K' A → Mirrors V A v r →
      Does (accounted V b s v K' hK') r x (fun _ _ => True)) :
    Does (accounted V b s v K hK) r x (fun _ _ => True) := by
  by_cases hr : ∃ A, Consensus.Sound (Quorum V) b s A ∧ K A ∧ Mirrors V A v r
  · obtain ⟨A, hA, hk, hm⟩ := hr
    refine (h A hA (hknown A hA hk hm) hm).mono (fun es r' hruns A' hA' hk' hm' => ?_)
      fun _ _ hstops => hstops
    exact hruns A' hA' (hknown A' hA' hk' hm') hm'
  · unfold Does
    cases x r with
    | mk y r' es =>
        cases y with
        | ok a => exact ⟨fun A hA hk hm => absurd ⟨A, hA, hk, hm⟩ hr, trivial⟩
        | error p => trivial

theorem accounted_of_mirrors {α : Type} {x : Call Panic Event (Raft MemStorage) α}
    (h : (∃ A, Mirrors V A v r) → Does (accounted V b s v K hK) r x (fun _ _ => True)) :
    Does (accounted V b s v K hK) r x (fun _ _ => True) :=
  accounted_within hK (fun _ _ hk _ => hk) fun A _ _ hm => h ⟨A, hm⟩

end

end RsRaft
