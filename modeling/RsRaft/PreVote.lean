import RsRaft.ElectionSafety

/-!
# Pre-vote in front of an election

A node with `pre_vote` asks the voters whether they would elect it before it
enters a new term. The answers carry the term that was asked for, and `step`
lets them through if that term is later than the node's or equal to it. Later
is right: it is the term the node is asking for. Equal lets in the answers to
the previous pre-campaign of the node, which ended in the term it has now.

§1 requests and grants in flight · §2 what a node keeps · §3 moves keep it ·
§4 the cluster · §5 a stale grant counts.
-/

namespace RsRaft

open Ctl Call Raft

/-! ## §1  Requests and grants in flight -/

/-- A pre-vote request of `n` to `k`, for term `u`. -/
structure IsPreRequest (n k u : ℕ) (q : Message) : Prop where
  msgType : q.msgType = .MsgRequestPreVote
  sender : q.from_ = n
  receiver : q.to_ = k
  term : q.term = u

/-- The grant of `k` to `n`, for term `u`. -/
structure IsPreGrant (k n u : ℕ) (q : Message) : Prop where
  msgType : q.msgType = .MsgRequestPreVoteResponse
  reject : q.reject = false
  sender : q.from_ = k
  receiver : q.to_ = n
  term : q.term = u

/-- Node `n` voted for itself in term `t + 1` and became a candidate there. -/
def Campaigned (n t : ℕ) (tr : List Event) : Prop :=
  [.hardState (t + 1) n, .role .Candidate] <:+: tr

namespace Cluster

variable {T : Type}

/-- Member `n` sent member `k` a pre-vote request for term `u`. -/
def PreAsked (C : Cluster T) (n k u : ℕ) : Prop :=
  ∃ N, C n = some N ∧ ∃ q ∈ N.raft.msgs, IsPreRequest n k u q

/-- Member `k` granted a pre-vote request for term `u` that member `n` sent it. -/
def PreVoted (C : Cluster T) (k n u : ℕ) : Prop :=
  PreAsked C n k u ∧ ∃ K, C k = some K ∧ ∃ q ∈ K.raft.msgs, IsPreGrant k n u q

end Cluster

/-- A majority of the voters, `n` among them, is for `n`: they are `n` itself or
granted it a pre-vote for one of the terms `us`. -/
def Gated (V : Finset ℕ) (Voted : ℕ → ℕ → ℕ → Prop) (n : ℕ) (us : List ℕ) : Prop :=
  ∃ S ⊆ V, majority V.card ≤ S.card ∧ n ∈ S ∧ ∀ k ∈ S, k = n ∨ ∃ u ∈ us, Voted k n u

/-! ## §2  What a node keeps -/

section Node

variable (V : Finset ℕ) (Asked Voted : ℕ → ℕ → ℕ → Prop) (n : ℕ) (pv : Bool)

/-- What holds of a node for good: it asks voters, only a voter that was asked
grants, and it campaigns behind a pre-vote. -/
structure PrePast (tr : List Event) (msgs : List Message) : Prop where
  request : ∀ q ∈ msgs, q.msgType = .MsgRequestPreVote → q.to_ ∈ V
  grant : ∀ q ∈ msgs, q.msgType = .MsgRequestPreVoteResponse → q.reject = false →
    n ∈ V ∧ Asked q.to_ n q.term
  gated : pv = true → ∀ t, Campaigned n t tr → Gated V Voted n [t, t + 1]

/-- What holds of a running node between two moves. -/
structure PreLive (tr : List Event) (c : Ctl) : Prop where
  past : PrePast V Asked Voted n pv tr c.msgs
  preVote : c.preVote = pv
  asked : ∀ q ∈ c.msgs, q.msgType = .MsgRequestPreVote → q.term ≤ c.term + 1
  counted : c.role = .PreCandidate → ∀ k ∈ granters c.votes,
    k ∈ V ∧ (k = n ∨ ∃ u ∈ [c.term, c.term + 1], Voted k n u)

/-- What is known of a message that reaches node `n`, besides what elections need. -/
structure PreArrives (m : Message) : Prop where
  request : m.msgType = .MsgRequestPreVote → n ∈ V ∧ Asked m.from_ n m.term
  grant : m.msgType = .MsgRequestPreVoteResponse → m.reject = false →
    m.from_ ∈ V ∧ Voted m.from_ n m.term

/-- A grant is never further ahead than the node could have asked. -/
def Timely (m : Message) (c : Ctl) : Prop :=
  m.msgType = .MsgRequestPreVoteResponse → m.reject = false → m.term ≤ c.term + 1

/-! ## §3  Moves keep it -/

variable {V Asked Voted n pv} {Cast : ℕ → ℕ → ℕ → Prop} {hs : ℕ × ℕ} {tr es : List Event}
  {c c' : Ctl} {m : Message}

/-- A campaign is seen as a whole: no move begins in the middle of one. -/
theorem Campaigned.append {t : ℕ} (h : Campaigned n t (tr ++ es))
    (hes : es.head? ≠ some (.role .Candidate)) : Campaigned n t tr ∨ Campaigned n t es := by
  rcases List.infix_append_iff_ne_nil.mp h with h | h | ⟨l₁, l₂, hne₁, hne₂, hl, _, hpre⟩
  · exact Or.inl h
  · exact Or.inr h
  · -- the cut would lie between the two events
    exfalso
    have hl₂ : l₂ = [.role .Candidate] := by
      rcases l₁ with _ | ⟨e, _ | ⟨e', l₁⟩⟩
      · exact absurd rfl hne₁
      · exact (List.cons.inj hl).2.symm
      · have hlen := congrArg List.length hl
        have hpos := List.length_pos_iff.mpr hne₂
        simp only [List.length_append, List.length_cons, List.length_nil] at hlen
        omega
    rw [hl₂] at hpre
    obtain ⟨l, rfl⟩ := hpre
    exact hes rfl

namespace Ctl

theorem Move.head_ne_candidate (h : Move m c es c') : es.head? ≠ some (.role .Candidate) := by
  cases h with
  | follow _ =>
      unfold resetEvents
      split <;> simp
  | preCampaign _ _ _ _ => simp
  | campaign _ _ => simp
  | ownVote _ _ => simp
  | count _ _ => simp
  | lead _ _ _ => simp
  | queue _ _ => simp
  | grant _ _ _ _ _ _ _ _ => simp
  | refused _ => simp

/-- Only a campaign is a campaign, and a node with pre-vote has won the pre-campaign. -/
theorem Move.campaigned (h : Move m c es c') (hpv : c.preVote = true) {t : ℕ}
    (hc : Campaigned n t es) : t = c.term ∧ c.role = .PreCandidate ∧ c.Elected := by
  have hmem := hc.subset (List.mem_cons_of_mem _ List.mem_cons_self)
  cases h with
  | campaign hrole h =>
      refine ⟨?_, ?_⟩
      · have hterm := hc.subset List.mem_cons_self
        simp at hterm
        omega
      · rcases h with ⟨_, _, hnot⟩ | ⟨_, hpre, hel⟩
        · rw [hpv] at hnot
          cases hnot
        · exact ⟨hpre, hel⟩
  | follow _ =>
      unfold resetEvents at hmem
      split at hmem <;> simp at hmem
  | preCampaign _ _ _ _ => simp at hmem
  | ownVote _ _ => simp at hmem
  | count _ _ => simp at hmem
  | lead _ _ _ => simp at hmem
  | queue _ _ => simp at hmem
  | grant _ _ _ _ _ _ _ _ => simp at hmem
  | refused _ => simp at hmem

/-- The queue grows by what `Queues` says, or by a granted vote. -/
theorem Move.mem_msgs (h : Move m c es c') {q' : Message} (hq' : q' ∈ c'.msgs) :
    q' ∈ c.msgs ∨ ∃ q, q' = { q with from_ := c.id } ∧
      (Queues m c q ∨ q.msgType = .MsgRequestVoteResponse) := by
  cases h with
  | queue hq _ =>
      refine (List.mem_append.mp hq').imp_right fun hnew => ⟨_, ?_, Or.inl hq⟩
      simpa using hnew
  | grant _ _ _ ht _ _ _ _ =>
      refine (List.mem_append.mp hq').imp_right fun hnew => ⟨_, ?_, Or.inr ht⟩
      simpa using hnew
  | follow _ => exact Or.inl hq'
  | preCampaign _ _ _ _ => exact Or.inl hq'
  | campaign _ _ => exact Or.inl hq'
  | ownVote _ _ => exact Or.inl hq'
  | count _ _ => exact Or.inl hq'
  | lead _ _ _ => exact Or.inl hq'
  | refused _ => exact Or.inl hq'

theorem Move.preVote (h : Move m c es c') : c'.preVote = c.preVote := by
  cases h <;> rfl

end Ctl

/-- The campaigns seen so far, and in the beginning of one more move, are behind a
pre-vote. -/
theorem PreLive.gated (hlive : Live V Cast n hs tr c) (h : PreLive V Asked Voted n pv tr c)
    (hmove : Move m c es c') {es₁ : List Event} (hes : es₁ <+: es) (hpv : pv = true) {t : ℕ}
    (hc : Campaigned n t (tr ++ es₁)) : Gated V Voted n [t, t + 1] := by
  have hhead : es₁.head? ≠ some (.role .Candidate) := by
    intro hhead
    obtain ⟨es₂, rfl⟩ := hes
    apply hmove.head_ne_candidate
    rw [List.head?_append, hhead]
    rfl
  rcases hc.append hhead with hold | hnew
  · exact h.past.gated hpv t hold
  · -- the grants counted make the majority, with the node's own vote added to them
    obtain ⟨rfl, hrole, hel⟩ := hmove.campaigned (h.preVote.trans hpv) (hnew.trans hes.isInfix)
    refine ⟨insert n (granters c.votes), ?_, ?_, Finset.mem_insert_self _ _, ?_⟩
    · intro k hk
      rcases Finset.mem_insert.mp hk with rfl | hk
      · exact hlive.standing (Or.inl hrole)
      · exact (h.counted hrole k hk).1
    · rw [← hlive.size]
      exact hel.trans (Finset.card_le_card (Finset.subset_insert _ _))
    · intro k hk
      rcases Finset.mem_insert.mp hk with rfl | hk
      · exact Or.inl rfl
      · exact (h.counted hrole k hk).2

/-- What a move queues asks a voter for the next term, or answers one who asked. -/
theorem PreLive.queued (hlive : Live V Cast n hs tr c) (ha : PreArrives V Asked Voted n m)
    {q : Message} (hq : Queues m c q) :
    (q.msgType = .MsgRequestPreVote → q.to_ ∈ V ∧ q.term = c.term + 1) ∧
    (q.msgType = .MsgRequestPreVoteResponse → q.reject = false →
      n ∈ V ∧ Asked q.to_ n q.term) := by
  constructor
  · intro ht'
    cases hq with
    | preRequest hrole ht hto hself hterm => exact ⟨hlive.mem_voters hto, hterm⟩
    | request hrole ht hto hself hterm => exact absurd (ht.symm.trans ht') (by decide)
    | preGrant hm ht hto hrej hterm => exact absurd (ht.symm.trans ht') (by decide)
    | preReject hm ht hto hrej hterm => exact absurd (ht.symm.trans ht') (by decide)
    | reject hm ht hto hrej hterm => exact absurd (ht.symm.trans ht') (by decide)
  · intro ht' hrej'
    cases hq with
    | preGrant hm ht hto hrej hterm =>
        rw [hto, hterm]
        exact ha.request hm
    | preReject hm ht hto hrej hterm => exact absurd (hrej.symm.trans hrej') (by decide)
    | request hrole ht hto hself hterm => exact absurd (ht.symm.trans ht') (by decide)
    | preRequest hrole ht hto hself hterm => exact absurd (ht.symm.trans ht') (by decide)
    | reject hm ht hto hrej hterm => exact absurd (ht.symm.trans ht') (by decide)

/-- The grants counted so far are for the present term or the next. -/
theorem PreLive.counted_move (hlive : Live V Cast n hs tr c)
    (h : PreLive V Asked Voted n pv tr c) (hkind : Arrives V Cast n m)
    (ha : PreArrives V Asked Voted n m) (htimely : Timely m c) (hmove : Move m c es c')
    (hrole : c'.role = .PreCandidate) : ∀ k ∈ granters c'.votes,
      k ∈ V ∧ (k = n ∨ ∃ u ∈ [c'.term, c'.term + 1], Voted k n u) := by
  cases hmove with
  | follow _ => cases hrole
  | campaign _ _ => cases hrole
  | lead _ _ _ => cases hrole
  | preCampaign _ _ _ _ =>
      intro k hk
      rw [mem_granters] at hk
      cases hk
  | ownVote _ hstand =>
      intro k hk
      rcases mem_granters_orInsert hk with hk | ⟨rfl, _⟩
      · exact h.counted hrole k hk
      · exact ⟨by rw [hlive.id]; exact hlive.standing hstand, Or.inl hlive.id⟩
  | count hresp hadm =>
      intro k hk
      rcases mem_granters_orInsert hk with hk | ⟨rfl, hgranted⟩
      · exact h.counted hrole k hk
      · have hrej' : m.reject = false := by simpa using hgranted
        have ht : m.msgType = .MsgRequestPreVoteResponse := by
          rcases hresp with ⟨_, ht⟩ | ⟨hcand, _⟩
          · exact ht
          · exact absurd (hcand.symm.trans hrole) (by decide)
        obtain ⟨hV, hvoted⟩ := ha.grant ht hrej'
        refine ⟨hV, Or.inr ⟨m.term, ?_, hvoted⟩⟩
        have hle := htimely ht hrej'
        show m.term ∈ [c.term, c.term + 1]
        rcases hadm with hzero | heq | ⟨_, _, hlt⟩
        · rcases hkind.kind with hhup | ⟨_, hne⟩
          · rw [ht] at hhup
            cases hhup
          · exact absurd hzero hne
        · simp [heq]
        · simp only [List.mem_cons, List.not_mem_nil, or_false]
          omega
  | queue _ _ => exact h.counted hrole
  | grant _ _ _ _ _ _ _ _ => exact h.counted hrole
  | refused _ => exact h.counted hrole

theorem PreLive.move (hlive : Live V Cast n hs tr c) (h : PreLive V Asked Voted n pv tr c)
    (hkind : Arrives V Cast n m) (ha : PreArrives V Asked Voted n m) (htimely : Timely m c)
    (hmove : Move m c es c') : PreLive V Asked Voted n pv (tr ++ es) c' := by
  have hterm := hmove.term_le (hkind.not_lowersTerm c)
  refine ⟨⟨?_, ?_, ?_⟩, hmove.preVote.trans h.preVote, ?_,
    h.counted_move hlive hkind ha htimely hmove⟩
  · intro q' hq' ht
    rcases hmove.mem_msgs hq' with hold | ⟨q, rfl, hq | hgrant⟩
    · exact h.past.request q' hold ht
    · exact ((PreLive.queued hlive ha hq).1 ht).1
    · exact absurd (hgrant.symm.trans ht) (by decide)
  · intro q' hq' ht hrej
    rcases hmove.mem_msgs hq' with hold | ⟨q, rfl, hq | hgrant⟩
    · exact h.past.grant q' hold ht hrej
    · exact (PreLive.queued hlive ha hq).2 ht hrej
    · exact absurd (hgrant.symm.trans ht) (by decide)
  · intro hpv t hc
    exact h.gated hlive hmove (List.prefix_refl es) hpv hc
  · intro q' hq' ht
    rcases hmove.mem_msgs hq' with hold | ⟨q, rfl, hq | hgrant⟩
    · have hle := h.asked q' hold ht
      omega
    · have heq : q.term = c.term + 1 := ((PreLive.queued hlive ha hq).1 ht).2
      show q.term ≤ _
      omega
    · exact absurd (hgrant.symm.trans ht) (by decide)

theorem Timely.move (h : Timely m c) (hterm : c.term ≤ c'.term) : Timely m c' :=
  fun ht hrej => (h ht hrej).trans (Nat.succ_le_succ hterm)

theorem PreLive.moves (hn : n ≠ INVALID_ID) (hlive : Live V Cast n hs tr c)
    (h : PreLive V Asked Voted n pv tr c) (hkind : Arrives V Cast n m)
    (ha : PreArrives V Asked Voted n m) (htimely : Timely m c) (hmoves : Moves m c es c') :
    PreLive V Asked Voted n pv (tr ++ es) c' ∧ Timely m c' := by
  induction hmoves with
  | refl =>
      rw [List.append_nil]
      exact ⟨h, htimely⟩
  | step hmoves hmove ih =>
      obtain ⟨ih, htimely'⟩ := ih
      rw [← List.append_assoc]
      constructor
      · exact ih.move (hlive.moves hn hkind hmoves) hkind ha htimely' hmove
      · exact htimely'.move (hmove.term_le (hkind.not_lowersTerm _))

/-- What a broken-off call leaves behind. -/
theorem PreLive.breaks (hn : n ≠ INVALID_ID) (hlive : Live V Cast n hs tr c)
    (h : PreLive V Asked Voted n pv tr c) (hkind : Arrives V Cast n m)
    (ha : PreArrives V Asked Voted n m) (htimely : Timely m c) {msgs : List Message}
    (hbreak : Breaks m c es msgs) : PrePast V Asked Voted n pv (tr ++ es) msgs := by
  obtain ⟨es₀, es₁, c', hmoves, rfl, rfl, hlast⟩ := hbreak
  obtain ⟨h', _⟩ := h.moves hn hlive hkind ha htimely hmoves
  rw [← List.append_assoc]
  refine ⟨h'.past.request, h'.past.grant, ?_⟩
  intro hpv t hc
  rcases hlast with rfl | ⟨es₂, c'', hmove⟩
  · rw [List.append_nil] at hc
    exact h'.past.gated hpv t hc
  · exact h'.gated (hlive.moves hn hkind hmoves) hmove (List.prefix_append es₁ es₂) hpv hc

/-! More votes on record change nothing. -/

variable {Asked' Voted' : ℕ → ℕ → ℕ → Prop}

theorem Gated.mono (hV : ∀ k n u, Voted k n u → Voted' k n u) {us : List ℕ}
    (h : Gated V Voted n us) : Gated V Voted' n us := by
  obtain ⟨S, hS, hcard, hmem, hvoted⟩ := h
  refine ⟨S, hS, hcard, hmem, fun k hk => (hvoted k hk).imp_right ?_⟩
  rintro ⟨u, hu, hvote⟩
  exact ⟨u, hu, hV k n u hvote⟩

theorem PrePast.mono (hA : ∀ k n u, Asked k n u → Asked' k n u)
    (hV : ∀ k n u, Voted k n u → Voted' k n u) {msgs : List Message}
    (h : PrePast V Asked Voted n pv tr msgs) : PrePast V Asked' Voted' n pv tr msgs where
  request := h.request
  grant q hq ht hrej := (h.grant q hq ht hrej).imp_right (hA _ _ _)
  gated hpv t hc := (h.gated hpv t hc).mono hV

theorem PreLive.mono (hA : ∀ k n u, Asked k n u → Asked' k n u)
    (hV : ∀ k n u, Voted k n u → Voted' k n u) (h : PreLive V Asked Voted n pv tr c) :
    PreLive V Asked' Voted' n pv tr c where
  past := h.past.mono hA hV
  preVote := h.preVote
  asked := h.asked
  counted hrole k hk := by
    obtain ⟨hmem, hvoted⟩ := h.counted hrole k hk
    refine ⟨hmem, hvoted.imp_right ?_⟩
    rintro ⟨u, hu, hvote⟩
    exact ⟨u, hu, hV k n u hvote⟩

end Node

/-! ## §4  The cluster -/

namespace Cluster

variable {T : Type} {V : Finset ℕ} {n : ℕ} {C C' C₀ : Cluster T}

/-- The invariant besides `Safe`; `pv` says who runs pre-votes. -/
def PreSafe (V : Finset ℕ) (pv : ℕ → Bool) (C : Cluster T) : Prop :=
  ∀ n M, C n = some M →
    PrePast V (PreAsked C) (PreVoted C) n (pv n) M.trace M.raft.msgs ∧
    (M.stopped = false → PreLive V (PreAsked C) (PreVoted C) n (pv n) M.trace M.raft.ctl)

theorem Initial.preSafe (h : Initial V C) {pv : ℕ → Bool}
    (hpv : ∀ n M, C n = some M → M.raft.preVote = pv n) : PreSafe V pv C := by
  intro n M hn
  obtain ⟨hmsgs, htrace⟩ := h.quiet n M hn
  have hrole : M.raft.ctl.role = .FOLLOWER := h.follower n M hn
  have hpast : PrePast V (PreAsked C) (PreVoted C) n (pv n) M.trace M.raft.msgs := by
    rw [hmsgs, htrace]
    refine ⟨by simp, by simp, ?_⟩
    intro _ t hc
    simp [Campaigned] at hc
  refine ⟨hpast, fun _ => ⟨hpast, hpv n M hn, ?_, ?_⟩⟩
  · intro q hq
    rw [show M.raft.ctl.msgs = [] from hmsgs] at hq
    cases hq
  · intro hpre
    rw [hrole] at hpre
    cases hpre

/-! A call leaves what is in the queue there, however it ends. -/

theorem mem_msgs_of_moves {m q : Message} {c c' : Ctl} {es : List Event} (h : Moves m c es c')
    (hq : q ∈ c.msgs) : q ∈ c'.msgs := by
  induction h with
  | refl => exact hq
  | step _ hmove ih =>
      cases hmove with
      | queue _ _ => exact List.mem_append_left _ ih
      | grant _ _ _ _ _ _ _ _ => exact List.mem_append_left _ ih
      | follow _ => exact ih
      | preCampaign _ _ _ _ => exact ih
      | campaign _ _ => exact ih
      | ownVote _ _ => exact ih
      | count _ _ => exact ih
      | lead _ _ _ => exact ih
      | refused _ => exact ih

section Runs

variable [Storage T] [ProtoMessage Entry]

theorem mem_msgs_handle {q : Message} {r : Raft T} (i : Input) (hq : q ∈ r.msgs) :
    q ∈ (Raft.handle i r).state.msgs := by
  refine (does_handle i r).elim (R := fun _ r' => q ∈ r'.msgs) ?_ ?_
  · exact fun _ _ hmoves => mem_msgs_of_moves hmoves hq
  · rintro _ r' ⟨_, _, _, hmoves, _, hmsgs, _⟩
    rw [hmsgs]
    exact mem_msgs_of_moves hmoves hq

theorem Step.mem_msgs (h : Step C C') {k : ℕ} {K : Member T} (hk : C k = some K) {q : Message}
    (hq : q ∈ K.raft.msgs) : ∃ K', C' k = some K' ∧ q ∈ K'.raft.msgs := by
  cases h with
  | @call j M i rng hj _ _ =>
      by_cases hkj : k = j
      · subst hkj
        obtain rfl : M = K := Option.some.inj (hj.symm.trans hk)
        refine ⟨_, Function.update_self .., ?_⟩
        exact mem_msgs_handle (r := { M.raft with rng := rng }) i hq
      · exact ⟨K, (Function.update_of_ne hkj ..).trans hk, hq⟩

/-- So what was asked and granted before a step is so behind it. -/
theorem Step.preAsked (h : Step C C') {n k u : ℕ} (hasked : PreAsked C n k u) :
    PreAsked C' n k u := by
  obtain ⟨N, hn, q, hq, hreq⟩ := hasked
  obtain ⟨N', hn', hq'⟩ := h.mem_msgs hn hq
  exact ⟨N', hn', q, hq', hreq⟩

theorem Step.preVoted (h : Step C C') {k n u : ℕ} (hvoted : PreVoted C k n u) :
    PreVoted C' k n u := by
  obtain ⟨hasked, K, hk, q, hq, hgrant⟩ := hvoted
  obtain ⟨K', hk', hq'⟩ := h.mem_msgs hk hq
  exact ⟨h.preAsked hasked, K', hk', q, hq', hgrant⟩

omit [Storage T] [ProtoMessage Entry] in
/-- A message in flight was queued by a member that was asked for what it grants. -/
theorem PreSafe.arrives {pv : ℕ → Bool} (h : PreSafe V pv C) (hsafe : Safe V C) {k : ℕ}
    {K : Member T} {m : Message} (hk : C k = some K) (hm : m ∈ K.raft.msgs) (hto : m.to_ = n) :
    PreArrives V (PreAsked C) (PreVoted C) n m := by
  obtain ⟨_, _, hpast, _⟩ := hsafe k K hk
  have hfrom : m.from_ = k := (hpast.sound m hm).from_
  constructor
  · intro ht
    refine ⟨hto ▸ (h k K hk).1.request m hm ht, K, ?_, m, hm, ht, rfl, hto, rfl⟩
    rw [hfrom]
    exact hk
  · intro ht hrej
    obtain ⟨hV, hasked⟩ := (h k K hk).1.grant m hm ht hrej
    rw [hfrom]
    rw [hto] at hasked
    exact ⟨hV, hasked, K, hk, m, hm, ht, hrej, hfrom, hto, rfl⟩

omit [Storage T] [ProtoMessage Entry] in
/-- What a grant answers is in the queue of who asked. -/
theorem timely_of_arrives {M : Member T} {m : Message} {tr : List Event} {c : Ctl} {b : Bool}
    (ha : PreArrives V (PreAsked C) (PreVoted C) n m) (hn : C n = some M)
    (h : PreLive V (PreAsked C) (PreVoted C) n b tr c) (hmsgs : c.msgs = M.raft.msgs) :
    Timely m c := by
  intro ht hrej
  obtain ⟨N, hn', q, hq, hreq⟩ := (ha.grant ht hrej).2.1
  obtain rfl : M = N := Option.some.inj (hn.symm.trans hn')
  rw [← hreq.term]
  exact h.asked q (hmsgs ▸ hq) hreq.msgType

omit [Storage T] [ProtoMessage Entry] in
theorem preArrives_msgOf {pv : ℕ → Bool} (h : PreSafe V pv C) (hsafe : Safe V C) {i : Input}
    (hi : MayCall C n i) (r : Raft T) :
    PreArrives V (PreAsked C) (PreVoted C) n (i.msgOf r) := by
  cases hi with
  | deliver hk hm hto => exact h.arrives hsafe hk hm hto
  | tick =>
      constructor
      · intro ht
        cases ht
      · intro ht
        cases ht

/-- A call the cluster may make keeps what a node keeps. -/
theorem preLive_handle {pv : ℕ → Bool} (hsafe : Safe V C) (hpre : PreSafe V pv C) {i : Input}
    (hi : MayCall C n i) {M : Member T} (hn : C n = some M) {r : Raft T}
    (hr : r.ctl = M.raft.ctl) (hrunning : M.stopped = false) :
    PrePast V (PreAsked C) (PreVoted C) n (pv n) (M.trace ++ (Raft.handle i r).trace)
        (Raft.handle i r).state.msgs ∧
      (∀ a, (Raft.handle i r).value = .ok a →
        PreLive V (PreAsked C) (PreVoted C) n (pv n) (M.trace ++ (Raft.handle i r).trace)
          (Raft.handle i r).state.ctl) := by
  obtain ⟨hne, hs, _, hlive⟩ := hsafe n M hn
  have hlive := hlive hrunning
  have h := (hpre n M hn).2 hrunning
  rw [← hr] at hlive h
  have ha := preArrives_msgOf hpre hsafe hi r
  have htimely := timely_of_arrives ha hn h (congrArg Ctl.msgs hr)
  rcases hsafe.call_cases hi hlive with hkind | hstill
  · refine (does_handle i r).outcome
      (R := fun es r' => PrePast V (PreAsked C) (PreVoted C) n (pv n) (M.trace ++ es) r'.msgs)
      (S := fun es r' => PreLive V (PreAsked C) (PreVoted C) n (pv n) (M.trace ++ es) r'.ctl)
      ?_ ?_
    · intro es r' hmoves
      obtain ⟨h', _⟩ := h.moves hne hlive hkind ha htimely hmoves
      exact ⟨h'.past, h'⟩
    · exact fun es r' hbreak => h.breaks hne hlive hkind ha htimely hbreak
  · exact still_outcome (R := PrePast V (PreAsked C) (PreVoted C) n (pv n))
      (S := PreLive V (PreAsked C) (PreVoted C) n (pv n)) hstill h.past h

theorem PreSafe.step {pv : ℕ → Bool} (h : PreSafe V pv C) (hsafe : Safe V C)
    (hstep : Step C C') : PreSafe V pv C' := by
  have hasked : ∀ k n u, PreAsked C k n u → PreAsked C' k n u := fun _ _ _ => hstep.preAsked
  have hvoted : ∀ k n u, PreVoted C k n u → PreVoted C' k n u := fun _ _ _ => hstep.preVoted
  cases hstep with
  | @call j M i rng hj hrunning hi =>
      obtain ⟨hpast, hlive⟩ := preLive_handle hsafe h hi hj
        (r := { M.raft with rng := rng }) rfl hrunning
      intro k K hk
      by_cases hkj : k = j
      · subst hkj
        obtain rfl : Member.after M (Raft.handle i { M.raft with rng := rng }) = K := by
          simpa using hk
        refine ⟨hpast.mono hasked hvoted, fun hst => PreLive.mono hasked hvoted ?_⟩
        cases hval : (Raft.handle i { M.raft with rng := rng }).value with
        | ok a => exact hlive a hval
        | error p => simp [Member.after, hval] at hst
      · obtain ⟨hpast', hlive'⟩ := h k K ((Function.update_of_ne hkj ..).symm.trans hk)
        exact ⟨hpast'.mono hasked hvoted, fun hst => (hlive' hst).mono hasked hvoted⟩

theorem Reachable.preSafe {pv : ℕ → Bool} (h₀ : Initial V C₀)
    (hpv : ∀ n M, C₀ n = some M → M.raft.preVote = pv n) (h : Reachable C₀ C) :
    PreSafe V pv C := by
  induction h with
  | refl => exact h₀.preSafe hpv
  | step hreach hstep ih => exact ih.step (hreach.safe h₀) hstep

/-- A node with pre-vote that campaigns for a term was granted a pre-vote for that
term, or for the one it left, by a majority. -/
theorem campaign_gated (h₀ : Initial V C₀) (h : Reachable C₀ C) {M₀ M : Member T} {t : ℕ}
    (hn₀ : C₀ n = some M₀) (hpv : M₀.raft.preVote = true) (hn : C n = some M)
    (hc : Campaigned n t M.trace) : Gated V (PreVoted C) n [t, t + 1] := by
  have hsafe : PreSafe V (fun k => (C₀ k).elim false fun K => K.raft.preVote) C := by
    apply h.preSafe h₀
    intro k K hk
    rw [hk]
    rfl
  apply (hsafe n M hn).1.gated _ t hc
  show (C₀ n).elim false _ = true
  rw [hn₀]
  exact hpv

end Runs

/-! ## §5  A stale grant counts

Nodes `2` and `3` are in term `1`. Node `1` asks for that term from behind, node `2`
grants, and node `1` campaigns. In term `1` it asks for term `2`, the same grant
arrives once more, and node `1` campaigns again. -/

def asking : Member MemStorage where
  raft := { memNode 1 [1, 2, 3] [] with
    preVote := true, minElectionTimeout := 1, maxElectionTimeout := 2 }

def ahead (id : ℕ) : Member MemStorage where
  raft := { memNode id [1, 2, 3] [] with term := 1 }

def preRequest : Message :=
  { msgType := .MsgRequestPreVote, to_ := 2, from_ := 1, term := 1 }

def preGrant : Message :=
  { msgType := .MsgRequestPreVoteResponse, to_ := 1, from_ := 2, term := 1 }

/-- The member behind the call `i`. -/
def called (M : Member MemStorage) (i : Input) : Member MemStorage :=
  M.after (Raft.handle i { M.raft with rng := fun _ => 0 })

/-- Node `2` behind the request, node `1` behind each of its calls. -/
def granted : Member MemStorage := called (ahead 2) (.step preRequest)

def asked₁ : Member MemStorage := called asking .tick

def campaigned₁ : Member MemStorage := called asked₁ (.step preGrant)

def asked₂ : Member MemStorage := called campaigned₁ .tick

def campaigned₂ : Member MemStorage := called asked₂ (.step preGrant)

def lagging : Cluster MemStorage := trio asking (ahead 2) (ahead 3)

def granting₁ : Cluster MemStorage :=
  Function.update (Function.update lagging 1 (some asked₁)) 2 (some granted)

def stale : Cluster MemStorage :=
  Function.update (Function.update (Function.update granting₁ 1 (some campaigned₁))
    1 (some asked₂)) 1 (some campaigned₂)

theorem lagging_initial : Initial {1, 2, 3} lagging := by
  apply trio_initial
  · exact ⟨rfl, rfl, rfl, rfl, _, rfl, by decide⟩
  · exact ⟨rfl, rfl, rfl, rfl, _, rfl, by decide⟩
  · exact ⟨rfl, rfl, rfl, rfl, _, rfl, by decide⟩

theorem stale_reachable : Reachable lagging stale := by
  have h₁ : Step lagging (Function.update lagging 1 (some asked₁)) :=
    .call (fun _ => 0) (by simp [lagging, trio]) rfl .tick
  have h₂ : Step (Function.update lagging 1 (some asked₁)) granting₁ :=
    .call (fun _ => 0) (by simp [lagging, trio]) rfl
      (.deliver (k := 1) (K := asked₁) (by simp) (by decide +kernel) rfl)
  have h₃ : Step granting₁ (Function.update granting₁ 1 (some campaigned₁)) :=
    .call (fun _ => 0) (by simp [granting₁]) (by decide +kernel)
      (.deliver (k := 2) (K := granted) (by simp [granting₁]) (by decide +kernel) rfl)
  have h₄ : Step (Function.update granting₁ 1 (some campaigned₁))
      (Function.update (Function.update granting₁ 1 (some campaigned₁)) 1 (some asked₂)) :=
    .call (fun _ => 0) (by simp) (by decide +kernel) .tick
  have h₅ : Step (Function.update (Function.update granting₁ 1 (some campaigned₁))
      1 (some asked₂)) stale :=
    .call (fun _ => 0) (by simp) (by decide +kernel)
      (.deliver (k := 2) (K := granted) (by simp [granting₁]) (by decide +kernel) rfl)
  exact .step (.step (.step (.step (.step .refl h₁) h₂) h₃) h₄) h₅

theorem stale_campaigned : Campaigned 1 1 campaigned₂.trace := by
  unfold Campaigned
  decide +kernel

/-- Here the second campaign is gated by the grant for the term it leaves. -/
theorem campaign_gated_stale : Campaigned 1 1 campaigned₂.trace ∧
    Gated {1, 2, 3} (PreVoted stale) 1 [1, 2] := by
  have h₀ : lagging 1 = some asking := by simp [lagging, trio]
  have h : stale 1 = some campaigned₂ := by simp [stale]
  exact ⟨stale_campaigned,
    campaign_gated lagging_initial stale_reachable h₀ rfl h stale_campaigned⟩

/-- Nobody granted the pre-vote for the term it enters. -/
theorem stale_not_voted {k : ℕ} (hk : k ∈ ({1, 2, 3} : Finset ℕ)) : ¬ PreVoted stale k 1 2 := by
  have hnone : ∀ K : Member MemStorage, stale k = some K → ∀ q ∈ K.raft.msgs,
      ¬ (q.msgType = .MsgRequestPreVoteResponse ∧ q.term = 2) := by
    intro K hK
    simp only [Finset.mem_insert, Finset.mem_singleton] at hk
    rcases hk with rfl | rfl | rfl
    · obtain rfl : campaigned₂ = K := by simpa [stale] using hK
      decide +kernel
    · obtain rfl : granted = K := by simpa [stale, granting₁] using hK
      decide +kernel
    · obtain rfl : ahead 3 = K := by simpa [stale, granting₁, lagging, trio] using hK
      decide +kernel
  rintro ⟨_, K, hK, q, hq, hgrant⟩
  exact hnone K hK q hq ⟨hgrant.msgType, hgrant.term⟩

/-- So the second campaign has no majority of grants for its own term. -/
theorem not_gated_stale : Initial {1, 2, 3} lagging ∧ Reachable lagging stale ∧
    lagging 1 = some asking ∧ asking.raft.preVote = true ∧ stale 1 = some campaigned₂ ∧
    Campaigned 1 1 campaigned₂.trace ∧ ¬ Gated {1, 2, 3} (PreVoted stale) 1 [2] := by
  refine ⟨lagging_initial, stale_reachable, by simp [lagging, trio], rfl, by simp [stale],
    stale_campaigned, ?_⟩
  rintro ⟨S, hS, hcard, _, hvoted⟩
  have hone : S ⊆ {1} := by
    intro k hk
    rcases hvoted k hk with rfl | ⟨u, hu, hvote⟩
    · exact Finset.mem_singleton_self 1
    · obtain rfl : u = 2 := by simpa using hu
      exact absurd hvote (stale_not_voted (hS hk))
  have hle := hcard.trans (Finset.card_le_card hone)
  revert hle
  decide

end Cluster

end RsRaft
