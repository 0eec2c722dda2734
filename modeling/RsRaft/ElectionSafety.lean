import RsRaft.Cluster
import RsRaft.TermMonotone

/-!
# Election safety

A leader of term `t` was granted the votes of a majority of the voters, every
one of which assigned its vote of term `t` to that leader. Term and vote of a
node are monotone along its trace, so nobody voted twice in a term, and two
majorities share a voter.

§1 votes given in a trace · §2 what a node keeps · §3 moves keep it · §4 the
cluster.
-/

namespace RsRaft

open Ctl Call Raft

/-! ## §1  Votes given in a trace -/

theorem term_le_of_monotone {es : List Event} {t v t' v' : ℕ} (h : Monotone t v es)
    (hmem : Event.hardState t' v' ∈ es) : t ≤ t' ∧ (t' = t → v ≠ INVALID_ID → v' = v) := by
  induction es generalizing t v with
  | nil => cases hmem
  | cons e es ih =>
      cases e with
      -- only an assignment moves the bound; the other events pass it on
      | hardState t₁ v₁ =>
          obtain ⟨hstep, hrest⟩ := h
          rcases List.mem_cons.mp hmem with heq | hmem
          · cases heq
            rcases hstep with ⟨hlt, _⟩ | ⟨rfl, hv⟩
            · exact ⟨by omega, fun h => by omega⟩
            · exact ⟨Nat.le_refl _, fun _ hv0 => hv.resolve_right hv0⟩
          · obtain ⟨hle, hsame⟩ := ih hrest hmem
            rcases hstep with ⟨hlt, _⟩ | ⟨rfl, hv⟩
            · exact ⟨by omega, fun h => by omega⟩
            · refine ⟨hle, fun ht hv0 => ?_⟩
              obtain rfl := hv.resolve_right hv0
              exact hsame ht hv0
      | handed m => exact ih h (by simpa using hmem)
      | leads u => exact ih h (by simpa using hmem)
      | role s => exact ih h (by simpa using hmem)
      | selfVote => exact ih h (by simpa using hmem)

/-- Within a monotone trace at most one id gets the vote of a term. -/
theorem vote_unique {es : List Event} {t v u v₁ v₂ : ℕ} (h : Monotone t v es)
    (h₁ : Event.hardState u v₁ ∈ es) (h₂ : Event.hardState u v₂ ∈ es)
    (hv₁ : v₁ ≠ INVALID_ID) (hv₂ : v₂ ≠ INVALID_ID) : v₁ = v₂ := by
  induction es generalizing t v with
  | nil => cases h₁
  | cons e es ih =>
      cases e with
      | hardState t' v' =>
          obtain ⟨_, hrest⟩ := h
          rcases List.mem_cons.mp h₁ with heq₁ | hm₁
          · cases heq₁
            rcases List.mem_cons.mp h₂ with heq₂ | hm₂
            · cases heq₂
              rfl
            · exact ((term_le_of_monotone hrest hm₂).2 rfl hv₁).symm
          · rcases List.mem_cons.mp h₂ with heq₂ | hm₂
            · cases heq₂
              exact (term_le_of_monotone hrest hm₁).2 rfl hv₂
            · exact ih hrest hm₁ hm₂
      | handed m => exact ih h (by simpa using h₁) (by simpa using h₂)
      | leads u' => exact ih h (by simpa using h₁) (by simpa using h₂)
      | role s => exact ih h (by simpa using h₁) (by simpa using h₂)
      | selfVote => exact ih h (by simpa using h₁) (by simpa using h₂)

/-! ## §2  What a node keeps

`Cast k t v` says that some trace of member `k` assigns it the vote `v` in
term `t`. -/

section Node

variable (V : Finset ℕ) (Cast : ℕ → ℕ → ℕ → Prop) (n : ℕ)

/-- The vote of `k` for `v` in term `t` is on record, elsewhere or in the own trace. -/
def Backed (tr : List Event) (k t v : ℕ) : Prop :=
  Cast k t v ∨ (k = n ∧ Event.hardState t v ∈ tr)

/-- The messages node `n` ever queues: vote messages with a term, requests to
voters only, and grants only by voters who recorded the vote. -/
structure Sound (tr : List Event) (q : Message) : Prop where
  from_ : q.from_ = n
  kind : isVoteMessage q.msgType = true
  term : q.term ≠ 0
  request : q.msgType = .MsgRequestVote → q.to_ ∈ V
  grant : q.msgType = .MsgRequestVoteResponse → q.reject = false →
    n ∈ V ∧ Event.hardState q.term q.to_ ∈ tr

/-- Term `t` was won with the recorded votes of a majority. -/
def Won (tr : List Event) (t : ℕ) : Prop :=
  ∃ S ⊆ V, majority V.card ≤ S.card ∧ ∀ k ∈ S, Backed Cast n tr k t n

/-- What holds of a node for good, even once it is stopped. -/
structure Past (hs : ℕ × ℕ) (tr : List Event) (msgs : List Message) : Prop where
  monotone : Monotone hs.1 hs.2 tr
  sound : ∀ q ∈ msgs, Sound V n tr q
  won : ∀ t, Event.leads t ∈ tr → Won V Cast n tr t

/-- What holds of a running node between two moves. -/
structure Live (hs : ℕ × ℕ) (tr : List Event) (c : Ctl) : Prop where
  past : Past V Cast n hs tr c.msgs
  id : c.id = n
  voters : c.voters.keys.toFinset = V
  replay : replay hs tr = (c.term, c.vote)
  standing : c.Standing → n ∈ V
  candidate : c.role = .Candidate → c.vote = n ∧ Event.hardState c.term n ∈ tr ∧
    ∀ k ∈ granters c.votes, k ∈ V ∧ Backed Cast n tr k c.term n

/-- What is known of a message that reaches node `n`. -/
structure Arrives (m : Message) : Prop where
  kind : m.msgType = .MsgHup ∨ (isVoteMessage m.msgType = true ∧ m.term ≠ 0)
  hup : m.msgType = .MsgHup → n ∈ V
  request : m.msgType = .MsgRequestVote → n ∈ V
  grant : m.msgType = .MsgRequestVoteResponse → m.reject = false →
    m.from_ ∈ V ∧ Cast m.from_ m.term n

variable {V Cast n} {hs : ℕ × ℕ} {tr es : List Event} {c c' : Ctl} {m : Message} {k t v : ℕ}

theorem Backed.append (h : Backed Cast n tr k t v) (es : List Event) :
    Backed Cast n (tr ++ es) k t v :=
  h.imp id fun ⟨hk, hmem⟩ => ⟨hk, List.mem_append_left _ hmem⟩

theorem Won.append (h : Won V Cast n tr t) (es : List Event) : Won V Cast n (tr ++ es) t := by
  obtain ⟨S, hS, hcard, hback⟩ := h
  exact ⟨S, hS, hcard, fun k hk => (hback k hk).append es⟩

theorem Sound.append {q : Message} (h : Sound V n tr q) (es : List Event) :
    Sound V n (tr ++ es) q where
  from_ := h.from_
  kind := h.kind
  term := h.term
  request := h.request
  grant ht hr := (h.grant ht hr).imp id (List.mem_append_left _)

/-! ## §3  Moves keep it -/

/-- The messages a cluster delivers never lower a term. -/
theorem Arrives.not_lowersTerm (h : Arrives V Cast n m) (c : Ctl) : ¬ LowersTerm c m := by
  rintro ⟨_, ht, hzero, _⟩
  rcases h.kind with hhup | ⟨_, hterm⟩
  · rw [hhup] at ht
    rcases ht with ht | ht <;> cases ht
  · exact hterm hzero

theorem Live.size (h : Live V Cast n hs tr c) : c.voters.size = V.card := by
  rw [← AList.card_keys, h.voters]

theorem Live.mem_voters (h : Live V Cast n hs tr c) {k : ℕ} (hk : k ∈ c.voters) : k ∈ V := by
  rw [← h.voters]
  exact List.mem_toFinset.mpr hk

/-- A leader has just won. -/
theorem Live.won (h : Live V Cast n hs tr c) (hmove : Move m c es c') {t : ℕ}
    (hmem : Event.leads t ∈ es) : Won V Cast n tr t := by
  cases hmove with
  | follow hf =>
      unfold resetEvents at hmem
      split at hmem <;> simp at hmem
  | lead hm hrole helected =>
      -- the grants counted are the recorded votes, and they make a majority of `V`
      obtain ⟨rfl⟩ : t = c.term := by simpa using hmem
      have hback := (h.candidate hrole).2.2
      refine ⟨granters c.votes, fun k hk => (hback k hk).1, ?_, fun k hk => (hback k hk).2⟩
      rw [← h.size]
      exact helected
  | preCampaign _ _ _ _ => simp at hmem
  | campaign _ _ => simp at hmem
  | ownVote _ _ => simp at hmem
  | count _ _ => simp at hmem
  | queue _ _ => simp at hmem
  | grant _ _ _ _ _ _ _ _ => simp at hmem
  | refused _ => simp at hmem

/-- Whatever a move queues is sound. -/
theorem Live.sound_move (h : Live V Cast n hs tr c) (ha : Arrives V Cast n m)
    (hmove : Move m c es c') : ∀ q ∈ c'.msgs, Sound V n (tr ++ es) q := by
  have hold : ∀ q ∈ c.msgs, Sound V n (tr ++ es) q := fun q hq => (h.past.sound q hq).append es
  cases hmove with
  | queue hq hterm =>
      intro q' hq'
      rcases List.mem_append.mp hq' with hq' | hq'
      · exact hold q' hq'
      · obtain rfl : q' = _ := by simpa using hq'
        cases hq with
        | request hrole ht hto hself hqterm =>
            exact ⟨h.id, by rw [ht]; rfl, hterm, fun _ => h.mem_voters hto,
              fun ht' => absurd (ht.symm.trans ht') (by decide)⟩
        | preRequest hrole ht hto hself hqterm =>
            exact ⟨h.id, by rw [ht]; rfl, hterm, fun ht' => absurd (ht.symm.trans ht') (by decide),
              fun ht' => absurd (ht.symm.trans ht') (by decide)⟩
        | preGrant hm ht hto hrej hqterm =>
            exact ⟨h.id, by rw [ht]; rfl, hterm, fun ht' => absurd (ht.symm.trans ht') (by decide),
              fun ht' => absurd (ht.symm.trans ht') (by decide)⟩
        | preReject hm ht hto hrej hqterm =>
            exact ⟨h.id, by rw [ht]; rfl, hterm, fun ht' => absurd (ht.symm.trans ht') (by decide),
              fun ht' => absurd (ht.symm.trans ht') (by decide)⟩
        | reject hm ht hto hrej hqterm =>
            exact ⟨h.id, by rw [ht]; rfl, hterm, fun ht' => absurd (ht.symm.trans ht') (by decide),
              fun _ hrej' => absurd (hrej.symm.trans hrej') (by decide)⟩
  | grant hm hterm hvote ht hto hrej hqterm hq0 =>
      intro q' hq'
      rcases List.mem_append.mp hq' with hq' | hq'
      · exact hold q' hq'
      · obtain rfl : q' = _ := by simpa using hq'
        -- the vote is assigned in the move that queues the grant
        refine ⟨h.id, by rw [ht]; rfl, hq0, fun ht' => absurd (ht.symm.trans ht') (by decide),
          fun _ _ => ⟨ha.request hm, ?_⟩⟩
        simp [hqterm, hto]
  | follow _ => exact hold
  | preCampaign _ _ _ _ => exact hold
  | campaign _ _ => exact hold
  | ownVote _ _ => exact hold
  | count _ _ => exact hold
  | lead _ _ _ => exact hold
  | refused _ => exact hold

/-- Only voters ever stand: the timer asks, and nothing else starts a campaign here. -/
theorem Live.standing_move (h : Live V Cast n hs tr c) (ha : Arrives V Cast n m)
    (hmove : Move m c es c') (hc : c'.Standing) : n ∈ V := by
  cases hmove with
  | follow _ => rcases hc with hc | hc <;> cases hc
  | preCampaign hm _ _ _ => exact ha.hup hm
  | campaign _ hstart =>
      rcases hstart with ⟨hm, _⟩ | ⟨_, hpre, _⟩
      · exact ha.hup hm
      · exact h.standing (Or.inl hpre)
  | lead _ _ _ => rcases hc with hc | hc <;> cases hc
  | ownVote _ _ => exact h.standing hc
  | count _ _ => exact h.standing hc
  | queue _ _ => exact h.standing hc
  | grant _ _ _ _ _ _ _ _ => exact h.standing hc
  | refused _ => exact h.standing hc

/-- A candidate's own vote and every vote it counts is on record. -/
theorem Live.candidate_move (hn : n ≠ INVALID_ID) (h : Live V Cast n hs tr c)
    (ha : Arrives V Cast n m) (hmove : Move m c es c') (hc : c'.role = .Candidate) :
    c'.vote = n ∧ Event.hardState c'.term n ∈ tr ++ es ∧
      ∀ k ∈ granters c'.votes, k ∈ V ∧ Backed Cast n (tr ++ es) k c'.term n := by
  have keep : c.role = .Candidate → c.vote = n ∧ Event.hardState c.term n ∈ tr ++ es ∧
      ∀ k ∈ granters c.votes, k ∈ V ∧ Backed Cast n (tr ++ es) k c.term n := by
    intro hc
    obtain ⟨hvote, hmem, hback⟩ := h.candidate hc
    exact ⟨hvote, List.mem_append_left _ hmem,
      fun k hk => ⟨(hback k hk).1, (hback k hk).2.append es⟩⟩
  cases hmove with
  | follow _ => cases hc
  | preCampaign _ _ _ _ => cases hc
  | lead _ _ _ => cases hc
  | campaign _ _ =>
      refine ⟨h.id, ?_, fun k hk => ?_⟩
      · apply List.mem_append_right
        rw [h.id]
        exact List.mem_cons_of_mem _ List.mem_cons_self
      · rw [mem_granters] at hk
        cases hk
  | ownVote _ _ =>
      obtain ⟨hvote, hmem, hback⟩ := keep hc
      refine ⟨hvote, hmem, fun k hk => ?_⟩
      rcases mem_granters_orInsert hk with hk | ⟨rfl, _⟩
      · exact hback k hk
      · exact ⟨by rw [h.id]; exact h.standing (Or.inr hc), Or.inr ⟨h.id, hmem⟩⟩
  | count hresp hadm =>
      obtain ⟨hvote, hmem, hback⟩ := keep hc
      have hrole : c.role = .Candidate := hc
      have ht : m.msgType = .MsgRequestVoteResponse := by
        rcases hresp with ⟨hpre, _⟩ | ⟨_, ht⟩
        · rw [hrole] at hpre
          cases hpre
        · exact ht
      -- a response of another term does not get as far as the count
      have hterm : m.term = c.term := by
        rcases hadm with h0 | heq | ⟨hpre, _⟩
        · rcases ha.kind with hhup | ⟨_, hne⟩
          · rw [ht] at hhup
            cases hhup
          · exact absurd h0 hne
        · exact heq
        · rw [ht] at hpre
          cases hpre
      refine ⟨hvote, hmem, fun k hk => ?_⟩
      rcases mem_granters_orInsert hk with hk | ⟨rfl, hgranted⟩
      · exact hback k hk
      · obtain ⟨hV, hcast⟩ := ha.grant ht (by simpa using hgranted)
        exact ⟨hV, Or.inl (hterm ▸ hcast)⟩
  | queue _ _ => exact keep hc
  | refused _ => exact keep hc
  | grant hm hterm hvote ht hto hrej hqterm hq0 =>
      obtain ⟨hown, hmem, hback⟩ := keep hc
      -- a candidate has voted for itself, so it grants to nobody else
      have hfrom : m.from_ = n := by
        rcases hvote with hv | hv
        · exact hv.symm.trans hown
        · exact absurd (hown.symm.trans hv) hn
      exact ⟨hfrom, hmem, hback⟩

theorem Live.move (hn : n ≠ INVALID_ID) (h : Live V Cast n hs tr c)
    (ha : Arrives V Cast n m) (hmove : Move m c es c') : Live V Cast n hs (tr ++ es) c' := by
  obtain ⟨hmono, hreplay⟩ := hmove.monotone (ha.not_lowersTerm c)
  obtain ⟨hid, hvoters⟩ := hmove.id_voters
  refine ⟨⟨?_, h.sound_move ha hmove, fun t ht => ?_⟩, hid.trans h.id, by rw [hvoters, h.voters],
    ?_, h.standing_move ha hmove, h.candidate_move hn ha hmove⟩
  · rw [monotone_append, h.replay]
    exact ⟨h.past.monotone, hmono⟩
  · rcases List.mem_append.mp ht with ht | ht
    · exact (h.past.won t ht).append es
    · exact (h.won hmove ht).append es
  · rw [replay_append, h.replay, hreplay]

theorem Live.moves (hn : n ≠ INVALID_ID) (h : Live V Cast n hs tr c)
    (ha : Arrives V Cast n m) (hmoves : Moves m c es c') :
    Live V Cast n hs (tr ++ es) c' := by
  induction hmoves with
  | refl => rwa [List.append_nil]
  | step _ hmove ih =>
      rw [← List.append_assoc]
      exact ih.move hn ha hmove

/-- What a broken-off call leaves behind. -/
theorem Live.breaks (hn : n ≠ INVALID_ID) (h : Live V Cast n hs tr c)
    (ha : Arrives V Cast n m) {msgs : List Message} (hbreak : Breaks m c es msgs) :
    Past V Cast n hs (tr ++ es) msgs := by
  obtain ⟨es₀, es₁, c', hmoves, rfl, rfl, hlast⟩ := hbreak
  have hlive := h.moves hn ha hmoves
  rw [← List.append_assoc]
  have hsound : ∀ q ∈ c'.msgs, Sound V n (tr ++ es₀ ++ es₁) q :=
    fun q hq => (hlive.past.sound q hq).append es₁
  -- the move that broke off leaves a beginning of its trace, and queued nothing
  rcases hlast with rfl | ⟨es₂, c'', hmove⟩
  · rw [List.append_nil] at hsound ⊢
    exact ⟨hlive.past.monotone, hsound, hlive.past.won⟩
  · have hmono := (hmove.monotone (ha.not_lowersTerm c')).1
    rw [monotone_append _ _ (c'.term, c'.vote)] at hmono
    refine ⟨?_, hsound, fun t ht => ?_⟩
    · rw [monotone_append, hlive.replay]
      exact ⟨hlive.past.monotone, hmono.1⟩
    · rcases List.mem_append.mp ht with ht | ht
      · exact (hlive.past.won t ht).append es₁
      · exact (hlive.won hmove (List.mem_append_left _ ht)).append es₁

/-! More votes on record change nothing. -/

variable {Cast' : ℕ → ℕ → ℕ → Prop}

theorem Backed.mono (hC : ∀ k t v, Cast k t v → Cast' k t v) (h : Backed Cast n tr k t v) :
    Backed Cast' n tr k t v :=
  h.imp_left (hC k t v)

theorem Past.mono (hC : ∀ k t v, Cast k t v → Cast' k t v) {msgs : List Message}
    (h : Past V Cast n hs tr msgs) : Past V Cast' n hs tr msgs where
  monotone := h.monotone
  sound := h.sound
  won t ht := by
    obtain ⟨S, hS, hcard, hback⟩ := h.won t ht
    exact ⟨S, hS, hcard, fun k hk => (hback k hk).mono hC⟩

theorem Live.mono (hC : ∀ k t v, Cast k t v → Cast' k t v) (h : Live V Cast n hs tr c) :
    Live V Cast' n hs tr c where
  past := h.past.mono hC
  id := h.id
  voters := h.voters
  replay := h.replay
  standing := h.standing
  candidate hc := by
    obtain ⟨hvote, hmem, hback⟩ := h.candidate hc
    exact ⟨hvote, hmem, fun k hk => ⟨(hback k hk).1, (hback k hk).2.mono hC⟩⟩

end Node

/-! ## §4  The cluster -/

namespace Cluster

variable {T : Type} {V : Finset ℕ} {n : ℕ} {C C' C₀ : Cluster T}

/-- Member `k` assigned its vote of term `t` to `v`. -/
def Cast (C : Cluster T) (k t v : ℕ) : Prop :=
  ∃ K, C k = some K ∧ Event.hardState t v ∈ K.trace

/-- The invariant: every member keeps its past, and its control state while it runs. -/
def Safe (V : Finset ℕ) (C : Cluster T) : Prop :=
  ∀ n M, C n = some M → n ≠ INVALID_ID ∧ ∃ hs, Past V (Cast C) n hs M.trace M.raft.msgs ∧
    (M.stopped = false → Live V (Cast C) n hs M.trace M.raft.ctl)

theorem Initial.safe (h : Initial V C) : Safe V C := by
  intro n M hn
  obtain ⟨hid, hne⟩ := h.id n M hn
  obtain ⟨hmsgs, htrace⟩ := h.quiet n M hn
  obtain ⟨prs, hprs, hvoters⟩ := h.voters n M hn
  have hrole : M.raft.ctl.role = .FOLLOWER := h.follower n M hn
  have hpast : Past V (Cast C) n (M.raft.term, M.raft.vote) M.trace M.raft.msgs := by
    rw [hmsgs, htrace]
    exact ⟨trivial, fun q hq => by simp at hq, fun t ht => by simp at ht⟩
  refine ⟨hne, (M.raft.term, M.raft.vote), hpast, fun _ => ⟨hpast, hid, ?_, ?_, ?_, ?_⟩⟩
  · rw [ctl_voters hprs, hvoters]
  · rw [htrace]
    rfl
  · rintro (hc | hc) <;> rw [hrole] at hc <;> cases hc
  · intro hc
    rw [hrole] at hc
    cases hc

/-- A call that only makes moves for an arriving message. -/
theorem live_of_does {α : Type} {Cast : ℕ → ℕ → ℕ → Prop} {hs : ℕ × ℕ} {tr : List Event}
    {r : Raft T} {m : Message} {x : Call Panic Event (Raft T) α} (hn : n ≠ INVALID_ID)
    (h : Live V Cast n hs tr r.ctl) (ha : Arrives V Cast n m)
    (hx : Does (moving T m) r x (fun _ _ => True)) :
    Past V Cast n hs (tr ++ (x r).trace) (x r).state.msgs ∧
      (∀ a, (x r).value = .ok a → Live V Cast n hs (tr ++ (x r).trace) (x r).state.ctl) := by
  refine hx.outcome (R := fun es r' => Past V Cast n hs (tr ++ es) r'.msgs)
    (S := fun es r' => Live V Cast n hs (tr ++ es) r'.ctl) ?_ ?_
  · intro es r' hmoves
    have hlive := h.moves hn ha hmoves
    exact ⟨hlive.past, hlive⟩
  · exact fun es r' hbreak => h.breaks hn ha hbreak

section Runs

variable [Storage T] [ProtoMessage Entry]

omit [Storage T] [ProtoMessage Entry] in
/-- A message in flight was queued by a member that recorded what it grants. -/
theorem Safe.arrives (h : Safe V C) {k : ℕ} {K : Member T} {m : Message} (hk : C k = some K)
    (hm : m ∈ K.raft.msgs) (hto : m.to_ = n) : Arrives V (Cast C) n m := by
  obtain ⟨_, _, hpast, _⟩ := h k K hk
  have hsound := hpast.sound m hm
  refine ⟨Or.inr ⟨hsound.kind, hsound.term⟩, ?_, ?_, ?_⟩
  · intro ht
    have hkind := hsound.kind
    rw [ht] at hkind
    cases hkind
  · intro ht
    rw [← hto]
    exact hsound.request ht
  · intro ht hrej
    obtain ⟨hkV, hcast⟩ := hsound.grant ht hrej
    rw [hsound.from_]
    rw [hto] at hcast
    exact ⟨hkV, K, hk, hcast⟩

/-- What a call of the cluster makes the node handle arrives as it should; or the
call is the tick of a node that is not promotable, and nothing happens. -/
theorem Safe.call_cases (h : Safe V C) {i : Input} (hi : MayCall C n i) {r : Raft T}
    {hs : ℕ × ℕ} {tr : List Event} (hlive : Live V (Cast C) n hs tr r.ctl) :
    Arrives V (Cast C) n (i.msgOf r) ∨
      Does (still T) r (Raft.handle i) (fun _ _ => True) := by
  cases hi with
  | deliver hk hm hto => exact Or.inl (h.arrives hk hm hto)
  | tick =>
      by_cases hprom : r.id ∈ r.ctl.voters
      · have hV : n ∈ V := by
          rw [← hlive.voters, ← hlive.id]
          exact List.mem_toFinset.mpr (AList.mem_keys.mp hprom)
        left
        refine ⟨Or.inl rfl, fun _ => hV, ?_, ?_⟩
        · intro ht
          cases ht
        · intro ht
          cases ht
      · right
        exact Does.bind (does_tick_of_not_promotable hprom) fun _ _ _ => Does.pure trivial

/-- A call the cluster may make keeps what a node keeps. -/
theorem live_handle {M : Member T} {i : Input} {hs : ℕ × ℕ} (hn : n ≠ INVALID_ID)
    (hsafe : Safe V C) (hi : MayCall C n i) {r : Raft T} (hr : r.ctl = M.raft.ctl)
    (h : Live V (Cast C) n hs M.trace M.raft.ctl) :
    Past V (Cast C) n hs (M.trace ++ (Raft.handle i r).trace) (Raft.handle i r).state.msgs ∧
      (∀ a, (Raft.handle i r).value = .ok a →
        Live V (Cast C) n hs (M.trace ++ (Raft.handle i r).trace)
          (Raft.handle i r).state.ctl) := by
  rw [← hr] at h
  rcases hsafe.call_cases hi h with ha | hstill
  · exact live_of_does hn h ha (does_handle i r)
  · exact still_outcome (R := Past V (Cast C) n hs) (S := Live V (Cast C) n hs) hstill h.past h

theorem Safe.step (h : Safe V C) (hstep : Step C C') : Safe V C' := by
  cases hstep with
  | call rng hn hrunning hi =>
    rename_i n M i
    obtain ⟨hne, hs, hpast, hlive⟩ := h n M hn
    obtain ⟨hpast', hlive'⟩ := live_handle hne h hi (M := M) (r := { M.raft with rng := rng }) rfl
      (hlive hrunning)
    set M' := Member.after M (Raft.handle i { M.raft with rng := rng }) with hM'
    -- traces only grow, so every recorded vote stays on record
    have hmono : ∀ k t v, Cast C k t v → Cast (Function.update C n (some M')) k t v := by
      rintro k t v ⟨K, hk, hmem⟩
      by_cases hkn : k = n
      · subst hkn
        rw [hn] at hk
        cases hk
        exact ⟨M', by simp, List.mem_append_left _ hmem⟩
      · exact ⟨K, by simpa [hkn] using hk, hmem⟩
    intro k K hk
    by_cases hkn : k = n
    · subst hkn
      obtain rfl : M' = K := by simpa using hk
      refine ⟨hne, hs, hpast'.mono hmono, fun hst => Live.mono hmono ?_⟩
      cases hval : (Raft.handle i { M.raft with rng := rng }).value with
      | ok a => exact hlive' a hval
      | error p =>
          rw [hM'] at hst
          simp [Member.after, hval] at hst
    · have hk' : C k = some K := by simpa [hkn] using hk
      obtain ⟨hne', hs', hpast'', hlive''⟩ := h k K hk'
      exact ⟨hne', hs', hpast''.mono hmono, fun hst => (hlive'' hst).mono hmono⟩

theorem Reachable.safe (h₀ : Initial V C₀) (h : Reachable C₀ C) : Safe V C := by
  induction h with
  | refl => exact h₀.safe
  | step _ hstep ih => exact ih.step hstep

omit [Storage T] [ProtoMessage Entry] in
/-- Two wins of one term share a voter, who voted once. -/
theorem Safe.won_unique (h : Safe V C) {n₁ n₂ t : ℕ} {M₁ M₂ : Member T}
    (hn₁ : C n₁ = some M₁) (hn₂ : C n₂ = some M₂) (h₁ : Event.leads t ∈ M₁.trace)
    (h₂ : Event.leads t ∈ M₂.trace) : n₁ = n₂ := by
  obtain ⟨hne₁, hs₁, hpast₁, _⟩ := h n₁ M₁ hn₁
  obtain ⟨hne₂, hs₂, hpast₂, _⟩ := h n₂ M₂ hn₂
  obtain ⟨S₁, hS₁, hcard₁, hback₁⟩ := hpast₁.won t h₁
  obtain ⟨S₂, hS₂, hcard₂, hback₂⟩ := hpast₂.won t h₂
  -- the shared voter recorded one vote for each, in one monotone trace
  obtain ⟨k, hk⟩ := majority_inter_nonempty hS₁ hS₂ hcard₁ hcard₂
  rw [Finset.mem_inter] at hk
  have hcast : ∀ {n : ℕ} {M : Member T}, C n = some M → Backed (Cast C) n M.trace k t n →
      Cast C k t n := by
    rintro n M hn (hcast | ⟨rfl, hmem⟩)
    · exact hcast
    · exact ⟨M, hn, hmem⟩
  obtain ⟨K₁, hK₁, hmem₁⟩ := hcast hn₁ (hback₁ k hk.1)
  obtain ⟨K₂, hK₂, hmem₂⟩ := hcast hn₂ (hback₂ k hk.2)
  obtain rfl : K₁ = K₂ := Option.some.inj (hK₁.symm.trans hK₂)
  obtain ⟨_, hs, hpast, _⟩ := h k K₁ hK₁
  exact vote_unique hpast.monotone hmem₁ hmem₂ hne₁ hne₂

/-- In every run of a cluster no two members ever enter `become_leader` in the
same term. -/
theorem one_leader_per_term (h₀ : Initial V C₀) (h : Reachable C₀ C) {n₁ n₂ t : ℕ}
    {M₁ M₂ : Member T} (hn₁ : C n₁ = some M₁) (hn₂ : C n₂ = some M₂)
    (h₁ : Event.leads t ∈ M₁.trace) (h₂ : Event.leads t ∈ M₂.trace) : n₁ = n₂ :=
  (h.safe h₀).won_unique hn₁ hn₂ h₁ h₂

end Runs

/-! An election among three voters: the first campaigns, the second, already in
the same term, grants, and the first leads. -/

def first : Member MemStorage := { raft := memNode 1 [1, 2, 3] [] }

def second : Member MemStorage := { raft := { memNode 2 [1, 2, 3] [] with term := 1 } }

def third : Member MemStorage := { raft := memNode 3 [1, 2, 3] [] }

def voteRequest : Message := { msgType := .MsgRequestVote, to_ := 2, from_ := 1, term := 1 }

def voteGrant : Message := { msgType := .MsgRequestVoteResponse, to_ := 1, from_ := 2, term := 1 }

/-- The first after its election timeout. -/
def standing : Member MemStorage :=
  first.after (Raft.handle .tick { first.raft with rng := fun _ => 0 })

/-- The second after the request. -/
def granting : Member MemStorage :=
  second.after (Raft.handle (.step voteRequest) { second.raft with rng := fun _ => 0 })

/-- The first after the grant. -/
def leading : Member MemStorage :=
  standing.after (Raft.handle (.step voteGrant) { standing.raft with rng := fun _ => 0 })

def threeNodes : Cluster MemStorage :=
  Function.update (Function.update (Function.update (fun _ => none) 1 (some first))
    2 (some second)) 3 (some third)

def elected : Cluster MemStorage :=
  Function.update (Function.update (Function.update threeNodes 1 (some standing))
    2 (some granting)) 1 (some leading)

theorem threeNodes_initial : Initial {1, 2, 3} threeNodes := by
  apply trio_initial
  · exact ⟨rfl, rfl, rfl, rfl, _, rfl, by decide⟩
  · exact ⟨rfl, rfl, rfl, rfl, _, rfl, by decide⟩
  · exact ⟨rfl, rfl, rfl, rfl, _, rfl, by decide⟩

theorem elected_reachable : Reachable threeNodes elected := by
  have h₁ : Step threeNodes (Function.update threeNodes 1 (some standing)) :=
    .call (fun _ => 0) (by simp [threeNodes]) rfl .tick
  have h₂ : Step (Function.update threeNodes 1 (some standing))
      (Function.update (Function.update threeNodes 1 (some standing)) 2 (some granting)) :=
    .call (fun _ => 0) (by simp [threeNodes]) rfl
      (.deliver (k := 1) (K := standing) (by simp) (by decide +kernel) rfl)
  have h₃ : Step (Function.update (Function.update threeNodes 1 (some standing)) 2
      (some granting)) elected :=
    .call (fun _ => 0) (by simp) (by decide +kernel)
      (.deliver (k := 2) (K := granting) (by simp) (by decide +kernel) rfl)
  exact .step (.step (.step .refl h₁) h₂) h₃

/-- In the elected cluster, whoever leads term `1` is the first member. -/
theorem one_leader_of_threeNodes : Event.leads 1 ∈ leading.trace ∧
    ∀ n M, elected n = some M → Event.leads 1 ∈ M.trace → n = 1 := by
  have hlead : Event.leads 1 ∈ leading.trace := by decide +kernel
  exact ⟨hlead, fun n M hn h =>
    one_leader_per_term threeNodes_initial elected_reachable hn (by simp [elected]) h hlead⟩

end Cluster

end RsRaft
