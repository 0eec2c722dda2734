import RsRaft.Group
import RsRaft.Persistence
import RsRaft.ProgressCursors

/-!
# The logs of a group

Writing the log, as a leader and as a follower, accounted for by steps of the group.

§1 writes and the logical log · §2 the leader's log · §3 committing · §4 parts
received · §5 the store and the application.
-/

namespace RsRaft

open PlainLog Call Raft

/-! ## §1  Writes and the logical log -/

namespace RaftLog

variable {log log' : RaftLog MemStorage} {es : List Entry} {i n c t : ℕ} {b : Bool}

/-- A batch that continues the log, or replaces a part of it that is not committed. -/
theorem Sound.append_logical (h : log.Sound) (hes : Consecutive i es)
    (hl : i ≤ log.logical.lastIndex) (hrun : log.append es = .ok (n, log')) :
    log'.Sound ∧ log'.unstable.snapshot = log.unstable.snapshot ∧
      log'.committed = log.committed ∧
      ((es = [] ∧ log' = log) ∨ log'.logical = log.logical.overwrite i es) := by
  have hsound := (h.append hes hrun).1
  cases es with
  | nil =>
      obtain ⟨last, hlast, hrun⟩ := bind_eq_ok hrun
      cases hrun
      exact ⟨h, rfl, rfl, Or.inl ⟨rfl, rfl⟩⟩
  | cons e es =>
      have hidx : e.index = i + 1 := hes 0 e rfl
      simp only [RaftLog.append, hidx] at hrun
      rw [wrappingSub_of_le (by omega), Nat.add_sub_cancel] at hrun
      split at hrun
      · cases hrun
      · rename_i hc
        obtain ⟨u, hu, hrun⟩ := bind_eq_ok hrun
        obtain ⟨last, _, hrun⟩ := bind_eq_ok hrun
        cases hrun
        have hb : log.logical.base ≤ i :=
          Nat.le_trans (Nat.le_trans h.base_le h.applied_le) (Nat.le_of_not_lt hc)
        have hlog := (h.wellFormed.truncateAndAppend (List.cons_ne_nil e es) hes hb hl hu).2
        exact ⟨hsound, (Unstable.truncateAndAppend_frame hu).1, rfl, Or.inr hlog⟩

/-- `append` answers with the last index. -/
theorem append_last (hrun : log.append es = .ok (n, log')) : log'.lastIndex = .ok n := by
  cases es with
  | nil =>
      obtain ⟨last, hlast, hrun⟩ := bind_eq_ok hrun
      cases hrun
      exact hlast
  | cons e es =>
      rw [RaftLog.append] at hrun
      dsimp only at hrun
      split at hrun
      · cases hrun
      · obtain ⟨u, _, hrun⟩ := bind_eq_ok hrun
        obtain ⟨last, hlast, hrun⟩ := bind_eq_ok hrun
        cases hrun
        exact hlast

/-- Behind the log, also an empty batch is written as it is read. -/
theorem Sound.append_end (h : log.Sound) (hes : Consecutive log.logical.lastIndex es)
    (hrun : log.append es = .ok (n, log')) :
    log'.Sound ∧ log'.unstable.snapshot = log.unstable.snapshot ∧
      log'.committed = log.committed ∧
      log'.logical = log.logical.overwrite log.logical.lastIndex es := by
  obtain ⟨hsound, hsnap, hcommitted, hlog⟩ := h.append_logical hes (Nat.le_refl _) hrun
  refine ⟨hsound, hsnap, hcommitted, ?_⟩
  rcases hlog with ⟨rfl, rfl⟩ | hlog
  · rw [overwrite_lastIndex, List.append_nil]
  · exact hlog

/-- What is not committed yet is not compacted. -/
theorem Sound.base_le_of_new (h : log.Sound) (hnew : ¬ i < log.committed) :
    log.logical.base ≤ i :=
  Nat.le_trans (Nat.le_trans h.base_le h.applied_le) (Nat.le_of_not_lt hnew)

/-- The commit index moves to an index of the given term, or not at all. -/
theorem Sound.maybeCommit_cases (h : log.Sound)
    (hrun : log.maybeCommit i t = .ok (b, log')) :
    log' = log ∨ (log.committed < i ∧ (log.logical.stampAt i).getD 0 = t ∧
      i ≤ log.logical.lastIndex ∧ log' = { log with committed := i }) := by
  unfold RaftLog.maybeCommit at hrun
  split at hrun
  · rename_i hlt
    rw [h.wellFormed.presents.term, ok_bind] at hrun
    split at hrun
    · rename_i ht
      obtain ⟨log₁, hto, hrun⟩ := bind_eq_ok hrun
      cases hrun
      obtain ⟨heq, hin⟩ := h.wellFormed.presents.commitTo_ok hto
      rw [Nat.max_eq_right (Nat.le_of_lt hlt)] at heq
      exact Or.inr ⟨hlt, ht, hin hlt, heq⟩
    · cases hrun
      exact Or.inl rfl
  · cases hrun
    exact Or.inl rfl

/-- A batch whose previous entry matches is spliced in. -/
theorem Sound.maybeAppend_logical {a : Option ℕ} (h : log.Sound)
    (ht : log.logical.stampAt i = some t) (hes : Consecutive i es)
    (hreal : ∀ e ∈ es, 1 ≤ e.term) (hrun : log.maybeAppend i t c es = .ok (a, log')) :
    log'.Sound ∧ log'.unstable.snapshot = log.unstable.snapshot ∧ a = some (i + es.length) ∧
      log'.logical = log.logical.splice i es ∧
      log'.committed = max log.committed (min c (i + es.length)) := by
  have hpres := h.wellFormed.presents
  obtain ⟨_, hl⟩ := bounds_of_stampAt ht
  rw [RaftLog.maybeAppend, hpres.matchTerm, ok_bind, ht, if_pos (by simp),
    hpres.findConflict hes hreal, ok_bind] at hrun
  cases hk : log.logical.firstMismatch i es with
  | none =>
      have hsplice : log.logical.splice i es = log.logical := by
        unfold PlainLog.splice
        rw [hk]
      rw [hk, Option.elim_none, if_pos rfl, pure_eq_ok, ok_bind] at hrun
      obtain ⟨log₁, hto, hrun⟩ := bind_eq_ok hrun
      cases hrun
      obtain ⟨rfl, _⟩ := hpres.commitTo_ok hto
      exact ⟨(h.commitTo hto).1, rfl, rfl, hsplice.symm, rfl⟩
  | some k =>
      have hlt := firstMismatch_lt hk
      have hin := add_firstMismatch_le hl hk
      have hsplice : log.logical.splice i es = log.logical.overwrite (i + k) (es.drop k) := by
        unfold PlainLog.splice
        rw [hk]
      obtain ⟨log₁, hmid, hrun⟩ := bind_eq_ok hrun
      obtain ⟨log₂, hto, hrun⟩ := bind_eq_ok hrun
      cases hrun
      rw [hk, Option.elim_some, if_neg (by omega)] at hmid
      split at hmid
      · cases hmid
      · obtain ⟨rest, hrest, hmid⟩ := bind_eq_ok hmid
        obtain ⟨⟨n, log₃⟩, happend, hmid⟩ := bind_eq_ok hmid
        cases hmid
        obtain rfl := sliceVec_conflict hlt hrest
        -- from the conflict on, the batch is appended
        obtain ⟨hsound, hsnap, hcommitted, hlog⟩ :=
          h.append_logical (hes.drop k) hin happend
        obtain ⟨hcom, _⟩ := hsound.wellFormed.presents.commitTo_ok hto
        refine ⟨(hsound.commitTo hto).1, ?_, rfl, ?_, ?_⟩
        · rw [hcom]
          exact hsnap
        · rw [hcom, hsplice]
          rcases hlog with ⟨hnil, _⟩ | hlog
          · rw [List.drop_eq_nil_iff] at hnil
            omega
          · exact hlog
        · rw [hcom, ← hcommitted]

/-- What is accepted has matched, and what is refused changes nothing. -/
theorem match_of_maybeAppend {L : PlainLog Entry ℕ} (h : log.Presents L)
    (hrun : log.maybeAppend i t c es = .ok (some n, log')) : (L.stampAt i).getD 0 = t := by
  by_contra hne
  rw [h.maybeAppend_refuse hne] at hrun
  cases hrun

theorem maybeAppend_none (hrun : log.maybeAppend i t c es = .ok (none, log')) :
    log = log' := by
  rw [RaftLog.maybeAppend] at hrun
  obtain ⟨m, _, hrun⟩ := bind_eq_ok hrun
  cases m with
  | false =>
      cases hrun
      rfl
  | true =>
      obtain ⟨_, _, hrun⟩ := bind_eq_ok hrun
      obtain ⟨_, _, hrun⟩ := bind_eq_ok hrun
      obtain ⟨_, _, hrun⟩ := bind_eq_ok hrun
      cases hrun

end RaftLog

/-! ## §2  The leader's log -/

variable {V : Finset ℕ} {A A' : Consensus.Group ℕ Entry} {b s v : ℕ} {m q : Message}
  {K : Consensus.Group ℕ Entry → Prop} {hK : ∀ A A', Consensus.Records A A' → K A → K A'}
  {r r' : Raft MemStorage}

/-- The leader's log is what it has left of the log of its reign. -/
theorem Mirrors.reigning (h : Mirrors V A v r) (hA : Consensus.Sound (Quorum V) b s A)
    (hl : r.state = .Leader) : ∃ R, A.reign r.term = some R ∧ R.leader = v ∧
      A.term R.leader = r.term ∧ Remains r.raftLog.logical R.log ∧ s < r.term := by
  obtain ⟨R, hR, rfl⟩ := h.leader hl
  exact ⟨R, hR, rfl, h.term, (hA.leader _ R hR).2 h.term ▸ h.log,
    (hA.reigned _ R hR).start⟩

/-- The leader places entries of its term behind its log. -/
theorem Mirrors.append (h : Mirrors V A v r) (hA : Consensus.Sound (Quorum V) b s A)
    (hl : r.state = .Leader) {log' : RaftLog MemStorage} {es : List Entry}
    (hsound : log'.Sound) (hsnap : log'.unstable.snapshot = none)
    (hcommitted : log'.committed = r.raftLog.committed)
    (hlog : log'.logical = r.raftLog.logical.overwrite r.raftLog.logical.lastIndex es)
    (hes : ∀ e ∈ es, e.term = r.term) :
    ∃ A', Consensus.Step (Quorum V) v A A' ∧ Mirrors V A' v { r with raftLog := log' } ∧
      A'.acked v r.term log'.logical.lastIndex := by
  obtain ⟨R, hR, rfl, hterm, hRlog, _⟩ := h.reigning hA hl
  have hstep : Consensus.Step (Quorum V) R.leader A _ := .append rfl hR hterm hes
  obtain ⟨_, hrec⟩ := hA.step (fun _ _ => Quorum.meet) hstep
  have hlast : log'.logical.lastIndex = R.log.lastIndex + es.length := by
    rw [hlog, lastIndex_overwrite r.raftLog.logical.base_le_lastIndex (Nat.le_refl _),
      hRlog.lastIndex_eq]
  refine ⟨_, hstep, ?_, Or.inr ⟨rfl, rfl, hlast⟩⟩
  exact
    { h with
      term := h.term
      sound := hsound
      snapshot := hsnap
      log := by
        rw [hlog]
        show Remains _ (Function.update A.log R.leader _ R.leader)
        rw [Function.update_self, ← hRlog.lastIndex_eq]
        exact hRlog.overwrite r.raftLog.logical.base_le_lastIndex (Nat.le_refl _) es
      committed := h.committed.trans hcommitted.symm
      candidate := fun hc => by
        have hrole : r.state = .Candidate := hc
        rw [hl] at hrole
        cases hrole
      leader := fun _ => ⟨_, Function.update_self .., rfl⟩
      peers := fun _ prs id pr hprs hpr => (h.peers hl prs id pr hprs hpr).mono hrec.acked (by
        rw [hlast, ← hRlog.lastIndex_eq]
        exact Nat.le_add_right _ _)
      led := fun _ _ _ => Or.inl hl
      posted := fun q hq => (h.posted q hq).mono hrec }

/-- What a leader holds it may acknowledge at any time. -/
theorem Mirrors.follow (h : Mirrors V A v r) (hA : Consensus.Sound (Quorum V) b s A)
    (hl : r.state = .Leader) :
    ∃ A', Consensus.Step (Quorum V) v A A' ∧ Mirrors V A' v r ∧
      A'.acked v r.term r.raftLog.logical.lastIndex := by
  have hend : r.raftLog.logical =
      r.raftLog.logical.overwrite r.raftLog.logical.lastIndex [] := by
    rw [overwrite_lastIndex, List.append_nil]
  exact h.append hA hl h.sound h.snapshot rfl hend (by simp)

/-- A leader moves its own progress, at most to the end of its log. -/
theorem accounted_updateOwnProgress (hl : r.state = .Leader) {f : Progress → Progress}
    (hf : ∀ A, Mirrors V A v r → ∀ pr, Known A r.term r.raftLog.logical.lastIndex v pr →
      (f pr).matched ≤ r.raftLog.logical.lastIndex ∧ 1 ≤ (f pr).nextIdx ∧
        (f pr).nextIdx ≤ r.raftLog.logical.lastIndex + 1 ∧ (f pr).state ≠ .Snapshot ∧
        (f pr).recentActive = pr.recentActive) :
    Does (accounted V b s v K hK) r (updateOwnProgress f)
      (fun _ r' => r'.state = .Leader ∧ r'.raftLog = r.raftLog) := by
  unfold updateOwnProgress
  refine Does.read_bind (does_getPrs_bind fun p hp => ?_)
  cases hget : p.get r.id with
  | none => exact Does.panic _
  | some pr =>
      refine Does.of_ok (a := ()) rfl (accounted_step fun A hA _ h => ?_) ⟨hl, rfl⟩
      rw [h.id] at hget ⊢
      obtain ⟨A', hstep, h', hacked⟩ := h.follow hA hl
      obtain ⟨hinside, hlow, hhigh, hstate, hactive⟩ := hf A h pr (h.peers hl p v pr hp hget)
      refine ⟨A', hstep, h'.put hp hget fun _ => ?_⟩
      exact ⟨hinside, Or.inr ⟨_, hinside, hacked⟩, hlow, hhigh, hstate,
        hactive.trans (h.peers hl p v pr hp hget).inactive⟩

/-! ## §3  Committing -/

theorem accounted_maybeCommit (hl : r.state = .Leader) :
    Does (accounted V b s v K hK) r maybeCommit (fun _ r' => r'.state = .Leader) := by
  unfold maybeCommit
  refine does_getPrs_bind fun p hp => Does.lift_bind fun mci hmci => ?_
  refine Does.read_bind (Does.lift_bind fun a ha => ?_)
  refine Does.modify_bind (fun A hA _ h => ?_) (Does.pure hl)
  obtain ⟨ok, log'⟩ := a
  rcases h.sound.maybeCommit_cases ha with rfl | ⟨hlt, hstamp, hin, rfl⟩
  · exact ⟨A, .refl, { h with }⟩
  obtain ⟨R, hR, rfl, hterm, hRlog, hs⟩ := h.reigning hA hl
  have hrole : r.state ≠ .FOLLOWER := by
    rw [hl]
    decide
  have hwf := h.members p hp
  have hV := h.seated hrole hp
  have hat : R.log.stampAt mci = some r.term := by
    refine hRlog.stampAt_of ?_
    cases hread : r.raftLog.logical.stampAt mci with
    | none =>
        rw [hread, Option.getD_none] at hstamp
        omega
    | some u =>
        rw [hread, Option.getD_some] at hstamp
        rw [hstamp]
  -- whoever has reached the index has acknowledged it
  have hquorum : Quorum V {w | ∃ j, mci ≤ j ∧ A.acked w r.term j} := by
    refine ⟨p.reached mci, fun w hw => ?_, ?_, fun w hw => ?_⟩
    · rw [← hV]
      exact ProgressSet.reached_subset hw
    · rw [← h.size hrole hp]
      exact (hwf.le_maximalCommittedIndex_iff hmci mci).mp (Nat.le_refl mci)
    · obtain ⟨_, pr, hpr, hle⟩ := ProgressSet.mem_reached.mp hw
      rcases (h.peers hl p w pr hp hpr).matched with hzero | ⟨j, hj, hacked⟩
      · omega
      · exact ⟨j, Nat.le_trans hle hj, hacked⟩
  refine ⟨_, .step .refl (.commit rfl hR hterm hat hquorum fun w hw => hw), ?_⟩
  have happlied := h.sound.applied_le
  exact
    { h with
      sound := (h.sound.with_cursors (Nat.le_refl _) (Nat.le_of_lt hlt) (by omega) hin).1
      log := h.log
      committed := by
        show Function.update A.committed R.leader _ R.leader = mci
        rw [Function.update_self, h.committed, Nat.max_eq_right (Nat.le_of_lt hlt)]
      peers := fun _ prs id pr hprs hpr =>
        (h.peers hl prs id pr hprs hpr).mono (fun _ _ _ hj => hj) (Nat.le_refl _)
      posted := fun q hq => (h.posted q hq).mono { Consensus.Records.refl A with } }

theorem Progress.maybeUpdate_recentActive (pr : Progress) (n : ℕ) :
    (pr.maybeUpdate n).2.recentActive = pr.recentActive := by
  unfold Progress.maybeUpdate Progress.resume
  dsimp only
  split <;> split <;> rfl

/-- A leader appends entries of its term, follows them itself, and commits what it may. -/
theorem accounted_appendEntry (hl : r.state = .Leader) (ents : List Entry) :
    Does (accounted V b s v K hK) r (appendEntry ents) (fun _ r' => r'.state = .Leader) := by
  unfold appendEntry
  refine Does.read_bind (Does.lift_bind fun li hli => Does.lift_bind fun a ha => ?_)
  obtain ⟨n, log'⟩ := a
  refine Does.bind (Q := fun _ r' => r'.state = .Leader ∧
    ∀ A, Mirrors V A v r' → n = r'.raftLog.logical.lastIndex) ?_ fun _ r₁ ⟨hl₁, hn⟩ => ?_
  · refine Does.of_ok (a := ()) rfl (accounted_step fun A hA _ h => ?_) ⟨hl, fun A h' => ?_⟩
    · obtain rfl : li = r.raftLog.logical.lastIndex := by
        rw [h.sound.wellFormed.presents.lastIndex] at hli
        exact (Except.ok.inj hli).symm
      -- the entries are renumbered to continue the log
      obtain ⟨hsound, hsnap, hcommitted, hlog⟩ := h.sound.append_end (by
        intro k e he
        rw [List.getElem?_mapIdx] at he
        obtain ⟨d, _, rfl⟩ := Option.map_eq_some_iff.mp he
        rfl) ha
      obtain ⟨A', hstep, h', _⟩ := h.append hA hl hsound (hsnap.trans h.snapshot) hcommitted hlog
        (by
          intro e he
          obtain ⟨k, hk, rfl⟩ := List.mem_mapIdx.mp he
          rfl)
      exact ⟨A', hstep, h'⟩
    · have hlast := h'.sound.wellFormed.presents.lastIndex
      have hret : log'.lastIndex = .ok n := RaftLog.append_last ha
      rw [hret] at hlast
      exact Except.ok.inj hlast
  refine Does.bind (accounted_updateOwnProgress hl₁ fun A h pr hpr => ?_)
    fun _ r₂ ⟨hl₂, _⟩ => ?_
  · obtain ⟨hm, hnx, hst, _⟩ := Progress.maybeUpdate_cursors pr n
    have hle := hn A h
    have hinside := hpr.inside
    have hlow := hpr.low
    have hhigh := hpr.high
    rw [hm, hnx, hst]
    exact ⟨by omega, by omega, by omega, hpr.entries, pr.maybeUpdate_recentActive n⟩
  · exact Does.bind (accounted_maybeCommit hl₂) fun _ _ hl₃ => Does.pure hl₃

/-! ## §4  Parts received -/

/-- More messages in the queue. -/
theorem Mirrors.post (h : Mirrors V A v r) {qs : List Message}
    (hqs : ∀ q ∈ qs, Posted V A v q) :
    Mirrors V A v { r with msgs := r.msgs ++ qs } :=
  { h with
    posted := by
      intro q hq
      rcases List.mem_append.mp hq with hq | hq
      · exact h.posted q hq
      · exact hqs q hq }

/-- A follower takes a part of the leader's log that matches its own. -/
theorem Mirrors.receive (h : Mirrors V A v r) (hA : Consensus.Sound (Quorum V) b s A)
    (hrole : r.state = .FOLLOWER) {x : Consensus.Batch Entry} (hx : A.sent x)
    (hterm : x.term = r.term)
    (hmatch : r.raftLog.logical.stampAt x.prev = some x.prevStamp)
    {log' : RaftLog MemStorage} (hsound : log'.Sound) (hsnap : log'.unstable.snapshot = none)
    (hlog : log'.logical = r.raftLog.logical.splice x.prev x.entries)
    (hcommitted : log'.committed =
      max r.raftLog.committed (min x.commit (x.prev + x.entries.length))) :
    ∃ A', Consensus.Step (Quorum V) v A A' ∧ Mirrors V A' v { r with raftLog := log' } ∧
      A'.acked v r.term (x.prev + x.entries.length) := by
  have hnot : r.state ≠ .Leader := by
    rw [hrole]
    decide
  have hstep : Consensus.Step (Quorum V) v A _ := .receive hx (hterm.trans h.term.symm)
    (h.log.stampAt_of hmatch)
  obtain ⟨_, hrec⟩ := hA.step (fun _ _ => Quorum.meet) hstep
  refine ⟨_, hstep, ?_, Or.inr ⟨rfl, hterm.symm, rfl⟩⟩
  exact
    { h with
      sound := hsound
      snapshot := hsnap
      log := by
        obtain ⟨hb, hl⟩ := bounds_of_stampAt hmatch
        rw [hlog]
        show Remains _ (Function.update A.log v _ v)
        rw [Function.update_self]
        exact h.log.splice hb hl _
      committed := by
        rw [hcommitted, ← h.committed]
        exact Function.update_self ..
      candidate := fun hc => by
        have hcand : r.state = .Candidate := hc
        rw [hrole] at hcand
        cases hcand
      leader := fun hl => absurd hl hnot
      peers := fun hl => absurd hl hnot
      posted := fun q hq => (h.posted q hq).mono hrec }

/-- What a follower has committed it has in common with the leader of its term, and may
acknowledge at any time. -/
theorem Mirrors.confirm (h : Mirrors V A v r) (hA : Consensus.Sound (Quorum V) b s A)
    (hrole : r.state = .FOLLOWER) {R : Consensus.Reign ℕ Entry}
    (hR : A.reign r.term = some R) :
    ∃ A', Consensus.Moves (Quorum V) v A A' ∧ Mirrors V A' v r ∧
      A'.acked v r.term r.raftLog.committed := by
  have hsame := hA.same_of_reign (fun _ _ => Quorum.meet) .refl (Nat.le_refl (A.committed v)) hR
    (Nat.le_of_eq h.term)
  rw [h.committed] at hsame
  have hlow := Nat.le_trans h.sound.base_le h.sound.applied_le
  obtain ⟨p, hp⟩ := exists_stampAt hlow h.sound.committed_le
  have hRp := hsame.symm.stampAt_eq (Nat.le_refl _) (h.log.stampAt_of hp)
  have hlast := (bounds_of_stampAt hRp).2
  have hsend : Consensus.Step (Quorum V) v A _ :=
    .send (k := 0) (c := 0) hR hRp hlast fun hne => absurd rfl hne
  obtain ⟨hA₁, hrec⟩ := hA.step (fun _ _ => Quorum.meet) hsend
  have h₁ : Mirrors V { A with sent := fun x => A.sent x ∨ x =
      ⟨r.term, r.raftLog.committed, p, R.log.segment r.raftLog.committed 0, 0⟩ } v r :=
    { h with posted := fun q hq => (h.posted q hq).mono hrec
             peers := fun hl => by
               rw [hrole] at hl
               cases hl }
  -- an empty part at the commit index changes nothing
  have hnil : R.log.segment r.raftLog.committed 0 = [] := R.log.segment_zero _
  obtain ⟨A', hstep, h', hacked⟩ := h₁.receive hA₁ hrole (Or.inr rfl) rfl hp h.sound h.snapshot
    (by rw [hnil]; rfl) (by rw [Nat.zero_min, Nat.max_eq_left (Nat.zero_le _)])
  rw [hnil] at hacked
  exact ⟨A', .step (.step .refl hsend) hstep, h', hacked⟩

/-- A part of the log of the leader of a node's term, on its way to the node. -/
structure Offered (A : Consensus.Group ℕ Entry) (t : ℕ) (m : Message)
    (R : Consensus.Reign ℕ Entry) : Prop where
  reign : A.reign t = some R
  pos : 0 < t
  prev : R.log.stampAt m.index = some m.logTerm
  segment : IsSegment R.log m.index m.entries
  real : ∀ e ∈ m.entries, 1 ≤ e.term

section

variable {k u : ℕ}

theorem Mirrors.offered (hA : Consensus.Sound (Quorum V) b s A) (hm : Posted V A k m)
    (ht : m.msgType = .MsgAppend) : ∃ R, Offered A m.term m R := by
  obtain ⟨R, hR, hprev, hseg, _, _⟩ := hA.sent _ (hm.append ht).1
  have hreigned := hA.reigned _ R hR
  refine ⟨R, hR, Nat.lt_of_le_of_lt (Nat.zero_le s) hreigned.start, hprev, hseg, ?_⟩
  intro e he
  obtain ⟨j, hj⟩ := List.mem_iff_getElem?.mp he
  have hat := (hseg j (List.getElem?_eq_some_iff.mp hj).1).trans hj
  have hb := (bounds_of_entryAt hat).1
  rw [hreigned.made.base] at hb
  -- whoever placed the entry led a term behind the base's
  obtain ⟨R', hR', _⟩ := hreigned.made.origin _ _ hb (stampAt_of_entryAt hat)
  exact Nat.lt_of_le_of_lt (Nat.zero_le s) (hA.reigned _ R' hR').start

/-- Whichever of the two terms the previous entry is compared with: if it matches, it is
the entry of the leader's log. -/
theorem Mirrors.match_offered (h : Mirrors V A v r) (hA : Consensus.Sound (Quorum V) b s A)
    {R : Consensus.Reign ℕ Entry} (hR : Offered A r.term m R)
    (hb : r.raftLog.logical.base ≤ m.index) (hu : u = r.term ∨ u = m.logTerm)
    (hread : (r.raftLog.logical.stampAt m.index).getD 0 = u) :
    r.raftLog.logical.stampAt m.index = some m.logTerm := by
  have hmade := hA.made v
  have hreigned := hA.reigned _ R hR.reign
  rw [h.log.stampAt_eq hb] at hread ⊢
  cases hat : (A.log v).stampAt m.index with
  | none =>
      -- outside of the log the code reads `0`, which only a base at the very beginning has
      rw [hat, Option.getD_none] at hread
      have hzero : m.logTerm = 0 := by
        rcases hu with rfl | rfl
        · exact absurd hread (Nat.ne_of_lt hR.pos)
        · exact hread.symm
      have hprev := hR.prev
      have hle := hreigned.made.le_of_stampAt hprev
      rcases Nat.eq_or_lt_of_le hle with heq | hlt
      · rw [← heq, hmade.stampAt_base] at hat
        cases hat
      · obtain ⟨R', hR', _⟩ := hreigned.made.origin _ _ hlt hprev
        have hstart := (hA.reigned _ R' hR').start
        omega
  | some a =>
      rw [hat, Option.getD_some] at hread
      subst hread
      rcases hu with rfl | rfl
      · have hle := hmade.le_of_stampAt hat
        rcases Nat.eq_or_lt_of_le hle with heq | hlt
        · rw [← heq, hmade.stampAt_base] at hat
          have hstart := hreigned.start
          cases hat
          omega
        · obtain ⟨R', hR', hsame⟩ := hmade.origin _ _ hlt hat
          rw [hR.reign] at hR'
          cases hR'
          rw [← hsame.stampAt_eq (Nat.le_refl _) hat, hR.prev]
      · rfl

/-- A part of the leader's log never touches what is committed. -/
theorem Mirrors.no_conflict (h : Mirrors V A v r) (hA : Consensus.Sound (Quorum V) b s A)
    {R : Consensus.Reign ℕ Entry} (hR : Offered A r.term m R)
    (hb : r.raftLog.logical.base ≤ m.index) {j : ℕ}
    (hj : r.raftLog.logical.firstMismatch m.index m.entries = some j) :
    r.raftLog.committed ≤ m.index + j := by
  by_contra hlt
  rw [h.log.firstMismatch_eq hb] at hj
  obtain ⟨⟨e, he, hne⟩, _⟩ := firstMismatch_some hj
  have hsame := hA.same_of_reign (fun _ _ => Quorum.meet) .refl (Nat.le_refl (A.committed v))
    hR.reign (Nat.le_of_eq h.term)
  rw [h.committed] at hsame
  have hat := (hR.segment j (List.getElem?_eq_some_iff.mp he).1).trans he
  exact hne (hsame.stampAt_eq (by omega) (stampAt_of_entryAt hat))

/-- A follower handles a part of the leader's log, as the source does or with the term of
the previous entry put right. -/
theorem accounted_handlerAppendEntries (ht : m.msgType = .MsgAppend) (hterm : m.term = r.term)
    (hrole : r.state = .FOLLOWER) (hu : u = m.term ∨ u = m.logTerm) :
    Does (accounted V b s v (fun A => Posted V A k m) fun _ _ hrec hm => hm.mono hrec) r
      (handlerAppendEntriesVia enqueue { m with term := u }) (fun _ _ => True) := by
  rw [hterm] at hu
  unfold handlerAppendEntriesVia
  apply Does.read_bind
  refine Does.ite (fun _ => ?_) fun hnew => Does.lift_bind fun a ha => ?_
  · -- what is committed already is acknowledged
    refine Does.of_ok (a := ()) rfl (fun A hA hm h => ?_) trivial
    obtain ⟨R, hR⟩ := Mirrors.offered hA hm ht
    obtain ⟨A', hmoves, h', hacked⟩ := h.confirm hA hrole (hterm ▸ hR.reign)
    refine ⟨A', hmoves, h'.post ?_⟩
    intro q hq
    obtain rfl := List.mem_singleton.mp hq
    exact ⟨h.id, nofun, nofun, nofun, fun _ _ => hacked, nofun⟩
  obtain ⟨a, log'⟩ := a
  dsimp only at ha
  cases a with
  | some n =>
      refine Does.of_ok (a := ()) rfl (fun A hA hm h => ?_) trivial
      obtain ⟨hsent, hes⟩ := hm.append ht
      obtain ⟨R, hR⟩ := Mirrors.offered hA hm ht
      rw [hterm] at hR hsent
      have hmatch := h.match_offered hA hR (h.sound.base_le_of_new hnew) hu
        (RaftLog.match_of_maybeAppend h.sound.wellFormed.presents ha)
      obtain rfl : u = m.logTerm := by
        have hread := RaftLog.match_of_maybeAppend h.sound.wellFormed.presents ha
        rw [hmatch] at hread
        exact hread.symm
      obtain ⟨hsound, hsnap, hn, hlog, hcommitted⟩ :=
        h.sound.maybeAppend_logical hmatch hes hR.real ha
      cases hn
      obtain ⟨A', hstep, h', hacked⟩ := h.receive hA hrole hsent rfl hmatch hsound
        (hsnap.trans h.snapshot) hlog hcommitted
      refine ⟨A', .step .refl hstep, h'.post ?_⟩
      intro q hq
      obtain rfl := List.mem_singleton.mp hq
      exact ⟨h.id, nofun, nofun, nofun, fun _ _ => hacked, nofun⟩
  | none =>
      obtain rfl := RaftLog.maybeAppend_none ha
      refine Does.modify_bind (accounted_still fun A hA h => { h with })
        (Does.lift_bind fun last _ => ?_)
      refine Does.of_ok (a := ()) rfl (accounted_still fun A hA h => h.post ?_) trivial
      intro q hq
      obtain rfl := List.mem_singleton.mp hq
      exact .of_silent h.id (by simp)

end

/-! ## §5  The store and the application -/

/-- The log as it was, or what is left of it, kept in another way. -/
theorem Mirrors.keep (h : Mirrors V A v r) {log' : RaftLog MemStorage} (hsound : log'.Sound)
    (hsnap : log'.unstable.snapshot = none) (hlog : Remains log'.logical r.raftLog.logical)
    (hcommitted : log'.committed = r.raftLog.committed) :
    Mirrors V A v { r with raftLog := log' } :=
  { h with
    sound := hsound
    snapshot := hsnap
    log := hlog.trans h.log
    committed := h.committed.trans hcommitted.symm
    peers := by
      show _ → ∀ prs id pr, _ → _ → Known A r.term log'.logical.lastIndex id pr
      rw [hlog.lastIndex_eq]
      exact h.peers }

namespace RaftLog

variable {log log' : RaftLog MemStorage} {c : Capture}

theorem complete_committed (hrun : log.complete c = .ok log') :
    log'.committed = log.committed := by
  obtain ⟨_, _, hrun⟩ := bind_eq_ok hrun
  obtain ⟨_, _, hrun⟩ := bind_eq_ok hrun
  cases hrun
  rfl

/-- What the tail holds goes to the store, unless the store would drop a part of it. -/
theorem Sound.persist (h : log.Sound) (hsnap : log.unstable.snapshot = none)
    (hc : log.capture = some c) (hp : log.Persistable c) (hrun : log.complete c = .ok log') :
    log'.Sound ∧ log'.unstable.snapshot = none ∧ log'.logical = log.logical ∧
      log'.committed = log.committed := by
  have hversion : log.logical ∈ [log.logical] := List.mem_singleton_self _
  obtain ⟨log₁, hrun₁, hkept⟩ := complete_of_persistable h hsnap
    (captured_capture h hsnap hversion hc) hversion (by
      intro L hL M hM
      obtain rfl := List.mem_singleton.mp hL
      obtain rfl := List.mem_singleton.mp hM
      exact fun _ _ _ _ => ⟨fun _ _ _ => rfl, fun _ _ _ => rfl⟩) hp
  rw [hrun] at hrun₁
  cases hrun₁
  exact ⟨hkept.sound, hkept.snapshot, hkept.logical, complete_committed hrun⟩

/-- What a compaction leaves of the store. -/
theorem compact_ok {core core' : MemStorageCore} {res : Result Unit} (h : core.WellFormed)
    (hrun : core.compact i = .ok (res, core')) :
    core' = core ∨ core'.WellFormed ∧ core'.plain.base = i ∧ Remains core'.plain core.plain := by
  obtain ⟨d, es, _, hdummy, hplain⟩ := MemStorageCore.dummy_index h.nonempty
  have hdi : d.index = core.plain.base := by rw [hplain]
  rw [MemStorageCore.compact, hdummy, ok_bind, hdi] at hrun
  dsimp only at hrun
  split at hrun
  · cases hrun
    exact Or.inl rfl
  · rename_i hb
    rw [MemStorageCore.innerLastIndex_eq h.nonempty, ok_bind] at hrun
    split at hrun
    · cases hrun
    · rename_i hl
      cases hrun
      obtain ⟨hwf, hbase⟩ := h.drop (Nat.le_of_not_le hb) (Nat.le_of_not_gt hl)
      exact Or.inr ⟨hwf, hbase, h.remains_drop (Nat.le_of_not_le hb) (Nat.le_of_not_gt hl)⟩

/-- Compacting the store, up to what is applied and stored for good, compacts the log. -/
theorem Sound.compact {core : MemStorageCore} {res : Result Unit} (h : log.Sound)
    (hsnap : log.unstable.snapshot = none) (ha : i ≤ log.applied)
    (ho : i < log.unstable.offset) (hrun : log.store.core.compact i = .ok (res, core)) :
    Sound { log with store := { core := core } } ∧
      Remains (logical { log with store := { core := core } }) log.logical := by
  rcases compact_ok h.wellFormed.store hrun with rfl | ⟨hcore, rfl, hleft⟩
  · exact ⟨h, .refl _⟩
  obtain ⟨hlow, hhigh, hnil⟩ := h.wellFormed.fits
  rw [Unstable.ground_of_none hsnap] at hlow hhigh hnil
  have hlast := hleft.lastIndex_eq
  have hremains : Remains (logical { log with store := { core := core } }) log.logical := by
    unfold logical Unstable.logOver
    rw [Unstable.ground_of_none hsnap, Unstable.ground_of_none hsnap]
    exact hleft.overwrite (Nat.le_sub_one_of_lt ho) (by omega) _
  refine ⟨⟨⟨hcore, h.wellFormed.unstable, ?_⟩, ?_, h.applied_le, ?_⟩, hremains⟩
  · constructor <;> rw [Unstable.ground_of_none hsnap]
    · exact ho
    · exact hlast ▸ hhigh
    · exact hlast ▸ hnil
  · unfold logical Unstable.logOver
    rw [Unstable.ground_of_none hsnap]
    exact ha
  · rw [hremains.lastIndex_eq]
    exact h.committed_le

/-- A snapshot is kept beside the entries. -/
theorem createSnapshot_ok {core core' : MemStorageCore} {res : Result Snapshot} {idx : ℕ}
    {confState : Option ConfState} {data : Bytes}
    (hrun : core.createSnapshot idx confState data = .ok (res, core')) :
    core'.entries = core.entries := by
  unfold MemStorageCore.createSnapshot at hrun
  split at hrun
  · cases hrun
    rfl
  · obtain ⟨_, _, hrun⟩ := bind_eq_ok hrun
    obtain ⟨_, _, hrun⟩ := bind_eq_ok hrun
    split at hrun
    · cases hrun
    · split at hrun
      · cases hrun
      · cases hrun
        rfl

/-- Of the store the log has only the entries. -/
theorem Sound.of_entries {core : MemStorageCore} (h : log.Sound)
    (hents : core.entries = log.store.core.entries) :
    Sound { log with store := { core := core } } ∧
      logical { log with store := { core := core } } = log.logical := by
  have hplain : core.plain = log.store.core.plain := by
    unfold MemStorageCore.plain
    rw [hents]
  have hlogical : logical { log with store := { core := core } } = log.logical := by
    unfold logical
    rw [hplain]
  refine ⟨⟨⟨⟨?_, ?_⟩, h.wellFormed.unstable, ?_⟩, ?_, h.applied_le, ?_⟩, hlogical⟩
  · rw [hents]
    exact h.wellFormed.store.nonempty
  · rw [hents, hplain]
    exact h.wellFormed.store.consecutive
  · rw [hplain]
    exact h.wellFormed.fits
  · rw [hlogical]
    exact h.base_le
  · rw [hlogical]
    exact h.committed_le

/-- Applying moves a cursor that nobody else sees. -/
theorem Sound.apply (h : log.Sound) (hrun : log.appliedTo i = .ok log') :
    log'.Sound ∧ log'.unstable.snapshot = log.unstable.snapshot ∧ log'.logical = log.logical ∧
      log'.committed = log.committed := by
  obtain ⟨hframe, _⟩ := appliedTo_ok hrun h.applied_le
  refine ⟨(h.appliedTo hrun).1, ?_⟩
  rw [hframe]
  exact ⟨rfl, rfl, rfl⟩

end RaftLog

end RsRaft
