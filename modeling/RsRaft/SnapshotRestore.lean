import RsRaft.LogicalLog
import RsRaft.Joining
import RsRaft.Run

/-!
# Installing a snapshot

`Raft::restore` has four exits: the snapshot is behind the commit index, the
log holds it already, the node would be made a learner, or membership and log
are rebuilt. In the last one every peer gets a new progress, and a new progress
ignores the index it is created with: its `next_idx` is `0`.

§1 the new members · §2 the four exits · §3 when it does what it should.
-/

namespace RsRaft

open PlainLog Call

/-! ## §1  The new members -/

namespace Raft

section

variable {T : Type} [Storage T] {r : Raft T} {prs : ProgressSet} {last n : ℕ}

/-- The progress `restore_raft` gives to the member `id`. -/
def memberProgress (r : Raft T) (last id : ℕ) : Progress :=
  { Progress.new (last + 1) r.maxInflight with matched := if id = r.id then last else 0 }

omit [Storage T] in
theorem setProgress_run (hprs : r.prs = some prs) (hwf : prs.WellFormed)
    (hn : n ∉ prs.progress) (matched nextIdx : ℕ) (isLearner : Bool) :
    setProgress n matched nextIdx isLearner r =
      ⟨.ok (), { r with
        prs := some (prs.installed isLearner n
          { Progress.new nextIdx r.maxInflight with matched := matched }) }, []⟩ := by
  unfold setProgress
  rw [read_bind_run, bind_ok (getPrs_run hprs), Outcome.after_nil, hwf.insert_run hn,
    lift_ok_bind_run]
  rfl

/-- A round inserts its member, and the node itself learns which kind of member it is. -/
theorem joins_restoreProgress (hlast : r.raftLog.lastIndex = .ok last) (isLearner : Bool) :
    Joins r isLearner (r.memberProgress last) (fun b n => if n = r.id then isLearner else b)
      (restoreProgress isLearner) := by
  intro b prs n hwf hn
  have hlast' : (r.withMembers b prs).raftLog.lastIndex = .ok last := hlast
  unfold restoreProgress memberProgress
  rw [read_bind_run, hlast', lift_ok_bind_run, Nat.add_sub_cancel, withMembers_id]
  by_cases hid : n = r.id
  · simp only [if_pos hid]
    exact setProgress_run (r := r.withMembers isLearner prs) rfl hwf hn _ _ _
  · simp only [if_neg hid]
    exact setProgress_run (r := r.withMembers b prs) rfl hwf hn _ _ _

end

end Raft

/-! ## §2  The four exits -/

/-- A well-formed log whose cursors are in order; what is applied may lie below the log. -/
structure RaftLog.Ordered (log : RaftLog MemStorage) : Prop where
  wellFormed : log.WellFormed
  applied_le : log.applied ≤ log.committed
  committed_le : log.committed ≤ log.logical.lastIndex

/-- A snapshot of something, for members who are voters or learners. -/
structure Snapshot.WellFormed (s : Snapshot) : Prop where
  index_pos : 1 ≤ s.metadata.index
  term_pos : 1 ≤ s.metadata.term
  nodes : s.metadata.confState.nodes.Nodup
  learners : s.metadata.confState.learners.Nodup
  disjoint : ∀ id ∈ s.metadata.confState.nodes, id ∉ s.metadata.confState.learners

namespace Raft

/-- A node with a log in order and members in step. -/
structure InOrder (r : Raft MemStorage) : Prop where
  log : r.raftLog.Ordered
  prs : ∃ prs, r.prs = some prs ∧ prs.WellFormed

/-- The log holds the snapshot's index and term. -/
def HoldsSnapshot (r : Raft MemStorage) (s : Snapshot) : Prop :=
  r.raftLog.logical.stampAt s.metadata.index = some s.metadata.term

/-- A voter among the snapshot's learners. -/
def WouldDemote (r : Raft MemStorage) (s : Snapshot) : Prop :=
  (∃ prs, r.prs = some prs ∧ prs.progress.size ≠ 0) ∧ r.isLearner = false ∧
    r.id ∈ s.metadata.confState.learners

section

variable [ProtoMessage Entry] {r r' : Raft MemStorage} {s : Snapshot} {es : List Event} {b : Bool}

/-- A snapshot behind the commit index is ignored. -/
theorem restore_stale (h : s.metadata.index < r.raftLog.committed) :
    restore s r = ⟨.ok false, r, []⟩ := by
  unfold restore
  rw [read_bind_run, if_pos h]
  rfl

/-- Where the log holds the snapshot, it is committed up to there. -/
theorem restore_held (h : r.InOrder) (hs : r.raftLog.committed ≤ s.metadata.index)
    (hheld : r.HoldsSnapshot s) :
    restore s r = ⟨.ok false,
      { r with raftLog := { r.raftLog with committed := s.metadata.index } }, []⟩ := by
  have hpresents := h.log.wellFormed.presents
  have hmatch : r.raftLog.matchTerm s.metadata.index s.metadata.term = .ok true := by
    rw [hpresents.matchTerm, hheld, Option.getD_some, beq_self_eq_true]
  have hcommit := hpresents.commitTo (bounds_of_stampAt hheld).2
  rw [Nat.max_eq_right hs] at hcommit
  have hrun : restoreRaft s r = ⟨.ok (some false),
      { r with raftLog := { r.raftLog with committed := s.metadata.index } }, []⟩ := by
    unfold restoreRaft
    rw [read_bind_run, hmatch, lift_ok_bind_run, if_pos rfl, hcommit, lift_ok_bind_run]
    rfl
  unfold restore
  rw [read_bind_run, if_neg (Nat.not_lt_of_le hs), bind_ok hrun]
  rfl

/-- Elsewhere the log does not match. -/
theorem matchTerm_of_not_holds (h : r.InOrder) (hwf : s.WellFormed) (hheld : ¬ r.HoldsSnapshot s) :
    r.raftLog.matchTerm s.metadata.index s.metadata.term = .ok false := by
  rw [h.log.wellFormed.presents.matchTerm]
  have hne : (r.raftLog.logical.stampAt s.metadata.index).getD 0 ≠ s.metadata.term := by
    intro heq
    cases hstamp : r.raftLog.logical.stampAt s.metadata.index with
    | none =>
        rw [hstamp] at heq
        exact absurd heq (Nat.ne_of_lt hwf.term_pos)
    | some t =>
        rw [hstamp, Option.getD_some] at heq
        exact hheld (hstamp.trans (congrArg some heq))
  rw [beq_eq_false_iff_ne.mpr hne]

/-- A voter refuses to become a learner. -/
theorem restore_refused (h : r.InOrder) (hwf : s.WellFormed)
    (hs : r.raftLog.committed ≤ s.metadata.index) (hheld : ¬ r.HoldsSnapshot s)
    (hdemote : r.WouldDemote s) : restore s r = ⟨.ok false, r, []⟩ := by
  obtain ⟨⟨prs, hprs, hsize⟩, hlearner, hid⟩ := hdemote
  have hrun : restoreRaft s r = ⟨.ok (some false), r, []⟩ := by
    unfold restoreRaft
    rw [read_bind_run, matchTerm_of_not_holds h hwf hheld, lift_ok_bind_run,
      if_neg Bool.false_ne_true, bind_ok (getPrs_run hprs), Outcome.after_nil,
      if_pos ⟨hsize, by simp [hlearner], hid⟩]
    rfl
  unfold restore
  rw [read_bind_run, if_neg (Nat.not_lt_of_le hs), bind_ok hrun]
  rfl

/-- The members `restore_raft` installs. -/
def restoredMembers (r : Raft MemStorage) (cs : ConfState) : ProgressSet :=
  let progressOf := r.memberProgress r.raftLog.logical.lastIndex
  ((ProgressSet.withCapacity cs.nodes.length cs.learners.length).joined false progressOf
    cs.nodes).joined true progressOf cs.learners

omit [ProtoMessage Entry] in
theorem mem_restoredMembers {cs : ConfState} {id : ℕ} :
    (id ∈ (r.restoredMembers cs).voterIds ↔ id ∈ cs.nodes) ∧
      (id ∈ (r.restoredMembers cs).learnerIds ↔ id ∈ cs.learners) ∧
      (id ∈ (r.restoredMembers cs).progress ↔ id ∈ cs.nodes ∨ id ∈ cs.learners) := by
  refine ⟨?_, ?_, ?_⟩
  · rw [restoredMembers, ProgressSet.mem_voterIds_joined, ProgressSet.mem_voterIds_joined]
    simp [ProgressSet.withCapacity, ProgressSet.voterIds]
  · rw [restoredMembers, ProgressSet.mem_learnerIds_joined, ProgressSet.mem_learnerIds_joined]
    simp [ProgressSet.withCapacity, ProgressSet.learnerIds]
  · rw [restoredMembers, ProgressSet.mem_progress_joined, ProgressSet.mem_progress_joined,
      or_comm]
    simp [ProgressSet.withCapacity]

omit [ProtoMessage Entry] in
theorem get_restoredMembers {cs : ConfState} {id : ℕ} {pr : Progress}
    (hget : (r.restoredMembers cs).get id = some pr) :
    pr = r.memberProgress r.raftLog.logical.lastIndex id := by
  rcases ProgressSet.get_joined hget with ⟨_, rfl⟩ | hold
  · rfl
  · rcases ProgressSet.get_joined hold with ⟨_, rfl⟩ | hno
    · rfl
    · cases hno

/-- Otherwise members and log are rebuilt. -/
theorem restore_full (h : r.InOrder) (hwf : s.WellFormed)
    (hs : r.raftLog.committed ≤ s.metadata.index) (hheld : ¬ r.HoldsSnapshot s)
    (hdemote : ¬ r.WouldDemote s) :
    restore s r = ⟨.ok true,
      { r with
        isLearner := if r.id ∈ s.metadata.confState.learners then true else
          if r.id ∈ s.metadata.confState.nodes then false else r.isLearner
        prs := some (r.restoredMembers s.metadata.confState)
        raftLog := r.raftLog.restore s }, []⟩ := by
  have hlast := h.log.wellFormed.presents.lastIndex
  obtain ⟨prs, hprs, _⟩ := h.prs
  have hempty := ProgressSet.wellFormed_withCapacity s.metadata.confState.nodes.length
    s.metadata.confState.learners.length
  have hnodes : ProgressSet.NewMembers (ProgressSet.withCapacity
      s.metadata.confState.nodes.length s.metadata.confState.learners.length)
      s.metadata.confState.nodes := ⟨hwf.nodes, fun n _ hn => by cases hn⟩
  have hrun₁ := (joins_restoreProgress hlast false).forM (b := r.isLearner) hempty hnodes
  have hlearners : ((ProgressSet.withCapacity s.metadata.confState.nodes.length
      s.metadata.confState.learners.length).joined false
      (r.memberProgress r.raftLog.logical.lastIndex) s.metadata.confState.nodes).NewMembers
      s.metadata.confState.learners := by
    refine ⟨hwf.learners, ?_⟩
    intro n hn hmem
    rcases ProgressSet.mem_progress_joined.mp hmem with hnode | hno
    · exact hwf.disjoint n hnode hn
    · cases hno
  have hrun₂ := (joins_restoreProgress hlast true).forM
    (b := if r.id ∈ s.metadata.confState.nodes then false else r.isLearner)
    (hempty.joined hnodes) hlearners
  rw [foldl_mark] at hrun₁ hrun₂
  have hpass : ¬ (prs.progress.size ≠ 0 ∧ ¬ r.isLearner = true ∧
      r.id ∈ s.metadata.confState.learners) := by
    rintro ⟨hsize, hlearner, hid⟩
    exact hdemote ⟨⟨prs, hprs, hsize⟩, by simpa using hlearner, hid⟩
  have hrun : restoreRaft s r = ⟨.ok none,
      r.withMembers
        (if r.id ∈ s.metadata.confState.learners then true else
          if r.id ∈ s.metadata.confState.nodes then false else r.isLearner)
        (r.restoredMembers s.metadata.confState), []⟩ := by
    unfold restoreRaft setPrs
    rw [read_bind_run, matchTerm_of_not_holds h hwf hheld, lift_ok_bind_run,
      if_neg Bool.false_ne_true, bind_ok (getPrs_run hprs), Outcome.after_nil, if_neg hpass,
      modify_bind_run, withMembers_isLearner, bind_ok hrun₁, Outcome.after_nil, bind_ok hrun₂]
    rfl
  unfold restore
  rw [read_bind_run, if_neg (Nat.not_lt_of_le hs), bind_ok hrun]
  rfl

/-! ## §3  When it does what it should -/

/-- What is left of a node by an installation that was turned down. -/
structure Untouched (r r' : Raft MemStorage) (s : Snapshot) : Prop where
  prs : r'.prs = r.prs
  log : r'.raftLog.logical = r.raftLog.logical
  committed : r'.raftLog.committed = r.raftLog.committed ∨
    (r'.raftLog.committed = s.metadata.index ∧ r.HoldsSnapshot s)

/-- The members are those of the snapshot, and no progress is ahead of the log. -/
structure Installed (r' : Raft MemStorage) (s : Snapshot) : Prop where
  members : ∃ prs, r'.prs = some prs ∧
    (∀ id, id ∈ prs.voterIds ↔ id ∈ s.metadata.confState.nodes) ∧
    (∀ id, id ∈ prs.learnerIds ↔ id ∈ s.metadata.confState.learners) ∧
    ∀ id pr, prs.get id = some pr → pr.matched < pr.nextIdx ∧
      ∃ last, r'.raftLog.lastIndex = .ok last ∧ pr.matched ≤ last
  voter : r'.id ∈ s.metadata.confState.nodes → r'.isLearner = false
  learner : r'.id ∈ s.metadata.confState.learners → r'.isLearner = true

/-- The installation returns, keeps term, vote and role, and does not take the commit index
back; turned down it changes nothing else, otherwise it installs the snapshot. -/
def RestoresSnapshot (r : Raft MemStorage) (s : Snapshot) : Prop :=
  ∃ b r' es, restore s r = ⟨.ok b, r', es⟩ ∧
    r.raftLog.committed ≤ r'.raftLog.committed ∧ r'.term = r.term ∧ r'.vote = r.vote ∧
    r'.state = r.state ∧ (b = false → Untouched r r' s) ∧ (b = true → Installed r' s)

/-- An early exit does what it should. -/
theorem restoresSnapshot_of_exit (hrun : restore s r = ⟨.ok false, r, []⟩) :
    RestoresSnapshot r s :=
  ⟨false, r, [], hrun, Nat.le_refl _, rfl, rfl, rfl, fun _ => ⟨rfl, rfl, Or.inl rfl⟩,
    fun hno => by cases hno⟩

/-- An installation does what it should exactly if it takes one of the early exits, or
there is nobody to install. -/
theorem restoresSnapshot_iff (h : r.InOrder) (hwf : s.WellFormed) :
    RestoresSnapshot r s ↔
      s.metadata.index < r.raftLog.committed ∨ r.HoldsSnapshot s ∨ r.WouldDemote s ∨
        (s.metadata.confState.nodes = [] ∧ s.metadata.confState.learners = []) := by
  by_cases hstale : s.metadata.index < r.raftLog.committed
  · exact iff_of_true (restoresSnapshot_of_exit (restore_stale hstale)) (Or.inl hstale)
  have hs := Nat.le_of_not_lt hstale
  by_cases hheld : r.HoldsSnapshot s
  · refine iff_of_true ?_ (Or.inr (Or.inl hheld))
    exact ⟨false, _, [], restore_held h hs hheld, hs, rfl, rfl, rfl,
      fun _ => ⟨rfl, rfl, Or.inr ⟨rfl, hheld⟩⟩, fun hno => by cases hno⟩
  by_cases hdemote : r.WouldDemote s
  · exact iff_of_true (restoresSnapshot_of_exit (restore_refused h hwf hs hheld hdemote))
      (Or.inr (Or.inr (Or.inl hdemote)))
  have hrun := restore_full h hwf hs hheld hdemote
  simp only [hstale, hheld, hdemote, false_or]
  constructor
  · rintro ⟨b, r', es, hrun', _, _, _, _, _, hinstalled⟩
    rw [hrun] at hrun'
    cases hrun'
    obtain ⟨prs'', hprs, _, _, hahead⟩ := (hinstalled rfl).members
    cases hprs
    -- a member's progress would start with `next_idx` at `0`
    have hnobody : ∀ id, id ∉ (r.restoredMembers s.metadata.confState).progress := by
      intro id hid
      obtain ⟨pr, hpr⟩ := AList.mem_iff_exists_lookup.mp hid
      have hlt := (hahead id pr hpr).1
      rw [get_restoredMembers hpr] at hlt
      exact Nat.not_lt_zero _ hlt
    constructor
    · rw [List.eq_nil_iff_forall_not_mem]
      exact fun id hid => hnobody id (mem_restoredMembers.2.2.mpr (Or.inl hid))
    · rw [List.eq_nil_iff_forall_not_mem]
      exact fun id hid => hnobody id (mem_restoredMembers.2.2.mpr (Or.inr hid))
  · rintro ⟨hnodes, hlearners'⟩
    refine ⟨true, _, [], hrun, hs, rfl, rfl, rfl, fun hno => Bool.noConfusion hno, fun _ => ?_⟩
    refine ⟨⟨_, rfl, fun _ => mem_restoredMembers.1, fun _ => mem_restoredMembers.2.1, ?_⟩,
      ?_, ?_⟩
    · intro id pr hpr
      have hid := mem_restoredMembers.2.2.mp (AList.mem_iff_exists_lookup.mpr ⟨pr, hpr⟩)
      rw [hnodes, hlearners'] at hid
      rcases hid with hno | hno <;> cases hno
    · rw [hnodes]
      exact fun hno => by cases hno
    · rw [hlearners']
      exact fun hno => by cases hno

end

/-! A new node installs a snapshot of two voters, itself one of them. -/

def snapshotOfTwo : Snapshot :=
  { metadata := { confState := { nodes := [1, 2] }, index := 5, term := 2 } }

theorem inOrder_memNode : InOrder (memNode 1 [1, 2] []) where
  log :=
    { wellFormed :=
        ⟨MemStorageCore.wellFormed_default, index_of_range' (by decide), by decide, by decide,
          by decide⟩
      applied_le := by decide
      committed_le := by decide }
  prs := ⟨_, rfl, ProgressSet.wellFormed_ofIds (by decide)⟩

theorem wellFormed_snapshotOfTwo : snapshotOfTwo.WellFormed :=
  ⟨by decide, by decide, by decide, by decide, by decide⟩

theorem not_restoresSnapshot_two :
    (memNode 1 [1, 2] []).InOrder ∧ snapshotOfTwo.WellFormed ∧
      ¬ RestoresSnapshot (memNode 1 [1, 2] []) snapshotOfTwo := by
  refine ⟨inOrder_memNode, wellFormed_snapshotOfTwo, ?_⟩
  rintro ⟨b, r', es, hrun, _, _, _, _, _, hinstalled⟩
  cases hrun
  obtain ⟨prs, hprs, _, _, hahead⟩ := (hinstalled rfl).members
  cases hprs
  have hlt := (hahead 2 (Progress.new 0 256) rfl).1
  exact Nat.lt_irrefl 0 hlt

theorem restoresSnapshot_iff_two :
    (memNode 1 [1, 2] []).InOrder ∧ snapshotOfTwo.WellFormed ∧
      (RestoresSnapshot (memNode 1 [1, 2] []) snapshotOfTwo ↔
        snapshotOfTwo.metadata.index < (memNode 1 [1, 2] []).raftLog.committed ∨
          (memNode 1 [1, 2] []).HoldsSnapshot snapshotOfTwo ∨
          (memNode 1 [1, 2] []).WouldDemote snapshotOfTwo ∨
          (snapshotOfTwo.metadata.confState.nodes = [] ∧
            snapshotOfTwo.metadata.confState.learners = [])) :=
  ⟨inOrder_memNode, wellFormed_snapshotOfTwo,
    restoresSnapshot_iff inOrder_memNode wellFormed_snapshotOfTwo⟩

end Raft

end RsRaft
