import RsRaft.Config
import RsRaft.LogRun

/-!
# Starting over a store

A node that starts over a store with entries, a hard state and members should be
the node that stopped: its term, vote, log and cursors, and its members. The
first is so. But `Raft::new` inserts the voters as learners, so the new node has
no voters, and no candidate can ever be elected.

The bounds of the election timeout are those given: no configuration that passes
`validate` has a range of its own.

§1 what should be rebuilt · §2 the new node · §3 what is lost.
-/

namespace RsRaft

open PlainLog Call

section

variable [ProtoMessage Entry] {cfg : Config} {storage : MemStorage} {minTimeout maxTimeout : ℕ}

/-! ## §1  What should be rebuilt -/

/-- A store a node has stopped on, and a configuration to start over it. -/
structure Restartable (cfg : Config) (storage : MemStorage) : Prop where
  core : storage.core.WellFormed
  some_node : storage.core.snapshot.metadata.confState.nodes ≠ []
  nodes : storage.core.snapshot.metadata.confState.nodes.Nodup
  learners : storage.core.snapshot.metadata.confState.learners.Nodup
  disjoint : ∀ id ∈ storage.core.snapshot.metadata.confState.nodes,
    id ∉ storage.core.snapshot.metadata.confState.learners
  hardState : storage.core.hardState ≠ {}
  commit_ge : storage.core.plain.base ≤ storage.core.hardState.commit
  commit_le : storage.core.hardState.commit ≤ storage.core.plain.lastIndex
  validated : cfg.validate = .ok ()
  no_peers : cfg.peers = []
  no_learners : cfg.learners = []
  applied : cfg.applied = 0 ∨
    storage.core.plain.base ≤ cfg.applied ∧ cfg.applied ≤ storage.core.hardState.commit

/-- The node stands where the stored one stood. -/
structure KeepsState (cfg : Config) (storage : MemStorage) (r : Raft MemStorage) : Prop where
  role : r.state = .FOLLOWER
  term : r.term = storage.core.hardState.term
  vote : r.vote = storage.core.hardState.vote
  committed : r.raftLog.committed = storage.core.hardState.commit
  applied : r.raftLog.applied = max storage.core.plain.base cfg.applied
  store : r.raftLog.store = storage
  readable : r.raftLog.WellFormed ∧ r.raftLog.logical = storage.core.plain
  progress : ∀ prs id pr, r.prs = some prs → prs.get id = some pr →
    pr.nextIdx = storage.core.plain.lastIndex + 1 ∧
      pr.matched = if id = cfg.id then storage.core.plain.lastIndex else 0

/-- The members are the voters `nodes` and the learners `learners`, and the node knows
which of them it is. -/
structure KeepsMembers (cfg : Config) (nodes learners : List ℕ) (r : Raft MemStorage) : Prop where
  members : ∃ prs, r.prs = some prs ∧ (∀ id, id ∈ prs.voterIds ↔ id ∈ nodes) ∧
    (∀ id, id ∈ prs.learnerIds ↔ id ∈ learners) ∧
    ∀ id, id ∈ prs.progress ↔ id ∈ nodes ∨ id ∈ learners
  isLearner : r.isLearner = true ↔ cfg.id ∈ learners
  promotable : ∃ b, Raft.promotable r = ⟨.ok b, r, []⟩ ∧ (b = true ↔ cfg.id ∈ nodes)

/-- The start returns a node, in the state and with the members of the store. -/
def Rebuilds (cfg : Config) (storage : MemStorage) (minTimeout maxTimeout : ℕ)
    (rng : ℕ → ℕ) : Prop :=
  ∃ r, Raft.newTimed cfg storage minTimeout maxTimeout rng = .ok (.ok r) ∧
    KeepsState cfg storage r ∧
    KeepsMembers cfg storage.core.snapshot.metadata.confState.nodes
      storage.core.snapshot.metadata.confState.learners r

/-! ## §2  The new node -/

theorem RaftLog.new_ok (hstore : storage.core.WellFormed) :
    RaftLog.new storage = .ok
      { store := storage
        unstable := Unstable.new (storage.core.plain.lastIndex + 1)
        committed := storage.core.plain.base
        applied := storage.core.plain.base } := by
  have hholds := MemStorage.holds_plain hstore.nonempty
  rw [RaftLog.new, hholds.firstIndex, hholds.lastIndex, unwrap_ok, unwrap_ok, ok_bind, ok_bind,
    wrappingSub_of_le (Nat.le_add_left _ _), Nat.add_sub_cancel]
  rfl

namespace Raft

/-- The node with a hard state loaded. -/
def loaded (r : Raft MemStorage) (hs : HardState) : Raft MemStorage :=
  { r with
    raftLog := { r.raftLog with committed := hs.commit }
    term := hs.term
    vote := hs.vote }

/-- A hard state within the bounds of the log is loaded. -/
theorem startState_run {r : Raft MemStorage} {hs : HardState} {last : ℕ} (hne : hs ≠ {})
    (hlast : r.raftLog.lastIndex = .ok last) (hge : r.raftLog.committed ≤ hs.commit)
    (hle : hs.commit ≤ last) :
    startState hs r = ⟨.ok (), r.loaded hs, [.hardState hs.term hs.vote]⟩ := by
  have hin : ¬ (hs.commit < r.raftLog.committed ∨ hs.commit > last) := by omega
  unfold startState loadState
  rw [if_pos hne, read_bind_run, hlast, lift_ok_bind_run, if_neg hin, modify_bind_run]
  rfl

/-- Becoming a follower of the own term keeps term and vote. -/
theorem becomeFollower_own {r : Raft MemStorage} {last : ℕ} {prs : ProgressSet}
    (hrange : r.minElectionTimeout < r.maxElectionTimeout)
    (hlast : r.raftLog.lastIndex = .ok last) (hprs : r.prs = some prs) (leader : ℕ) :
    becomeFollower r.term leader r = ⟨.ok (),
      { r.resetTo r.term last prs with leaderId := leader, state := .FOLLOWER },
      [.role .FOLLOWER]⟩ := by
  have hevents : resetEvents r.term r.term = [] := if_pos rfl
  unfold becomeFollower setState
  rw [bind_ok (reset_ok hrange hlast hprs r.term), hevents, Outcome.after_nil, modify_bind_run,
    modify_bind_run]
  rfl

omit [ProtoMessage Entry] in
/-- What a start leaves of the node behind the loops. -/
structure StartedFrom (r : Raft MemStorage) (applied : ℕ) (hs : HardState) (prs : ProgressSet)
    (last : ℕ) (r' : Raft MemStorage) : Prop where
  id : r'.id = r.id
  role : r'.state = .FOLLOWER
  term : r'.term = hs.term
  vote : r'.vote = hs.vote
  log : r'.raftLog =
    { r.raftLog with committed := hs.commit, applied := max r.raftLog.applied applied }
  prs : r'.prs = some (resetProgress prs r.id last)
  isLearner : r'.isLearner = r.isLearner

theorem startFrom_run {r : Raft MemStorage} {hs : HardState} {applied last : ℕ}
    {prs : ProgressSet} (hne : hs ≠ {}) (hlast : r.raftLog.lastIndex = .ok last)
    (hge : r.raftLog.committed ≤ hs.commit) (hle : hs.commit ≤ last)
    (happlied : applied = 0 ∨ r.raftLog.applied ≤ applied ∧ applied ≤ hs.commit)
    (hrange : r.minElectionTimeout < r.maxElectionTimeout) (hprs : r.prs = some prs) :
    ∃ r' es, startFrom applied hs r = ⟨.ok (), r', es⟩ ∧
      StartedFrom r applied hs prs last r' := by
  have hloaded := startState_run hne hlast hge hle
  have hto : startApplied applied (r.loaded hs) = _ := startApplied_run happlied
  have hfollows : ∃ r', becomeFollower ((r.loaded hs).withApplied applied).term INVALID_ID
      ((r.loaded hs).withApplied applied) = ⟨.ok (), r', [.role .FOLLOWER]⟩ ∧
        StartedFrom r applied hs prs last r' :=
    ⟨_, becomeFollower_own (r := (r.loaded hs).withApplied applied) hrange hlast hprs INVALID_ID,
      rfl, rfl, rfl, if_pos rfl, rfl, rfl, rfl⟩
  obtain ⟨r', hfollows, hstarted⟩ := hfollows
  refine ⟨r', [.hardState hs.term hs.vote, .role .FOLLOWER], ?_, hstarted⟩
  unfold startFrom
  rw [bind_ok hloaded, bind_ok hto, Outcome.after_nil, read_bind_run, hfollows]
  rfl

omit [ProtoMessage Entry] in
/-- Every progress is reset to the end of the log. -/
theorem get_resetProgress {prs : ProgressSet} {self last id : ℕ} {pr : Progress}
    (hget : (resetProgress prs self last).get id = some pr) :
    pr.nextIdx = last + 1 ∧ pr.matched = if id = self then last else 0 := by
  have hmap : (resetProgress prs self last).get id = (prs.get id).map fun pr =>
      if id = self then { pr.reset (last + 1) with matched := last } else pr.reset (last + 1) :=
    AList.lookup_mapValues _ prs.progress id
  rw [hmap] at hget
  obtain ⟨pr₀, _, rfl⟩ := Option.map_eq_some_iff.mp hget
  by_cases hid : id = self
  · rw [if_pos hid, if_pos hid]
    exact ⟨rfl, rfl⟩
  · rw [if_neg hid, if_neg hid]
    exact ⟨rfl, rfl⟩

omit [ProtoMessage Entry] in
theorem mem_startMembers {r : Raft MemStorage} {peers learners : List ℕ} {id : ℕ} :
    id ∉ (r.startMembers peers learners).voterIds ∧
      (id ∈ (r.startMembers peers learners).learnerIds ↔ id ∈ peers ∨ id ∈ learners) ∧
      (id ∈ (r.startMembers peers learners).progress ↔ id ∈ peers ∨ id ∈ learners) := by
  refine ⟨?_, ?_, ?_⟩
  · rw [startMembers, ProgressSet.mem_voterIds_joined]
    simp [ProgressSet.withCapacity, ProgressSet.voterIds]
  · rw [startMembers, ProgressSet.mem_learnerIds_joined, List.mem_append]
    simp [ProgressSet.withCapacity, ProgressSet.learnerIds]
  · rw [startMembers, ProgressSet.mem_progress_joined, List.mem_append]
    simp [ProgressSet.withCapacity]

end Raft

/-! ## §3  What is lost -/

/-- The new node is in the stored state, but every voter has become a learner. -/
theorem restart_run (h : Restartable cfg storage) (hrange : minTimeout < maxTimeout)
    (rng : ℕ → ℕ) :
    ∃ r prs, Raft.newTimed cfg storage minTimeout maxTimeout rng = .ok (.ok r) ∧
      KeepsState cfg storage r ∧ r.prs = some prs ∧
      (∀ id, id ∉ prs.voterIds) ∧
      (∀ id, id ∈ prs.learnerIds ↔ id ∈ storage.core.snapshot.metadata.confState.nodes ∨
        id ∈ storage.core.snapshot.metadata.confState.learners) ∧
      (r.isLearner = true ↔ cfg.id ∈ storage.core.snapshot.metadata.confState.learners) := by
  have hlog := RaftLog.new_ok h.core
  obtain ⟨hsound, _, hlogical, _, _⟩ := RaftLog.sound_new h.core hlog
  have hlast := hsound.wellFormed.presents.lastIndex
  rw [hlogical] at hlast
  have hpeers : Raft.initialPeers cfg storage.core.snapshot.metadata.confState =
      .ok (storage.core.snapshot.metadata.confState.nodes,
        storage.core.snapshot.metadata.confState.learners) := by
    rw [Raft.initialPeers, if_pos (Or.inl h.some_node), h.no_peers, h.no_learners,
      if_neg (by simp)]
  have hnodup : (storage.core.snapshot.metadata.confState.nodes ++
      storage.core.snapshot.metadata.confState.learners).Nodup := by
    refine List.nodup_append.mpr ⟨h.nodes, h.learners, ?_⟩
    rintro a ha b hb rfl
    exact h.disjoint a ha hb
  have hinit : Storage.initialState storage =
      .ok (.ok ⟨storage.core.hardState, storage.core.snapshot.metadata.confState⟩) := rfl
  have hnew := Raft.newTimed_of_nodup h.validated hinit hlog hpeers hnodup minTimeout maxTimeout
    rng
  obtain ⟨r, es, hrun, hstarted⟩ := Raft.startFrom_run
    (r := Raft.withPeers cfg _ storage.core.snapshot.metadata.confState.nodes
      storage.core.snapshot.metadata.confState.learners minTimeout maxTimeout rng)
    h.hardState hlast h.commit_ge h.commit_le h.applied hrange rfl
  rw [hrun] at hnew
  refine ⟨r, _, hnew, ?_, hstarted.prs, fun id => Raft.mem_startMembers.1,
    fun id => Raft.mem_startMembers.2.1, ?_⟩
  · refine ⟨hstarted.role, hstarted.term, hstarted.vote, ?_, ?_, ?_, ?_, ?_⟩
    · rw [hstarted.log]
    · rw [hstarted.log]
      rfl
    · rw [hstarted.log]
      rfl
    · rw [hstarted.log]
      exact ⟨⟨hsound.wellFormed.store, hsound.wellFormed.unstable, hsound.wellFormed.fits⟩,
        hlogical⟩
    · intro prs id pr hprs hget
      rw [hstarted.prs] at hprs
      cases hprs
      exact Raft.get_resetProgress hget
  · rw [hstarted.isLearner]
    exact decide_eq_true_iff

/-- The new node has no voters, so it is never the node that stopped. -/
theorem not_rebuilds (h : Restartable cfg storage) (hrange : minTimeout < maxTimeout)
    (rng : ℕ → ℕ) : ¬ Rebuilds cfg storage minTimeout maxTimeout rng := by
  rintro ⟨r, hnew, _, hkeeps⟩
  obtain ⟨r', prs, hnew', _, hprs, hvoters, _⟩ := restart_run h hrange rng
  rw [hnew] at hnew'
  cases hnew'
  obtain ⟨prs', hprs', hvoters', _⟩ := hkeeps.members
  rw [hprs] at hprs'
  cases hprs'
  obtain ⟨id, ids, hnodes⟩ := List.exists_cons_of_ne_nil h.some_node
  have hid : id ∈ storage.core.snapshot.metadata.confState.nodes := by
    rw [hnodes]
    exact List.mem_cons_self
  exact hvoters id ((hvoters' id).mpr hid)

end

/-! A node stops in term `1`, with two voters, and starts again. -/

def stoppedStore : MemStorage :=
  { core :=
      { hardState := { term := 1, vote := 1, commit := 1 }
        snapshot := { metadata := { confState := { nodes := [1, 2] } } }
        entries := [{}, { term := 1, index := 1 }] } }

def stoppedConfig : Config :=
  { id := 1, electionTick := 10, heartbeatTick := 1, minElectionTick := 10 }

theorem restartable_stopped : Restartable stoppedConfig stoppedStore where
  core := ⟨by decide, index_of_range' (by decide)⟩
  some_node := by decide
  nodes := by decide
  learners := by decide
  disjoint := by decide
  hardState := by decide
  commit_ge := by decide
  commit_le := by decide
  validated := rfl
  no_peers := rfl
  no_learners := rfl
  applied := Or.inl rfl

theorem not_rebuilds_stopped : Restartable stoppedConfig stoppedStore ∧
    ¬ Rebuilds stoppedConfig stoppedStore 10 20 (fun _ => 0) := by
  refine ⟨restartable_stopped, ?_⟩
  rintro ⟨r, hnew, _, hkeeps⟩
  cases hnew
  obtain ⟨prs, hprs, hvoters, _⟩ := hkeeps.members
  cases hprs
  have hmem := (hvoters 1).mpr (by decide)
  revert hmem
  decide

theorem not_rebuilds_twoVoters : Restartable stoppedConfig stoppedStore ∧ (10 : ℕ) < 20 ∧
    ¬ Rebuilds stoppedConfig stoppedStore 10 20 (fun _ => 0) :=
  ⟨restartable_stopped, by decide, not_rebuilds restartable_stopped (by decide) _⟩

end RsRaft
