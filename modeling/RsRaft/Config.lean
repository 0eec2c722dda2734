import RsRaft.Joining

/-!
# `config.rs`, and the node a configuration makes

`Config` keeps the tick counts it was given; `0` for a bound of the election
timeout stands for a default. The accessors resolve the defaults and `validate`
checks what they return, while `Raft::new` takes the fields as they are. Left out
are the fields that reach no modelled function, `tag` and `skip_bcast_commit`.

§1 the configuration · §2 its validation · §3 starting a node · §4 its peers.
-/

namespace RsRaft

/-! ## §1  The configuration -/

structure Config where
  id : ℕ := 0
  peers : List ℕ := []
  learners : List ℕ := []
  electionTick : ℕ := 20
  heartbeatTick : ℕ := 2
  applied : ℕ := 0
  maxSizePerMsg : ℕ := 0
  maxInflightMsgs : ℕ := 256
  checkQuorum : Bool := false
  preVote : Bool := false
  minElectionTick : ℕ := 0
  maxElectionTick : ℕ := 0
  readOnlyOption : ReadOnlyOption := .Safe
deriving DecidableEq, Repr

namespace Config

/-- The id given only reaches the tag. -/
def new (_id : ℕ) : Config := { id := 0 }

/-- `min_election_tick()`: the test is on `election_tick`, not on the field that may be unset. -/
def minElectionTick' (cfg : Config) : ℕ :=
  if cfg.electionTick = 0 then cfg.electionTick else cfg.minElectionTick

/-- `max_election_tick()`: a bound that was set is not the one returned. -/
def maxElectionTick' (cfg : Config) : ℕ :=
  if cfg.maxElectionTick = 0 then 2 * cfg.electionTick else cfg.electionTick

def validate (cfg : Config) : Result Unit :=
  if cfg.id = INVALID_ID then .error (.ConfigInvalid "invalid node id")
  else if cfg.heartbeatTick ≤ 0 then
    .error (.ConfigInvalid "heartbeat tick must be greater than 0")
  else if cfg.electionTick ≤ cfg.heartbeatTick then
    .error (.ConfigInvalid "election tick must be greater than heartbeat tick")
  else
    let minTimeout := cfg.minElectionTick'
    let maxTimeout := cfg.maxElectionTick'
    let electionTick := cfg.electionTick
    if minTimeout < electionTick then
      .error (.ConfigInvalid
        s!"min election tick {minTimeout} must not be less than election tick {electionTick}")
    else if minTimeout ≥ maxTimeout then
      .error (.ConfigInvalid
        s!"min election tick {minTimeout} should be less than max election tick {maxTimeout}")
    else if cfg.maxInflightMsgs ≤ 0 then
      .error (.ConfigInvalid "max inflight messages must be greater than 0")
    else if cfg.readOnlyOption = .LeaseBase ∧ ¬ cfg.checkQuorum then
      .error (.ConfigInvalid "read_only_option == LeaseBase requires check_quorum == true")
    else .ok ()

/-! ## §2  Its validation -/

/-- What `validate` lets through: the upper bound of the election timeout has to be unset. -/
structure Accepted (cfg : Config) : Prop where
  id : cfg.id ≠ INVALID_ID
  heartbeat_pos : 0 < cfg.heartbeatTick
  heartbeat_lt : cfg.heartbeatTick < cfg.electionTick
  min_ge : cfg.electionTick ≤ cfg.minElectionTick
  max_unset : cfg.maxElectionTick = 0
  min_lt : cfg.minElectionTick < 2 * cfg.electionTick
  inflight : 0 < cfg.maxInflightMsgs
  lease : cfg.readOnlyOption = .LeaseBase → cfg.checkQuorum = true

theorem validate_ok_iff (cfg : Config) : cfg.validate = .ok () ↔ cfg.Accepted := by
  constructor
  · intro h
    unfold validate at h
    split at h
    · cases h
    rename_i hid
    split at h
    · cases h
    rename_i hpos
    split at h
    · cases h
    rename_i hlt
    have hmin : cfg.minElectionTick' = cfg.minElectionTick := if_neg (by omega)
    rw [hmin] at h
    dsimp only at h
    split at h
    · cases h
    rename_i hge
    split at h
    · cases h
    rename_i hmax
    split at h
    · cases h
    rename_i hinflight
    split at h
    · cases h
    rename_i hlease
    -- a bound that is set would have to lie above itself
    have hunset : cfg.maxElectionTick = 0 := by
      by_contra hset
      rw [maxElectionTick', if_neg hset] at hmax
      omega
    rw [maxElectionTick', if_pos hunset] at hmax
    refine ⟨hid, by omega, by omega, by omega, hunset, by omega, by omega, fun heq => ?_⟩
    by_contra hoff
    exact hlease ⟨heq, hoff⟩
  · intro h
    have hpos := h.heartbeat_pos
    have hlt := h.heartbeat_lt
    have hge := h.min_ge
    have hmax := h.min_lt
    have hinflight := h.inflight
    have hmin : cfg.minElectionTick' = cfg.minElectionTick := if_neg (by omega)
    have hunset : cfg.maxElectionTick' = 2 * cfg.electionTick := if_pos h.max_unset
    unfold validate
    rw [hmin, hunset, if_neg h.id, if_neg (by omega), if_neg (by omega)]
    dsimp only
    rw [if_neg (by omega), if_neg (by omega), if_neg (by omega),
      if_neg fun hno => hno.2 (h.lease hno.1)]

/-- No configuration made by `new` passes, whatever id it was made for. -/
theorem validate_new (id : ℕ) :
    (new id).validate = .error (.ConfigInvalid "invalid node id") := rfl

end Config

/-! ## §3  Starting a node -/

namespace Raft

variable {T : Type} [Storage T]

def loadState (hs : HardState) : Call Panic Event (Raft T) Unit := do
  let self ← Call.read
  let last ← Call.lift self.raftLog.lastIndex
  if hs.commit < self.raftLog.committed ∨ hs.commit > last then
    Call.panic (.hardStateOutOfRange hs.commit self.raftLog.committed last)
  else
    Call.modify fun self =>
      { self with
        raftLog := { self.raftLog with committed := hs.commit }
        term := hs.term
        vote := hs.vote }
    Call.emit (.hardState hs.term hs.vote)

omit [Storage T] in
/-- One peer of `Raft::new`. Both loops of the source insert learners. -/
def addPeer (peer : ℕ) : Call Panic Event (Raft T) Unit := do
  let self ← Call.read
  let prs ← getPrs
  let r ← Call.lift (prs.insertLearner peer (Progress.new 1 self.maxInflight))
  setPrs r.2
  match r.1 with
  | .ok () => pure ()
  | .error e => Call.panic (.peerNotInserted e)

omit [Storage T] in
/-- One learner of `Raft::new`. -/
def addLearner (learner : ℕ) : Call Panic Event (Raft T) Unit := do
  addPeer learner
  let self ← Call.read
  if learner = self.id then Call.modify fun self => { self with isLearner := true }
  else pure ()

/-- The hard state is loaded if there is one. -/
def startState (hs : HardState) : Call Panic Event (Raft T) Unit :=
  if hs ≠ {} then loadState hs else pure ()

omit [Storage T] in
/-- `0` stands for an applied index that is not known. -/
def startApplied (applied : ℕ) : Call Panic Event (Raft T) Unit :=
  if applied > 0 then do
    let self ← Call.read
    let log ← Call.lift (self.raftLog.appliedTo applied)
    Call.modify fun self => { self with raftLog := log }
  else pure ()

/-- `Raft::new` behind its loops. -/
def startFrom (applied : ℕ) (hs : HardState) : Call Panic Event (Raft T) Unit := do
  startState hs
  startApplied applied
  let self ← Call.read
  becomeFollower self.term INVALID_ID

/-- `Raft::new` behind the construction of the node. -/
def startUp (applied : ℕ) (hs : HardState) (peers learners : List ℕ) :
    Call Panic Event (Raft T) Unit := do
  peers.forM addPeer
  learners.forM addLearner
  startFrom applied hs

omit [Storage T] in
/-- The node `Raft::new` constructs, with the bounds of its election timeout. -/
def fromConfig (cfg : Config) (raftLog : RaftLog T) (peers learners : List ℕ)
    (minTimeout maxTimeout : ℕ) (rng : ℕ → ℕ) : Raft T where
  id := cfg.id
  raftLog := raftLog
  maxInflight := cfg.maxInflightMsgs
  maxMsgSize := cfg.maxSizePerMsg
  prs := some (ProgressSet.withCapacity peers.length learners.length)
  readOnly := ReadOnly.new cfg.readOnlyOption
  checkQuorum := cfg.checkQuorum
  preVote := cfg.preVote
  heartbeatTimeout := cfg.heartbeatTick
  electionTimeout := cfg.electionTick
  minElectionTimeout := minTimeout
  maxElectionTimeout := maxTimeout
  rng := rng

/-- The peers and learners of the configuration, or those of the store. -/
def initialPeers (cfg : Config) (cs : ConfState) : Except Panic (List ℕ × List ℕ) :=
  if cs.nodes ≠ [] ∨ cs.learners ≠ [] then
    if cfg.peers ≠ [] ∨ cfg.learners ≠ [] then .error .peersSpecifiedTwice
    else .ok (cs.nodes, cs.learners)
  else .ok (cfg.peers, cfg.learners)

/-- `Raft::new`, with the bounds of the election timeout it hands to the node. -/
def newTimed (cfg : Config) (storage : T) (minTimeout maxTimeout : ℕ) (rng : ℕ → ℕ) :
    Except Panic (Result (Raft T)) := do
  match cfg.validate with
  | .error e => pure (.error e)
  | .ok () =>
      match ← Storage.initialState storage with
      | .error e => pure (.error e)
      | .ok rs => do
          let raftLog ← RaftLog.new storage
          let (peers, learners) ← initialPeers cfg rs.confState
          let raft := fromConfig cfg raftLog peers learners minTimeout maxTimeout rng
          let started := startUp cfg.applied rs.hardState peers learners raft
          let () ← started.value
          pure (.ok started.state)

/-- `Raft::new`. The bounds are the fields, not what the accessors return. -/
def new (cfg : Config) (storage : T) (rng : ℕ → ℕ) : Except Panic (Result (Raft T)) :=
  newTimed cfg storage cfg.minElectionTick cfg.maxElectionTick rng

/-! ## §4  Its peers -/

variable {r : Raft T} {peers learners : List ℕ}

omit [Storage T] in
theorem joins_addPeer (r : Raft T) :
    Joins r true (fun _ => Progress.new 1 r.maxInflight) (fun b _ => b) addPeer := by
  intro b prs n hwf hn
  have hinsert := hwf.insert_run hn true (Progress.new 1 r.maxInflight)
  rw [if_pos rfl] at hinsert
  have hinflight : (r.withMembers b prs).maxInflight = r.maxInflight := rfl
  unfold addPeer
  rw [Call.read_bind_run, Call.bind_ok (getPrs_run (r := r.withMembers b prs) rfl),
    Outcome.after_nil, hinflight, hinsert, Call.lift_ok_bind_run]
  rfl

omit [Storage T] in
/-- Nobody is inserted twice. -/
theorem addPeer_stops (b : Bool) {prs : ProgressSet} {n : ℕ} (hn : n ∈ prs.progress) :
    ∃ err, addPeer n (r.withMembers b prs) =
      ⟨.error (.peerNotInserted err), r.withMembers b prs, []⟩ := by
  have hinsert : ∃ err, prs.insertLearner n
      (Progress.new 1 (r.withMembers b prs).maxInflight) = .ok (.error err, prs) := by
    rw [ProgressSet.insertLearner, if_pos hn]
    split
    · exact ⟨_, rfl⟩
    · exact ⟨_, rfl⟩
  obtain ⟨err, hinsert⟩ := hinsert
  refine ⟨err, ?_⟩
  unfold addPeer
  rw [Call.read_bind_run, Call.bind_ok (getPrs_run (r := r.withMembers b prs) rfl),
    Outcome.after_nil, hinsert, Call.lift_ok_bind_run]
  rfl

omit [Storage T] in
theorem joins_addLearner (r : Raft T) :
    Joins r true (fun _ => Progress.new 1 r.maxInflight)
      (fun b n => if n = r.id then true else b) addLearner := by
  intro b prs n hwf hn
  unfold addLearner
  rw [Call.bind_ok (joins_addPeer r b prs n hwf hn), Outcome.after_nil, Call.read_bind_run,
    withMembers_id]
  by_cases hid : n = r.id
  · simp only [if_pos hid]
    rfl
  · simp only [if_neg hid]
    rfl

/-- The members `Raft::new` starts with. -/
def startMembers (r : Raft T) (peers learners : List ℕ) : ProgressSet :=
  (ProgressSet.withCapacity peers.length learners.length).joined true
    (fun _ => Progress.new 1 r.maxInflight) (peers ++ learners)

/-- With every id listed once, all peers become learners. -/
theorem startUp_of_nodup (applied : ℕ) (hs : HardState) (hnodup : (peers ++ learners).Nodup) :
    startUp applied hs peers learners
        (r.withMembers false (ProgressSet.withCapacity peers.length learners.length)) =
      startFrom applied hs
        (r.withMembers (decide (r.id ∈ learners)) (r.startMembers peers learners)) := by
  have hempty := ProgressSet.wellFormed_withCapacity peers.length learners.length
  obtain ⟨hpeers, hlearners⟩ := ProgressSet.newMembers_append.mp
    ((ProgressSet.newMembers_withCapacity peers.length learners.length).mpr hnodup)
  have hrun₁ := (joins_addPeer r).forM (b := false) hempty hpeers
  have hrun₂ := (joins_addLearner r).forM (b := false) (hempty.joined hpeers) hlearners
  rw [List.foldl_fixed] at hrun₁
  rw [foldl_mark, ← ProgressSet.joined_append, Bool.if_true_left, Bool.or_false] at hrun₂
  unfold startUp
  rw [Call.bind_ok hrun₁, Outcome.after_nil, Call.bind_ok hrun₂, Outcome.after_nil]
  rfl

/-- The node with the applied index taken over. -/
def withApplied (r : Raft T) (applied : ℕ) : Raft T :=
  { r with raftLog := { r.raftLog with applied := max r.raftLog.applied applied } }

omit [Storage T] in
/-- An applied index between the log's and the commit index is taken over. -/
theorem startApplied_run {applied : ℕ}
    (h : applied = 0 ∨ r.raftLog.applied ≤ applied ∧ applied ≤ r.raftLog.committed) :
    startApplied applied r = ⟨.ok (), r.withApplied applied, []⟩ := by
  unfold startApplied withApplied
  by_cases hpos : applied > 0
  · obtain ⟨hlow, hhigh⟩ := h.resolve_left (by omega)
    rw [if_pos hpos, Call.read_bind_run, RaftLog.appliedTo, if_neg (by omega), if_neg (by omega),
      pure_eq_ok, Call.lift_ok_bind_run, Nat.max_eq_right hlow]
    rfl
  · rw [if_neg hpos, show applied = 0 by omega, Nat.max_zero]
    rfl

/-- The node behind the loops. -/
def withPeers (cfg : Config) (raftLog : RaftLog T) (peers learners : List ℕ)
    (minTimeout maxTimeout : ℕ) (rng : ℕ → ℕ) : Raft T :=
  let raft := fromConfig cfg raftLog peers learners minTimeout maxTimeout rng
  raft.withMembers (decide (cfg.id ∈ learners)) (raft.startMembers peers learners)

/-- What `new` comes down to where the store answers and the peers fit together. -/
theorem newTimed_of_nodup {cfg : Config} {storage : T} {rs : RaftState} {raftLog : RaftLog T}
    (hvalid : cfg.validate = .ok ()) (hinit : Storage.initialState storage = .ok (.ok rs))
    (hlog : RaftLog.new storage = .ok raftLog)
    (hpeers : initialPeers cfg rs.confState = .ok (peers, learners))
    (hnodup : (peers ++ learners).Nodup) (minTimeout maxTimeout : ℕ) (rng : ℕ → ℕ) :
    newTimed cfg storage minTimeout maxTimeout rng =
      let started := startFrom cfg.applied rs.hardState
        (withPeers cfg raftLog peers learners minTimeout maxTimeout rng)
      started.value.map fun _ => .ok started.state := by
  have hstart : startUp cfg.applied rs.hardState peers learners
      (fromConfig cfg raftLog peers learners minTimeout maxTimeout rng) =
      startFrom cfg.applied rs.hardState
        (withPeers cfg raftLog peers learners minTimeout maxTimeout rng) :=
    startUp_of_nodup (r := fromConfig cfg raftLog peers learners minTimeout maxTimeout rng)
      cfg.applied rs.hardState hnodup
  unfold newTimed
  rw [hvalid]
  dsimp only
  rw [hinit, ok_bind]
  dsimp only
  rw [hlog, ok_bind, hpeers, ok_bind, ← hstart]
  cases (startUp cfg.applied rs.hardState peers learners
    (fromConfig cfg raftLog peers learners minTimeout maxTimeout rng)).value with
  | error p => rfl
  | ok u => rfl

/-- An id listed twice stops the start. -/
theorem startUp_of_not_nodup (applied : ℕ) (hs : HardState)
    (hdup : ¬ (peers ++ learners).Nodup) :
    ∃ err r', startUp applied hs peers learners
        (r.withMembers false (ProgressSet.withCapacity peers.length learners.length)) =
      ⟨.error (.peerNotInserted err), r', []⟩ := by
  have hempty := ProgressSet.wellFormed_withCapacity peers.length learners.length
  have happend : (ProgressSet.withCapacity peers.length learners.length).NewMembers
      (peers ++ learners) ↔
      (ProgressSet.withCapacity peers.length learners.length).NewMembers peers ∧
        ((ProgressSet.withCapacity peers.length learners.length).joined true
          (fun _ => Progress.new 1 r.maxInflight) peers).NewMembers learners :=
    ProgressSet.newMembers_append
  rw [← ProgressSet.newMembers_withCapacity peers.length learners.length, happend,
    not_and_or] at hdup
  have hstopPeer : ∀ b prs n, prs.WellFormed → n ∈ prs.progress →
      ∃ e r', addPeer n (r.withMembers b prs) = ⟨.error e, r', []⟩ ∧
        ∃ err, e = .peerNotInserted err := by
    intro b prs n _ hn
    obtain ⟨err, hrun⟩ := addPeer_stops b hn
    exact ⟨_, _, hrun, err, rfl⟩
  have hstopLearner : ∀ b prs n, prs.WellFormed → n ∈ prs.progress →
      ∃ e r', addLearner n (r.withMembers b prs) = ⟨.error e, r', []⟩ ∧
        ∃ err, e = .peerNotInserted err := by
    intro b prs n _ hn
    obtain ⟨err, hrun⟩ := addPeer_stops b hn
    exact ⟨_, _, Call.bind_error hrun, err, rfl⟩
  unfold startUp
  by_cases hpeers : ProgressSet.NewMembers
      (ProgressSet.withCapacity peers.length learners.length) peers
  · have hrun₁ := (joins_addPeer r).forM (b := false) hempty hpeers
    rw [List.foldl_fixed] at hrun₁
    obtain ⟨_, r', hrun₂, err, rfl⟩ := (joins_addLearner r).stops (b := false) hstopLearner
      (hempty.joined hpeers) (hdup.resolve_left (not_not_intro hpeers))
    refine ⟨err, r', ?_⟩
    rw [Call.bind_ok hrun₁, Outcome.after_nil, Call.bind_error hrun₂]
  · obtain ⟨_, r', hrun₁, err, rfl⟩ := (joins_addPeer r).stops (b := false) hstopPeer
      hempty hpeers
    refine ⟨err, r', ?_⟩
    rw [Call.bind_error hrun₁]

end Raft

end RsRaft
