import RsRaft.Config
import RsRaft.Run

/-!
# The election timer of a configured node

The election timeout is drawn from the bounds of the configuration, with the
default in place of a bound that is not set. `validate` refuses the default of
the lower bound, and every upper bound that is set. `Raft::new` then takes the
upper bound as it is, unset, and the first draw is from an empty range.

§1 the bounds · §2 the first draw · §3 which configurations work.
-/

namespace RsRaft

/-! ## §1  The bounds -/

namespace Config

/-- The lower bound of the election timeout, its default resolved. -/
def emin (cfg : Config) : ℕ :=
  if cfg.minElectionTick ≠ 0 then cfg.minElectionTick else cfg.electionTick

/-- The upper bound of the election timeout, its default resolved. -/
def emax (cfg : Config) : ℕ :=
  if cfg.maxElectionTick ≠ 0 then cfg.maxElectionTick else 2 * cfg.electionTick

/-- The configurations that make sense. -/
structure Valid (cfg : Config) : Prop where
  id : cfg.id ≠ 0
  heartbeat_pos : 0 < cfg.heartbeatTick
  heartbeat_lt : cfg.heartbeatTick < cfg.electionTick
  emin_ge : cfg.electionTick ≤ cfg.emin
  emin_lt : cfg.emin < cfg.emax
  inflight : 0 < cfg.maxInflightMsgs
  lease : cfg.readOnlyOption = .LeaseBase → cfg.checkQuorum = true

variable {cfg : Config}

theorem Accepted.valid (h : cfg.Accepted) : cfg.Valid := by
  have hmin : cfg.minElectionTick ≠ 0 := by
    have := h.heartbeat_lt
    have := h.min_ge
    omega
  have hemin : cfg.emin = cfg.minElectionTick := if_pos hmin
  have hemax : cfg.emax = 2 * cfg.electionTick := if_neg (not_not_intro h.max_unset)
  refine ⟨h.id, h.heartbeat_pos, h.heartbeat_lt, ?_, ?_, h.inflight, h.lease⟩
  · rw [hemin]
    exact h.min_ge
  · rw [hemin, hemax]
    exact h.min_lt

end Config

/-! ## §2  The first draw -/

/-- The store's own methods do not draw. -/
structure Storage.DrawsNothing {T : Type} [Storage T] (storage : T) : Prop where
  initialState : Storage.initialState storage ≠ .error .emptyRange
  entries : ∀ low high max, Storage.entries storage low high max ≠ .error .emptyRange
  term : ∀ i, Storage.term storage i ≠ .error .emptyRange
  firstIndex : Storage.firstIndex storage ≠ .error .emptyRange
  lastIndex : Storage.lastIndex storage ≠ .error .emptyRange
  snapshot : Storage.snapshot storage ≠ .error .emptyRange

section

variable [ProtoMessage Entry] {cfg : Config}

theorem MemStorage.drawsNothing {storage : MemStorage} (h : storage.core.entries ≠ []) :
    Storage.DrawsNothing storage := by
  obtain ⟨d, es, hd, hdummy, _⟩ := MemStorageCore.dummy_index h
  have hlast := MemStorageCore.innerLastIndex_eq h
  refine ⟨nofun, fun low high max => ?_, fun i => ?_, ?_, ?_, nofun⟩
  · show MemStorage.entries storage low high max ≠ _
    unfold MemStorage.entries sliceVec
    rw [hdummy, hlast]
    simp only [ok_bind]
    split
    · exact nofun
    split
    · exact nofun
    split
    · exact nofun
    split
    · exact nofun
    · exact nofun
  · show MemStorage.term storage i ≠ _
    unfold MemStorage.term
    rw [hdummy]
    simp only [ok_bind]
    split
    · exact nofun
    split
    · exact nofun
    split
    · exact nofun
    · exact nofun
  · show MemStorage.firstIndex storage ≠ _
    unfold MemStorage.firstIndex
    rw [hdummy]
    exact nofun
  · show MemStorage.lastIndex storage ≠ _
    unfold MemStorage.lastIndex
    rw [hlast]
    exact nofun

namespace Raft

variable {T : Type} [Storage T]

omit [ProtoMessage Entry] in
/-- Over an empty range a follower cannot be made. -/
theorem becomeFollower_emptyRange {r : Raft T} (h : r.maxElectionTimeout ≤ r.minElectionTimeout)
    (leader : ℕ) : (becomeFollower r.term leader r).value = .error .emptyRange := by
  unfold becomeFollower reset resetRandomizedElectionTimeout
  simp [Nat.not_lt_of_le h]

/-- A start that neither draws nor returns a node. -/
def Undrawn (x : Except Panic (Result (Raft T))) : Prop :=
  x ≠ .error .emptyRange ∧ ∀ r, x ≠ .ok (.ok r)

omit [ProtoMessage Entry] [Storage T] in
theorem Undrawn.bind {α : Type} {x : Except Panic α} {f : α → Except Panic (Result (Raft T))}
    (hx : x ≠ .error .emptyRange) (hf : ∀ a, x = .ok a → Undrawn (f a)) : Undrawn (x >>= f) := by
  cases x with
  | error p =>
      refine ⟨fun hno => hx (congrArg _ (Except.error.inj hno)), fun r hno => ?_⟩
      cases hno
  | ok a => exact hf a rfl

omit [ProtoMessage Entry] [Storage T] in
theorem undrawn_refused (e : Error) :
    Undrawn (.ok (.error e) : Except Panic (Result (Raft T))) := by
  refine ⟨nofun, fun r hno => ?_⟩
  cases hno

omit [ProtoMessage Entry] in
theorem new_ne_emptyRange {storage : T} (hstore : Storage.DrawsNothing storage) :
    RaftLog.new storage ≠ .error .emptyRange := by
  unfold RaftLog.new
  refine bind_ne_error (unwrap_ne_error hstore.firstIndex nofun) fun first => ?_
  exact bind_ne_error (unwrap_ne_error hstore.lastIndex nofun) fun last => nofun

omit [ProtoMessage Entry] in
/-- A configuration that lists an id twice never gets as far as drawing. -/
theorem undrawn_of_not_nodup (hdup : ¬ (cfg.peers ++ cfg.learners).Nodup) {storage : T}
    (hstore : Storage.DrawsNothing storage) (minTimeout maxTimeout : ℕ) (rng : ℕ → ℕ) :
    Undrawn (newTimed cfg storage minTimeout maxTimeout rng) := by
  have hlists : cfg.peers ≠ [] ∨ cfg.learners ≠ [] := by
    by_contra hnone
    rw [not_or, not_not, not_not] at hnone
    rw [hnone.1, hnone.2] at hdup
    exact hdup List.nodup_nil
  unfold newTimed
  split
  · exact undrawn_refused _
  refine Undrawn.bind hstore.initialState fun res _ => ?_
  split
  · exact undrawn_refused _
  rename_i rs _
  refine Undrawn.bind (new_ne_emptyRange hstore) fun raftLog _ => ?_
  refine Undrawn.bind ?_ fun lists hpeers => ?_
  · rw [initialPeers, if_pos hlists]
    split
    · exact nofun
    · exact nofun
  · -- with lists of its own, the configuration's are the ones inserted
    have hown : lists = (cfg.peers, cfg.learners) := by
      rw [initialPeers, if_pos hlists] at hpeers
      split at hpeers
      · cases hpeers
      · exact (Except.ok.inj hpeers).symm
    subst hown
    obtain ⟨err, r', hrun⟩ := startUp_of_not_nodup
      (r := fromConfig cfg raftLog cfg.peers cfg.learners minTimeout maxTimeout rng)
      cfg.applied rs.hardState hdup
    have hstart : (startUp cfg.applied rs.hardState cfg.peers cfg.learners
        (fromConfig cfg raftLog cfg.peers cfg.learners minTimeout maxTimeout rng)).value =
        .error (.peerNotInserted err) := congrArg Outcome.value hrun
    refine Undrawn.bind ?_ fun u hu => ?_
    · rw [hstart]
      exact nofun
    · rw [hstart] at hu
      cases hu

/-- A store of nothing but the entry applied last. -/
def storedAt (applied : ℕ) : MemStorage := { core := { entries := [{ index := applied }] } }

/-- Any other configuration that passes draws from an empty range. -/
theorem new_storedAt (h : cfg.Accepted) (hnodup : (cfg.peers ++ cfg.learners).Nodup)
    (rng : ℕ → ℕ) : new cfg (storedAt cfg.applied) rng = .error .emptyRange := by
  have hlog : RaftLog.new (storedAt cfg.applied) = .ok
      { store := storedAt cfg.applied
        unstable := Unstable.new (cfg.applied + 1)
        committed := cfg.applied
        applied := cfg.applied } := by
    have hfirst : Storage.firstIndex (storedAt cfg.applied) = .ok (.ok (cfg.applied + 1)) := rfl
    have hlast : Storage.lastIndex (storedAt cfg.applied) = .ok (.ok cfg.applied) := rfl
    rw [RaftLog.new, hfirst, hlast, unwrap_ok, unwrap_ok, ok_bind, ok_bind,
      wrappingSub_of_le (Nat.le_add_left _ _)]
    rfl
  have hinit : Storage.initialState (storedAt cfg.applied) = .ok (.ok ⟨{}, {}⟩) := rfl
  have hpeers : initialPeers cfg {} = .ok (cfg.peers, cfg.learners) := rfl
  -- nothing before the first draw stops the start
  have hvalue : ∀ r : Raft MemStorage, r.raftLog.committed = cfg.applied →
      r.raftLog.applied = cfg.applied → r.maxElectionTimeout ≤ r.minElectionTimeout →
      (startFrom cfg.applied {} r).value = .error .emptyRange := by
    intro r hcommitted happlied hrange
    have hto := startApplied_run (r := r)
      (Or.inr ⟨Nat.le_of_eq happlied, Nat.le_of_eq hcommitted.symm⟩)
    have hstate : startState {} r = ⟨.ok (), r, []⟩ := rfl
    unfold startFrom
    rw [Call.bind_ok hstate, Outcome.after_nil, Call.bind_ok hto, Outcome.after_nil,
      Call.read_bind_run]
    refine becomeFollower_emptyRange ?_ INVALID_ID
    exact hrange
  have hmax : cfg.maxElectionTick ≤ cfg.minElectionTick := by
    rw [h.max_unset]
    exact Nat.zero_le _
  rw [new, newTimed_of_nodup ((Config.validate_ok_iff cfg).mpr h) hinit hlog hpeers hnodup]
  dsimp only
  rw [hvalue _ rfl rfl hmax]
  rfl

/-! ## §3  Which configurations work -/

end Raft

namespace Config

/-- `validate` accepts the configuration exactly if it makes sense, and if so, no node
that starts with it ever draws from an empty range, and the timeout of every node that
has started stays within its bounds. -/
structure TimerWorks (cfg : Config) : Prop where
  validates : cfg.validate = .ok () ↔ cfg.Valid
  starts : cfg.validate = .ok () → ∀ (T : Type) [Storage T] (storage : T) (rng : ℕ → ℕ),
    Storage.DrawsNothing storage → Raft.new cfg storage rng ≠ .error .emptyRange
  runs : cfg.validate = .ok () → ∀ (T : Type) [Storage T] (storage : T) (rng : ℕ → ℕ)
    (r : Raft T), Storage.DrawsNothing storage → Raft.new cfg storage rng = .ok (.ok r) →
    ∀ is, (Raft.run is r).value ≠ .error .emptyRange ∧
      cfg.emin ≤ (Raft.run is r).state.randomizedElectionTimeout ∧
      (Raft.run is r).state.randomizedElectionTimeout < cfg.emax

/-- A configuration works only if it is refused rightly, or lists an id twice and so
never starts a node. -/
theorem timerWorks_iff (cfg : Config) :
    cfg.TimerWorks ↔
      ¬ cfg.Valid ∨ (cfg.Accepted ∧ ¬ (cfg.peers ++ cfg.learners).Nodup) := by
  constructor
  · intro h
    by_cases hvalid : cfg.Valid
    · have hok := h.validates.mpr hvalid
      have hacc := (validate_ok_iff cfg).mp hok
      refine Or.inr ⟨hacc, fun hnodup => ?_⟩
      exact h.starts hok MemStorage (Raft.storedAt cfg.applied) (fun _ => 0)
        (MemStorage.drawsNothing (List.cons_ne_nil _ _)) (Raft.new_storedAt hacc hnodup _)
    · exact Or.inl hvalid
  · rintro (hinvalid | ⟨hacc, hdup⟩)
    · have hno : cfg.validate ≠ .ok () :=
        fun hok => hinvalid ((validate_ok_iff cfg).mp hok).valid
      exact ⟨iff_of_false hno hinvalid, fun hok => absurd hok hno, fun hok => absurd hok hno⟩
    · have hundrawn := fun (T : Type) [Storage T] (storage : T) (rng : ℕ → ℕ)
          (hstore : Storage.DrawsNothing storage) =>
        Raft.undrawn_of_not_nodup hdup hstore cfg.minElectionTick cfg.maxElectionTick rng
      refine ⟨iff_of_true ((validate_ok_iff cfg).mpr hacc) hacc.valid, ?_, ?_⟩
      · intro _ T _ storage rng hstore
        exact (hundrawn T storage rng hstore).1
      · intro _ T _ storage rng r hstore hnew
        exact absurd hnew ((hundrawn T storage rng hstore).2 r)

end Config

end

/-! The default of every bound is refused, and the configuration that passes panics. -/

def defaultBounds : Config := { id := 1 }

def lowerBoundSet : Config :=
  { id := 1, electionTick := 10, heartbeatTick := 1, minElectionTick := 10 }

theorem not_timerWorks_bounds :
    (defaultBounds.Valid ∧ defaultBounds.validate ≠ .ok () ∧ ¬ defaultBounds.TimerWorks) ∧
      lowerBoundSet.Valid ∧ lowerBoundSet.validate = .ok () ∧
        Raft.new lowerBoundSet ({} : MemStorage) (fun _ => 0) = .error .emptyRange ∧
        ¬ lowerBoundSet.TimerWorks := by
  have hdefault : defaultBounds.Valid :=
    ⟨by decide, by decide, by decide, by decide, by decide, by decide, by decide⟩
  have hlower : lowerBoundSet.Valid :=
    ⟨by decide, by decide, by decide, by decide, by decide, by decide, by decide⟩
  have hrefused : defaultBounds.validate ≠ .ok () := by
    rw [ne_eq, Config.validate_ok_iff]
    exact fun h => absurd h.min_ge (by decide)
  have hpassed : lowerBoundSet.validate = .ok () := rfl
  have hempty : Raft.new lowerBoundSet ({} : MemStorage) (fun _ => 0) = .error .emptyRange := rfl
  refine ⟨⟨hdefault, hrefused, fun h => hrefused (h.validates.mpr hdefault)⟩, hlower, hpassed,
    hempty, fun h => ?_⟩
  exact h.starts hpassed MemStorage {} (fun _ => 0)
    (MemStorage.drawsNothing (List.cons_ne_nil _ _)) hempty

end RsRaft
