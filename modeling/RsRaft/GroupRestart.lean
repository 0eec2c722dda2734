import RsRaft.GroupElections
import RsRaft.Restart

/-!
# Starting over in a group

A node that has stored its log and its hard state is stopped, and `Raft::new` starts it
again over the store. For the group it is the same member: it has its term, its vote and
its log. It has lost its role, and, since `Raft::new` inserts the voters as learners, the
voters, and so it never campaigns again.

A node that is stopped with something not stored is one whose last calls were not made,
as long as what they queued is sent only once it is stored.

§1 the call · §2 a start that returns · §3 the member it was.
-/

namespace RsRaft

open PlainLog Call Raft

/-! ## §1  The call -/

/-- Start over the own store. What was sent stays on its way, and a start that is refused
leaves the node stopped where it was. -/
def Raft.restart (cfg : Config) (minTimeout maxTimeout : ℕ) (rng : ℕ → ℕ) :
    Call Panic Event (Raft MemStorage) Unit := do
  let self ← Call.read
  let store : MemStorage :=
    { core := self.raftLog.store.core.setHardState self.hardState }
  match ← Call.lift (Raft.newTimed cfg store minTimeout maxTimeout rng) with
  | .error _ => pure ()
  | .ok node => Call.modify fun self => { node with msgs := self.msgs }

section

variable {cfg : Config} {storage : MemStorage} {minTimeout maxTimeout applied : ℕ}
  {rng : ℕ → ℕ} {r r' : Raft MemStorage} {hs : HardState} {prs : ProgressSet}

/-! ## §2  A start that returns -/

/-- What a start leaves of the node behind the loops, if it returns. -/
structure Resumes (r : Raft MemStorage) (hs : HardState) (prs : ProgressSet)
    (r' : Raft MemStorage) : Prop where
  id : r'.id = r.id
  role : r'.state = .FOLLOWER
  term : r'.term = hs.term
  vote : r'.vote = hs.vote
  prs : ∃ last, r'.prs = some (resetProgress prs r.id last)
  sound : r'.raftLog.Sound
  snapshot : r'.raftLog.unstable.snapshot = r.raftLog.unstable.snapshot
  logical : r'.raftLog.logical = r.raftLog.logical
  committed : r'.raftLog.committed = hs.commit

/-- Without a hard state the node begins as it is. -/
theorem startState_loaded {last : ℕ} (hlast : r.raftLog.lastIndex = .ok last)
    (hterm : r.term = 0) (hvote : r.vote = 0) (hge : r.raftLog.committed ≤ hs.commit)
    (hle : hs.commit ≤ last) : ∃ es, startState hs r = ⟨.ok (), r.loaded hs, es⟩ := by
  by_cases hne : hs ≠ {}
  · exact ⟨_, startState_run hne hlast hge hle⟩
  · obtain rfl : hs = {} := not_not.mp hne
    have hzero : r.raftLog.committed = 0 := Nat.le_zero.mp hge
    have hsame : r.loaded {} = r := by
      rcases r with ⟨_, _, _, _, ⟨⟩⟩
      simp only at hterm hvote hzero
      subst hterm hvote hzero
      rfl
    refine ⟨[], ?_⟩
    unfold startState
    rw [hsame, if_neg hne]
    rfl

theorem does_startFrom {es : List Event} (hstate : startState hs r = ⟨.ok (), r.loaded hs, es⟩)
    (hsound : (r.loaded hs).raftLog.Sound) (hprs : r.prs = some prs) :
    Does ending r (startFrom applied hs) (fun _ r' => Resumes r hs prs r') := by
  unfold startFrom
  refine Does.bind (Q := fun _ r₁ => r₁ = r.loaded hs) (Does.of_ok hstate trivial rfl) ?_
  rintro _ _ rfl
  refine Does.bind (Q := fun _ r₂ => ∃ log, r₂ = { r.loaded hs with raftLog := log } ∧
    log.Sound ∧ log.unstable.snapshot = r.raftLog.unstable.snapshot ∧
    log.logical = r.raftLog.logical ∧ log.committed = hs.commit) ?_ ?_
  · unfold startApplied
    refine Does.ite (fun _ => ?_) fun _ => Does.pure ⟨_, rfl, hsound, rfl, rfl, rfl⟩
    refine Does.read_bind (Does.lift_bind fun log hlog => ?_)
    obtain ⟨hsound', hsnap, hlogical, hcommitted⟩ := hsound.apply hlog
    exact Does.of_ok (a := ()) rfl trivial ⟨log, rfl, hsound', hsnap, hlogical, hcommitted⟩
  · rintro _ _ ⟨log, rfl, hsound', hsnap, hlogical, hcommitted⟩
    refine Does.read_bind ?_
    rcases reset_cases hs.term { r.loaded hs with raftLog := log } with
      ⟨last, prs', _, hprs', hreset⟩ | ⟨p, r₃, hreset, _⟩
    · cases hprs.symm.trans hprs'
      exact Does.of_ok (becomeFollower_ok hreset INVALID_ID) trivial
        { id := rfl
          role := rfl
          term := rfl
          vote := if_pos rfl
          prs := ⟨last, rfl⟩
          sound := hsound'
          snapshot := hsnap
          logical := hlogical
          committed := hcommitted }
    · exact Does.of_error (bind_error hreset) trivial

/-- A start that returns a node has come through both loops, where nobody is listed twice. -/
theorem newTimed_inv {rs : RaftState} (hinit : Storage.initialState storage = .ok (.ok rs))
    (hrun : Raft.newTimed cfg storage minTimeout maxTimeout rng = .ok (.ok r')) :
    ∃ log peers learners es, RaftLog.new storage = .ok log ∧ (peers ++ learners).Nodup ∧
      startFrom cfg.applied rs.hardState
        (withPeers cfg log peers learners minTimeout maxTimeout rng) = ⟨.ok (), r', es⟩ := by
  unfold Raft.newTimed at hrun
  cases hvalid : cfg.validate with
  | error e =>
      rw [hvalid] at hrun
      cases hrun
  | ok _ =>
      rw [hvalid] at hrun
      dsimp only at hrun
      rw [hinit, ok_bind] at hrun
      dsimp only at hrun
      obtain ⟨log, hlog, hrun⟩ := bind_eq_ok hrun
      obtain ⟨⟨peers, learners⟩, _, hrun⟩ := bind_eq_ok hrun
      obtain ⟨_, hvalue, hrun⟩ := bind_eq_ok hrun
      cases hrun
      refine ⟨log, peers, learners, ?_⟩
      by_cases hnodup : (peers ++ learners).Nodup
      · have hstart : startUp cfg.applied rs.hardState peers learners
            (fromConfig cfg log peers learners minTimeout maxTimeout rng) =
            startFrom cfg.applied rs.hardState
              (withPeers cfg log peers learners minTimeout maxTimeout rng) :=
          startUp_of_nodup (r := fromConfig cfg log peers learners minTimeout maxTimeout rng)
            cfg.applied rs.hardState hnodup
        dsimp only at hvalue ⊢
        rw [hstart] at hvalue ⊢
        cases hfrom : startFrom cfg.applied rs.hardState
            (withPeers cfg log peers learners minTimeout maxTimeout rng) with
        | mk x r₁ es =>
            rw [hfrom] at hvalue
            cases hvalue
            exact ⟨es, hlog, hnodup, rfl⟩
      · obtain ⟨err, r₁, hstop⟩ := startUp_of_not_nodup
          (r := fromConfig cfg log peers learners minTimeout maxTimeout rng) cfg.applied
          rs.hardState hnodup
        have hstop' : startUp cfg.applied rs.hardState peers learners
            (fromConfig cfg log peers learners minTimeout maxTimeout rng) =
            ⟨.error (.peerNotInserted err), r₁, []⟩ := hstop
        dsimp only at hvalue
        rw [hstop'] at hvalue
        cases hvalue

/-! ## §3  The member it was -/

/-- No voters are among the members of a start. -/
theorem startedOver_startMembers {peers learners : List ℕ} {id last : ℕ}
    {members : Option ProgressSet}
    (hmembers : members = some (resetProgress (r.startMembers peers learners) id last)) :
    StartedOver .FOLLOWER members where
  follower := rfl
  voters := by
    rintro _ rfl
    cases hmembers
    refine List.eq_nil_iff_forall_not_mem.mpr fun k hk => ?_
    exact mem_startMembers.1 (AList.mem_keys.mpr hk)

theorem wellFormed_startMembers {peers learners : List ℕ} (hnodup : (peers ++ learners).Nodup) :
    (r.startMembers peers learners).WellFormed :=
  (ProgressSet.wellFormed_withCapacity _ _).joined
    ((ProgressSet.newMembers_withCapacity _ _).mpr hnodup)

variable {V : Finset ℕ} {A : Consensus.Group ℕ Entry} {b s v : ℕ}
  {K : Consensus.Group ℕ Entry → Prop} {hK : ∀ A A', Consensus.Records A A' → K A → K A'}

/-- A node that comes back over what it has stored is the same member of the group. -/
theorem Mirrors.restart (h : Mirrors V A v r) (hid : cfg.id = v)
    (hstored : r.raftLog.store.core.plain = r.raftLog.logical)
    (hrun : Raft.newTimed cfg
      ({ core := r.raftLog.store.core.setHardState r.hardState } : MemStorage)
      minTimeout maxTimeout rng = .ok (.ok r')) :
    Mirrors V A v { r' with msgs := r.msgs } := by
  obtain ⟨log, peers, learners, es, hlog, hnodup, hstart⟩ := newTimed_inv rfl hrun
  have hcore : (r.raftLog.store.core.setHardState r.hardState).WellFormed :=
    ⟨h.sound.wellFormed.store.nonempty, h.sound.wellFormed.store.consecutive⟩
  obtain ⟨hsound, hsnap, hlogical, hcommitted, happlied⟩ := RaftLog.sound_new hcore hlog
  have hsame : log.logical = r.raftLog.logical := hlogical.trans hstored
  have hlast := hsound.wellFormed.presents.lastIndex
  have hlow : log.committed ≤ r.raftLog.committed := by
    rw [hcommitted, hsame]
    exact Nat.le_trans h.sound.base_le h.sound.applied_le
  have hhigh : r.raftLog.committed ≤ log.logical.lastIndex := hsame ▸ h.sound.committed_le
  have hstate : ∃ es', startState r.hardState
      (withPeers cfg log peers learners minTimeout maxTimeout rng) =
        ⟨.ok (), (withPeers cfg log peers learners minTimeout maxTimeout rng).loaded r.hardState,
          es'⟩ :=
    startState_loaded hlast rfl rfl hlow hhigh
  obtain ⟨es', hstate⟩ := hstate
  have hloaded := (hsound.with_cursors (Nat.le_refl _) hlow
    (Nat.le_trans hsound.applied_le hlow) hhigh).1
  obtain ⟨_, hresumes⟩ := (does_startFrom hstate hloaded rfl).ok hstart
  obtain ⟨last, hprs⟩ := hresumes.prs
  have hover : StartedOver r'.state r'.prs := by
    rw [hresumes.role]
    exact startedOver_startMembers hprs
  have hrole : ∀ {role}, r'.state = role → role ≠ .FOLLOWER → False :=
    fun heq hne => hne (heq.symm.trans hresumes.role)
  exact
    { id := hresumes.id.trans hid
      term := h.term.trans hresumes.term.symm
      sound := hresumes.sound
      snapshot := hresumes.snapshot.trans hsnap
      log := by
        show Remains r'.raftLog.logical _
        rw [hresumes.logical]
        exact (hsame ▸ h.log :)
      committed := h.committed.trans hresumes.committed.symm
      members := by
        intro prs hprs'
        cases hprs.symm.trans hprs'
        exact wellFormed_resetProgress (wellFormed_startMembers hnodup) _ _
      voters := Or.inl hover
      vote := by
        show ∀ d, A.voted v r'.term d → d = r'.vote ∧ d ≠ INVALID_ID
        rw [hresumes.term, hresumes.vote]
        exact h.vote
      standing := fun hc => by
        rcases hc with hc | hc
        · exact (hrole hc (by decide)).elim
        · exact (hrole hc (by decide)).elim
      candidate := fun hc => (hrole hc (by decide)).elim
      leader := fun hl => (hrole hl (by decide)).elim
      peers := fun hl => (hrole hl (by decide)).elim
      led := fun _ _ _ => Or.inr hover
      posted := h.posted }

theorem accounted_restart (hid : cfg.id = v)
    (hstored : r.raftLog.store.core.plain = r.raftLog.logical) :
    Does (accounted V b s v K hK) r (Raft.restart cfg minTimeout maxTimeout rng)
      (fun _ _ => True) := by
  unfold Raft.restart
  refine Does.read_bind (Does.lift_bind fun started hstarted => ?_)
  cases started with
  | error e => exact Does.pure trivial
  | ok node =>
      exact Does.of_ok (a := ()) rfl
        (accounted_still fun A _ h => h.restart hid hstored hstarted) trivial

end

end RsRaft
