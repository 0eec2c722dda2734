import RsRaft.RestoredLog
import RsRaft.SnapshotRestore

/-!
# What a hup looks at

`MsgHup` makes a node that does not lead read the entries it has committed but
not applied, and campaign unless one of them changes the configuration. The
read begins at `applied + 1` and is unwrapped. `next_entries_since` begins at the
first index where that is higher; here a node whose log begins behind what it
has applied panics instead, and `restore` makes such nodes.

§1 the logs a node stands on · §2 the scan · §3 the hup.
-/

namespace RsRaft

open PlainLog Call

/-! ## §1  The logs a node stands on -/

namespace RaftLog

variable {log : RaftLog MemStorage}

/-- A log in order, or one that a snapshot was just restored into. -/
inductive OrderedOrRestored : RaftLog MemStorage → Prop
  | ordered {log : RaftLog MemStorage} (h : log.Ordered) : OrderedOrRestored log
  | restored {log : RaftLog MemStorage} {s : Snapshot} (h : log.Ordered)
      (hs : log.committed ≤ s.metadata.index) : OrderedOrRestored (log.restore s)

/-- The entries that are committed and not applied. -/
def unapplied (log : RaftLog MemStorage) : List Entry :=
  log.logical.segment log.applied (log.committed - log.applied)

/-- One of them changes the configuration. -/
def PendingConfChange (log : RaftLog MemStorage) : Prop :=
  ∃ i e, log.applied < i ∧ i ≤ log.committed ∧ log.logical.entryAt i = some e ∧
    e.entryType = .EntryConfChange

/-! ## §2  The scan -/

theorem numPendingConf_ne_zero_iff {ents : List Entry} :
    Raft.numPendingConf ents ≠ 0 ↔ ∃ e ∈ ents, e.entryType = .EntryConfChange := by
  rw [Raft.numPendingConf, ← Nat.pos_iff_ne_zero, List.countP_pos_iff]
  simp only [beq_iff_eq]

theorem numPendingConf_unapplied (hb : log.logical.base ≤ log.applied) :
    Raft.numPendingConf log.unapplied ≠ 0 ↔ log.PendingConfChange := by
  rw [numPendingConf_ne_zero_iff]
  have hread := fun {m : ℕ} (hm : m < log.committed - log.applied) =>
    segment_getElem? hb hm
  constructor
  · rintro ⟨e, he, htype⟩
    obtain ⟨m, hm⟩ := List.mem_iff_getElem?.mp he
    have hlt : m < log.committed - log.applied :=
      Nat.lt_of_lt_of_le (List.getElem?_eq_some_iff.mp hm).1 (List.length_take_le _ _)
    rw [unapplied, hread hlt] at hm
    exact ⟨_, e, by omega, by omega, hm, htype⟩
  · rintro ⟨i, e, hlow, hhigh, he, htype⟩
    refine ⟨e, List.mem_iff_getElem?.mpr ⟨i - (log.applied + 1), ?_⟩, htype⟩
    rw [unapplied, hread (by omega), show log.applied + 1 + (i - (log.applied + 1)) = i by omega,
      he]

variable [ProtoMessage Entry]

/-- The slice `MsgHup` asks for. -/
def hupScan (log : RaftLog MemStorage) : Except Panic (Result (List Entry)) :=
  log.slice (log.applied + 1) (log.committed + 1) NO_LIMIT

/-- What the scan reads: it fails where the log begins behind what is applied. -/
structure Scans (log : RaftLog MemStorage) (first : ℕ) : Prop where
  firstIndex : log.firstIndex = .ok first
  compacted : log.applied + 1 < first → log.hupScan = .ok (.error (.Store .Compacted))
  readable : first ≤ log.applied + 1 →
    log.logical.base ≤ log.applied ∧ log.hupScan = .ok (.ok log.unapplied)

theorem Ordered.scans (h : log.Ordered) : Scans log (log.logical.base + 1) where
  firstIndex := h.wellFormed.presents.firstIndex
  compacted hlow :=
    (h.wellFormed.slice_compacted_iff (Nat.succ_le_succ h.applied_le)
      (Nat.succ_le_succ h.committed_le) _).mpr hlow
  readable hlow := by
    refine ⟨Nat.le_of_succ_le_succ hlow, ?_⟩
    have hread := h.wellFormed.slice_eq hlow (Nat.add_le_add_right h.applied_le 1)
      (Nat.add_le_add_right h.committed_le 1) NO_LIMIT
    rw [limitSize_noLimit, Nat.add_sub_cancel, Nat.add_sub_add_right] at hread
    exact hread

/-- Behind a restored snapshot there is something to read only if it is applied. -/
theorem Ordered.restore_scans (h : log.Ordered) {s : Snapshot}
    (hs : log.committed ≤ s.metadata.index) : Scans (log.restore s) (s.metadata.index + 1) := by
  obtain ⟨hfirst, hlast, hcommitted, _⟩ := restore_cursors log s
  have happlied : (log.restore s).applied ≤ s.metadata.index := Nat.le_trans h.applied_le hs
  refine ⟨hfirst, fun hlow => ?_, fun hlow => ?_⟩
  · rw [hupScan, RaftLog.slice, mustCheckOutOfBounds, hcommitted, if_neg (by omega), hfirst,
      ok_bind, if_pos hlow]
    rfl
  · have heq : (log.restore s).applied = s.metadata.index := by omega
    refine ⟨Nat.le_of_eq heq.symm, ?_⟩
    have hnone : (log.restore s).unapplied = [] := by
      rw [unapplied, hcommitted, heq, Nat.sub_self, segment_zero]
    rw [hupScan, RaftLog.slice, mustCheckOutOfBounds, hcommitted, heq, hnone,
      if_neg (Nat.lt_irrefl _), hfirst, ok_bind, if_neg (Nat.lt_irrefl _), hlast, ok_bind]
    dsimp only
    rw [if_neg (by omega), pure_eq_ok, ok_bind]
    dsimp only
    rw [if_pos (Nat.le_refl _)]
    rfl

theorem OrderedOrRestored.scans (h : log.OrderedOrRestored) : ∃ first, Scans log first := by
  cases h with
  | ordered h => exact ⟨_, h.scans⟩
  | restored h hs => exact ⟨_, h.restore_scans hs⟩

end RaftLog

/-! ## §3  The hup -/

namespace Raft

section

variable [ProtoMessage Entry] {r : Raft MemStorage} {msg : Message}

/-- A `MsgHup` that passes the comparison of terms; the node's own carry no term. -/
def IsHup (msg : Message) (r : Raft MemStorage) : Prop :=
  msg.msgType = .MsgHup ∧ (msg.term = 0 ∨ msg.term = r.term)

/-- The campaign the node would start, followed by the end of `step`. -/
def ownCampaign (r : Raft MemStorage) : Call Panic Event (Raft MemStorage) (Result Unit) := do
  campaign (if r.preVote then CAMPAIGN_PRE_ELECTION else CAMPAIGN_ELECTION)
  pure (.ok ())

/-- The scan does not panic; from a log that begins at or below what is applied, the
node campaigns exactly if no configuration change is pending, and else stays as it is. -/
structure Gated (r : Raft MemStorage) (msg : Message) : Prop where
  scan : ∃ ents, unwrap r.raftLog.hupScan = .ok ents
  campaigns : ∀ first, r.raftLog.firstIndex = .ok first → first ≤ r.raftLog.applied + 1 →
    (step msg r = ownCampaign r r ↔ ¬ r.raftLog.PendingConfChange)
  stays : ∀ first, r.raftLog.firstIndex = .ok first → first ≤ r.raftLog.applied + 1 →
    r.raftLog.PendingConfChange → step msg r = ⟨.ok (.ok ()), r, []⟩

/-- A snapshot restored into a node in order leaves it with a log of this kind. -/
theorem orderedOrRestored_restore (h : r.InOrder) {s : Snapshot} (hwf : s.WellFormed) :
    (restore s r).state.raftLog.OrderedOrRestored := by
  by_cases hstale : s.metadata.index < r.raftLog.committed
  · rw [restore_stale hstale]
    exact .ordered h.log
  have hs := Nat.le_of_not_lt hstale
  by_cases hheld : r.HoldsSnapshot s
  · rw [restore_held h hs hheld]
    exact .ordered
      { wellFormed := ⟨h.log.wellFormed.store, h.log.wellFormed.unstable, h.log.wellFormed.fits⟩
        applied_le := Nat.le_trans h.log.applied_le hs
        committed_le := (bounds_of_stampAt hheld).2 }
  by_cases hdemote : r.WouldDemote s
  · rw [restore_refused h hwf hs hheld hdemote]
    exact .ordered h.log
  · rw [restore_full h hwf hs hheld hdemote]
    exact .restored h.log hs

theorem step_hup (hhup : IsHup msg r) :
    step msg r =
      (do stepHup; pure (.ok ()) : Call Panic Event (Raft MemStorage) (Result Unit)) r := by
  obtain ⟨htype, hterm⟩ := hhup
  have hdispatch : dispatch msg r =
      (do stepHup; pure (.ok ()) : Call Panic Event (Raft MemStorage) (Result Unit)) r := by
    rw [dispatch, htype]
  unfold step
  rw [read_bind_run, ← hdispatch]
  rcases hterm with hzero | hsame
  · rw [if_pos hzero]
  · by_cases hzero : msg.term = 0
    · rw [if_pos hzero]
    · rw [if_neg hzero, if_neg (by omega), if_neg (by omega)]

/-- Behind the scan, a pending configuration change is all that stops the campaign. -/
theorem stepHup_scanned (hstate : r.state ≠ .Leader) {ents : List Entry}
    (hscan : r.raftLog.hupScan = .ok (.ok ents)) :
    (do stepHup; pure (.ok ()) : Call Panic Event (Raft MemStorage) (Result Unit)) r =
      if numPendingConf ents ≠ 0 ∧ r.raftLog.committed > r.raftLog.applied then
        ⟨.ok (.ok ()), r, []⟩
      else ownCampaign r r := by
  have hread : unwrap (r.raftLog.slice (r.raftLog.applied + 1) (r.raftLog.committed + 1)
      NO_LIMIT) = .ok ents := by
    rw [show r.raftLog.slice _ _ _ = _ from hscan, unwrap_ok]
  have hhup : stepHup r =
      (if numPendingConf ents ≠ 0 ∧ r.raftLog.committed > r.raftLog.applied then pure ()
        else if r.preVote then campaign CAMPAIGN_PRE_ELECTION
        else campaign CAMPAIGN_ELECTION : Call Panic Event (Raft MemStorage) Unit) r := by
    unfold stepHup
    rw [read_bind_run, if_pos hstate, hread, lift_ok_bind_run]
  rw [bind_run, hhup]
  by_cases hpending : numPendingConf ents ≠ 0 ∧ r.raftLog.committed > r.raftLog.applied
  · rw [if_pos hpending, if_pos hpending]
    rfl
  · rw [if_neg hpending, if_neg hpending]
    by_cases hpre : r.preVote = true
    · rw [if_pos hpre, ownCampaign, if_pos hpre]
      rfl
    · rw [if_neg hpre, ownCampaign, if_neg hpre]
      rfl

/-- A campaign is seen: it begins with a new role or a new term. -/
theorem campaign_trace_ne_nil (ct : Bytes) (hstate : r.state ≠ .Leader) :
    (campaign ct r).trace ≠ [] := by
  have hpre : (becomePreCandidate r).trace = [.role .PreCandidate] := by
    unfold becomePreCandidate setState
    simp [hstate]
  have hreset : (reset (r.term + 1) r).trace = [.hardState (r.term + 1) INVALID_ID] := by
    have hevents : resetEvents r.term (r.term + 1) = [.hardState (r.term + 1) INVALID_ID] :=
      if_neg (Nat.ne_of_lt (Nat.lt_succ_self _))
    rcases reset_cases (r.term + 1) r with ⟨_, _, _, _, hrun⟩ | ⟨_, _, hrun, _⟩
    · rw [hrun, hevents]
    · rw [hrun, hevents]
  have hcandidate : (becomeCandidate r).trace ≠ [] := by
    unfold becomeCandidate
    rw [read_bind_run, if_neg hstate]
    obtain ⟨es, hes⟩ := bind_trace (reset (r.term + 1)) (fun _ => do
      Call.modify fun self => { self with vote := self.id }
      Call.emit (.hardState (r.term + 1) r.id)
      setState .Candidate) r
    rw [hes, hreset]
    exact List.cons_ne_nil _ _
  unfold campaign campaignRound
  by_cases hct : ct = CAMPAIGN_PRE_ELECTION
  · rw [if_pos hct]
    obtain ⟨es, hes⟩ := bind_trace becomePreCandidate _ r
    rw [hes, hpre]
    exact List.cons_ne_nil _ _
  · rw [if_neg hct]
    obtain ⟨es, hes⟩ := bind_trace becomeCandidate _ r
    rw [hes]
    exact List.append_ne_nil_of_left_ne_nil hcandidate _

theorem ownCampaign_trace_ne_nil (hstate : r.state ≠ .Leader) : (ownCampaign r r).trace ≠ [] := by
  obtain ⟨es, hes⟩ := bind_trace
    (campaign (if r.preVote then CAMPAIGN_PRE_ELECTION else CAMPAIGN_ELECTION))
    (fun _ => pure (.ok ()) : Unit → Call Panic Event (Raft MemStorage) (Result Unit)) r
  rw [ownCampaign, hes]
  exact List.append_ne_nil_of_left_ne_nil (campaign_trace_ne_nil _ hstate) _

/-- On logs of this kind a hup does what it should exactly if the log begins at or below
what is applied. -/
theorem gated_iff (h : r.raftLog.OrderedOrRestored) (hstate : r.state ≠ .Leader)
    (hhup : IsHup msg r) :
    Gated r msg ↔
      ∃ first, r.raftLog.firstIndex = .ok first ∧ first ≤ r.raftLog.applied + 1 := by
  obtain ⟨first, hfirst, hcompacted, hreadable⟩ := h.scans
  constructor
  · rintro ⟨⟨ents, hscan⟩, _, _⟩
    refine ⟨first, hfirst, ?_⟩
    by_contra hlow
    rw [hcompacted (Nat.lt_of_not_le hlow)] at hscan
    cases hscan
  · rintro ⟨first', hfirst', hlow⟩
    rw [hfirst] at hfirst'
    cases hfirst'
    obtain ⟨hbase, hscan⟩ := hreadable hlow
    have hpending := RaftLog.numPendingConf_unapplied hbase
    have hstep : step msg r =
        if numPendingConf r.raftLog.unapplied ≠ 0 ∧ r.raftLog.committed > r.raftLog.applied then
          ⟨.ok (.ok ()), r, []⟩
        else ownCampaign r r := (step_hup hhup).trans (stepHup_scanned hstate hscan)
    have hstays : r.raftLog.PendingConfChange → step msg r = ⟨.ok (.ok ()), r, []⟩ := by
      intro hconf
      have hlt : r.raftLog.applied < r.raftLog.committed := by
        obtain ⟨i, _, hlow, hhigh, _⟩ := hconf
        exact Nat.lt_of_lt_of_le hlow hhigh
      rw [hstep, if_pos ⟨hpending.mpr hconf, hlt⟩]
    refine ⟨⟨_, by rw [hscan, unwrap_ok]⟩, fun _ _ _ => ⟨?_, fun hno => ?_⟩, fun _ _ _ => hstays⟩
    · intro hrun hconf
      rw [hstays hconf] at hrun
      exact ownCampaign_trace_ne_nil hstate (congrArg Outcome.trace hrun).symm
    · rw [hstep, if_neg fun hyes => hno (hpending.mp hyes.1)]

end

/-! The node that has just installed a snapshot of index `5`, with nothing applied. -/

def justRestored : Raft MemStorage := (restore snapshotOfTwo (memNode 1 [1, 2] [])).state

theorem orderedOrRestored_justRestored : justRestored.raftLog.OrderedOrRestored :=
  orderedOrRestored_restore inOrder_memNode wellFormed_snapshotOfTwo

theorem not_gated_justRestored :
    justRestored.raftLog.OrderedOrRestored ∧ justRestored.state = .FOLLOWER ∧
      (∃ prs, justRestored.prs = some prs ∧ 1 ∈ prs.voterIds) ∧
      justRestored.raftLog.applied < snapshotOfTwo.metadata.index ∧
      (step {} justRestored).value = .error (.unwrapErr (.Store .Compacted)) ∧
      ¬ Gated justRestored {} := by
  refine ⟨orderedOrRestored_justRestored, rfl, ⟨_, rfl, by decide⟩, by decide, rfl, ?_⟩
  rintro ⟨⟨ents, hscan⟩, _, _⟩
  cases hscan

/-- It does not do what it should, and the node it was before does. -/
theorem gated_iff_justRestored :
    justRestored.raftLog.OrderedOrRestored ∧ IsHup {} justRestored ∧
      (Gated justRestored {} ↔
        ∃ first, justRestored.raftLog.firstIndex = .ok first ∧
          first ≤ justRestored.raftLog.applied + 1) ∧
      Gated (memNode 1 [1, 2] []) {} :=
  ⟨orderedOrRestored_justRestored, ⟨rfl, Or.inl rfl⟩,
    gated_iff orderedOrRestored_justRestored (by decide) ⟨rfl, Or.inl rfl⟩,
    (gated_iff (.ordered inOrder_memNode.log) (by decide) ⟨rfl, Or.inl rfl⟩).mpr
      ⟨1, rfl, by decide⟩⟩

end Raft

end RsRaft
