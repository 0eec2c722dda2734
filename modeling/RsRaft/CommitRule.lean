import RsRaft.RaftLogView
import RsRaft.Run
import Mathlib.Order.Bounds.Basic

/-!
# The leader's commit rule

`maybe_commit` tests a single index, the greatest one a majority of the voters
has reached. No smaller index is lost by that: behind an entry of the leader's
term every entry is of that term.

§1 committable indices · §2 the rule.
-/

namespace RsRaft

namespace Raft

open Call PlainLog

variable {T : Type} [Storage T] {r : Raft T} {prs : ProgressSet} {L : PlainLog Entry ℕ}

/-! ## §1  Committable indices -/

/-- What the leader may commit: an index behind the commit index that a
majority of the voters has reached and whose entry is of the current term. -/
structure Committable (r : Raft T) (prs : ProgressSet) (L : PlainLog Entry ℕ) (N : ℕ) :
    Prop where
  behind : r.raftLog.committed < N
  reached : majority prs.voterIds.size ≤ (prs.reached N).card
  current : L.stampAt N = some r.term

omit [Storage T] in
/-- An index of the current term carries the maximal committed index with it. -/
theorem Committable.stampAt_of_le (hmono : Nondecreasing L)
    (hterm : ∀ i t, L.stampAt i = some t → t ≤ r.term) {N mci : ℕ}
    (h : Committable r prs L N) (hle : N ≤ mci) (hlast : mci ≤ L.lastIndex) :
    L.stampAt mci = some r.term := by
  have hbase := (bounds_of_stampAt h.current).1
  obtain ⟨t, ht⟩ := exists_stampAt (show L.base ≤ mci by omega) hlast
  -- terms do not fall from `N` to the maximal index, and none is above the current one
  have hlow := hmono N mci _ _ hle h.current ht
  have hhigh := hterm mci t ht
  rw [ht, Nat.le_antisymm hhigh hlow]

/-! ## §2  The rule -/

/-- The maximal committed index lies inside the log. -/
theorem maximalCommittedIndex_le (hwf : prs.WellFormed) {mci : ℕ}
    (hmci : prs.maximalCommittedIndex = .ok mci)
    (hmatched : ∀ id pr, id ∈ prs.voterIds → prs.get id = some pr → pr.matched ≤ L.lastIndex) :
    mci ≤ L.lastIndex := by
  have hcard := (hwf.le_maximalCommittedIndex_iff hmci mci).mp (Nat.le_refl mci)
  have hpos : 0 < (prs.reached mci).card := by
    unfold majority at hcard
    omega
  obtain ⟨id, hid⟩ := Finset.card_pos.mp hpos
  obtain ⟨hvoter, pr, hpr, hle⟩ := ProgressSet.mem_reached.mp hid
  exact Nat.le_trans hle (hmatched id pr hvoter hpr)

/-- `maybe_commit` is one test at the maximal committed index. -/
theorem maybeCommit_run (hprs : r.prs = some prs) {mci : ℕ}
    (hmci : prs.maximalCommittedIndex = .ok mci) (hlog : r.raftLog.Presents L)
    (hlast : mci ≤ L.lastIndex) :
    maybeCommit r =
      if r.raftLog.committed < mci ∧ (L.stampAt mci).getD 0 = r.term
        then ⟨.ok true, { r with raftLog := { r.raftLog with committed := mci } }, []⟩
        else ⟨.ok false, r, []⟩ := by
  unfold maybeCommit
  rw [bind_ok (getPrs_run hprs), Outcome.after_nil, hmci, lift_ok_bind_run, read_bind_run,
    hlog.maybeCommit hlast, lift_ok_bind_run, modify_bind_run]
  split
  · rfl
  · rfl

/-- `maybe_commit` commits the greatest committable index, and nothing if there
is none. -/
theorem maybeCommit_greatest (hprs : r.prs = some prs) (hwf : prs.WellFormed)
    (hne : 0 < prs.voterIds.size)
    (hmatched : ∀ id pr, id ∈ prs.voterIds → prs.get id = some pr → pr.matched ≤ L.lastIndex)
    (hlog : r.raftLog.Presents L) (hmono : Nondecreasing L)
    (hterm : ∀ i t, L.stampAt i = some t → t ≤ r.term) (hpos : 1 ≤ r.term) :
    (∃ N, IsGreatest {N | Committable r prs L N} N ∧
      maybeCommit r =
        ⟨.ok true, { r with raftLog := { r.raftLog with committed := N } }, []⟩) ∨
    ((∀ N, ¬ Committable r prs L N) ∧ maybeCommit r = ⟨.ok false, r, []⟩) := by
  obtain ⟨mci, hmci⟩ := hwf.maximalCommittedIndex hne
  have hlast := maximalCommittedIndex_le (L := L) hwf hmci hmatched
  have hrun := maybeCommit_run hprs hmci hlog hlast
  have hreach := hwf.le_maximalCommittedIndex_iff hmci
  by_cases htest : r.raftLog.committed < mci ∧ (L.stampAt mci).getD 0 = r.term
  · left
    rw [if_pos htest] at hrun
    refine ⟨mci, ⟨?_, ?_⟩, hrun⟩
    · refine ⟨htest.1, (hreach mci).mp (Nat.le_refl mci), ?_⟩
      have hread := htest.2
      cases hstamp : L.stampAt mci with
      | none =>
          rw [hstamp, Option.getD_none] at hread
          omega
      | some t =>
          rw [hstamp, Option.getD_some] at hread
          rw [hread]
    · intro N hN
      exact (hreach N).mpr hN.reached
  · right
    rw [if_neg htest] at hrun
    refine ⟨?_, hrun⟩
    intro N hN
    -- a committable index would have passed the test of the maximal one
    have hle := (hreach N).mpr hN.reached
    have hbehind := hN.behind
    apply htest
    refine ⟨by omega, ?_⟩
    rw [hN.stampAt_of_le hmono hterm hle hlast, Option.getD_some]

/-! A leader of term `2` whose second entry is of an earlier term: two of three
voters hold three entries, and all three are committed at once. -/

def leaderNode : Raft MemStorage :=
  { memNode 1 [1, 2, 3] [] with
    state := .Leader
    term := 2
    raftLog :=
      { store := {}
        unstable :=
          { offset := 1
            entries := [{ term := 1, index := 1 }, { term := 1, index := 2 },
              { term := 2, index := 3 }] }
        committed := 0
        applied := 0 } }

/-- The progress of the voters: node `3` lags behind. -/
def leaderPrs : ProgressSet :=
  { progress :=
      (((∅ : AList fun _ : ℕ => Progress).insert 3 (Progress.new 1 256)).insert 2
        { Progress.new 1 256 with matched := 3 }).insert 1
          { Progress.new 1 256 with matched := 3 }
    configuration :=
      { voters := ((((∅ : AList fun _ : ℕ => Unit).insert 3 ()).insert 2 ()).insert 1 ()) } }

def leaderLog : PlainLog Entry ℕ :=
  ⟨0, 0, [{ term := 1, index := 1 }, { term := 1, index := 2 }, { term := 2, index := 3 }]⟩

theorem presents_leaderLog : leaderNode.raftLog.Presents leaderLog :=
  RaftLog.Unstored.presents ⟨MemStorage.holds_empty, rfl, rfl⟩

theorem wellFormed_leaderPrs : leaderPrs.WellFormed where
  members := by
    intro id
    have hprogress : leaderPrs.progress.keys = [1, 2, 3] := by decide
    have hvoters : leaderPrs.voterIds.keys = [1, 2, 3] := by decide
    have hlearners : leaderPrs.learnerIds.keys = [] := by decide
    rw [AList.mem_keys, AList.mem_keys, AList.mem_keys, hprogress, hvoters, hlearners]
    simp
  disjoint := by
    intro id _ hid
    cases hid

theorem maybeCommit_leaderNode :
    ∃ N, IsGreatest {N | Committable { leaderNode with prs := some leaderPrs } leaderPrs
        leaderLog N} N ∧
      maybeCommit { leaderNode with prs := some leaderPrs } =
        ⟨.ok true, { leaderNode with
          prs := some leaderPrs
          raftLog := { leaderNode.raftLog with committed := N } }, []⟩ := by
  have hmatched : ∀ e ∈ leaderPrs.progress.entries, e.2.matched ≤ leaderLog.lastIndex := by
    decide
  have hstamps : ∀ t ∈ leaderLog.stamps, t ≤ leaderNode.term := by decide
  rcases maybeCommit_greatest (r := { leaderNode with prs := some leaderPrs }) rfl
      wellFormed_leaderPrs (by decide)
      (fun id pr _ hpr => hmatched ⟨id, pr⟩ (AList.mem_lookup_iff.mp hpr))
      presents_leaderLog (nondecreasing_of_pairwise (by decide))
      (fun i t ht => hstamps t (mem_stamps_of_stampAt ht)) (by decide)
    with hcommit | ⟨_, hidle⟩
  · exact hcommit
  · have hvalue : (maybeCommit { leaderNode with prs := some leaderPrs }).value = .ok true := by
      decide +kernel
    rw [hidle] at hvalue
    cases hvalue

end Raft

end RsRaft
