import RsRaft.AckedPrefix
import RsRaft.Lib.Loop
import RsRaft.ProgressCursors

/-!
# Probing for the agreement point

A leader that does not know where a follower's log departs from its own asks for
the entry in front of `next_idx`. The follower matches its term, or refuses and
tells its last index; `maybe_decr_to` takes `next_idx` back by one, or behind the
end of the follower's log at once. What is skipped the follower does not hold, so
the first index that is matched is the last one the two logs have in common.

§1 a round · §2 what a round comes to · §3 the probing.
-/

namespace RsRaft

open PlainLog

variable {T U : Type} [Storage T] [Storage U]

/-! ## §1  A round -/

/-- The follower's log, and the leader's progress of it. -/
structure Probing (U : Type) where
  log : RaftLog U
  pr : Progress

/-- `F.maybe_append(next_idx - 1, L.term(next_idx - 1), 0, [])`, and on a refusal
`maybe_decr_to(next_idx - 1, F.last_index())`. -/
def probeRound (leader : RaftLog T) (p : Probing U) :
    Except Panic (Round (Probing U) (Probing U)) := do
  let prev := wrappingSub p.pr.nextIdx 1
  let term ← unwrap (leader.term prev)
  let (accepted, log) ← p.log.maybeAppend prev term 0 []
  match accepted with
  | some _ => pure (.done { p with log := log })
  | none => do
      let last ← log.lastIndex
      pure (.next { log := log, pr := (p.pr.maybeDecrTo prev last).2 })

variable {leader : RaftLog T} {follower : RaftLog U} {M P : PlainLog Entry ℕ} {p : Probing U}
  {pr : Progress} {i t : ℕ}

/-- A probe has no entries and commits nothing, so it only compares. -/
theorem RaftLog.Presents.maybeAppend_probe {log : RaftLog U} (h : log.Presents P) (i t : ℕ) :
    log.maybeAppend i t 0 [] =
      .ok (if (P.stampAt i).getD 0 = t then some i else none, log) := by
  by_cases ht : (P.stampAt i).getD 0 = t
  · have hmatch : log.matchTerm i t = .ok true := by
      rw [h.matchTerm, ht, beq_self_eq_true]
    have hcommit : log.commitTo (min 0 (i + 0)) = .ok log := by
      rw [RaftLog.commitTo, Nat.zero_min, if_pos (Nat.zero_le _)]
      rfl
    rw [if_pos ht, RaftLog.maybeAppend, hmatch, ok_bind, if_pos rfl]
    show (log.commitTo (min 0 (i + 0)) >>= fun log'' => pure (some (i + 0), log'')) = _
    rw [hcommit]
    rfl
  · rw [if_neg ht, h.maybeAppend_refuse ht]

/-- A round reads two terms and one last index. -/
theorem probeRound_eq (hL : leader.Presents M) (hF : p.log.Presents P)
    (hnext : 1 ≤ p.pr.nextIdx) :
    probeRound leader p = .ok
      (if (P.stampAt (p.pr.nextIdx - 1)).getD 0 = (M.stampAt (p.pr.nextIdx - 1)).getD 0 then
        .done p
      else .next { p with pr := (p.pr.maybeDecrTo (p.pr.nextIdx - 1) P.lastIndex).2 }) := by
  unfold probeRound
  rw [wrappingSub_of_le hnext]
  dsimp only
  rw [hL.term, unwrap_ok, ok_bind, hF.maybeAppend_probe, ok_bind]
  by_cases hsame : (P.stampAt (p.pr.nextIdx - 1)).getD 0 =
      (M.stampAt (p.pr.nextIdx - 1)).getD 0
  · rw [if_pos hsame, if_pos hsame]
    rfl
  · rw [if_neg hsame, if_neg hsame]
    dsimp only
    rw [hF.lastIndex]
    rfl

/-! ## §2  What a round comes to -/

/-- The log reaches back to the beginning, and its entries carry real terms. -/
structure Uncompacted (L : PlainLog Entry ℕ) : Prop where
  base : L.base = 0
  baseStamp : L.baseStamp = 0
  real : ∀ e ∈ L.tail, 1 ≤ e.term

/-- Both logs hold index `i`, with the same term. -/
def HoldSame (P M : PlainLog Entry ℕ) (i : ℕ) : Prop :=
  ∃ t, P.stampAt i = some t ∧ M.stampAt i = some t

theorem Uncompacted.stampAt_zero {L : PlainLog Entry ℕ} (h : Uncompacted L) :
    L.stampAt 0 = some 0 := by
  have hbase := L.stampAt_base
  rwa [h.base, h.baseStamp] at hbase

/-- Inside the leader's log, the follower matches exactly what it holds too. -/
theorem holdSame_iff (hM : Uncompacted M) (hP : Uncompacted P) (hi : i ≤ M.lastIndex) :
    (P.stampAt i).getD 0 = (M.stampAt i).getD 0 ↔ HoldSame P M i := by
  constructor
  · intro heq
    exact RaftLog.exists_same_term hM.real (by rw [hM.base]; exact Nat.zero_le _)
      (by rw [hP.base]; exact Nat.zero_le _) hi heq
  · rintro ⟨t, hPt, hMt⟩
    rw [hPt, hMt]

/-- The follower's log is untouched, and everything given up on is not held alike. -/
structure Narrowed (follower : RaftLog U) (pr : Progress) (P M : PlainLog Entry ℕ)
    (p : Probing U) : Prop where
  log : p.log = follower
  state : p.pr.state = .Probe
  positive : 1 ≤ p.pr.nextIdx
  le : p.pr.nextIdx ≤ pr.nextIdx
  passed : ∀ i, p.pr.nextIdx ≤ i → i < pr.nextIdx → ¬ HoldSame P M i

/-- The probing ends at an index both logs hold alike. -/
structure Met (follower : RaftLog U) (pr : Progress) (P M : PlainLog Entry ℕ)
    (p : Probing U) : Prop where
  narrowed : Narrowed follower pr P M p
  same : HoldSame P M (p.pr.nextIdx - 1)

omit [Storage U] in
/-- A refusal of index `next_idx - 1` moves `next_idx` down, over nothing that is held. -/
theorem Narrowed.decr (h : Narrowed follower pr P M p) (hP : Uncompacted P)
    (hM : Uncompacted M) (hrefused : ¬ HoldSame P M (p.pr.nextIdx - 1)) :
    let pr' := (p.pr.maybeDecrTo (p.pr.nextIdx - 1) P.lastIndex).2
    Narrowed follower pr P M { p with pr := pr' } ∧ pr'.nextIdx - 1 < p.pr.nextIdx - 1 := by
  intro pr'
  have hprobe : p.pr.state ≠ .Replicate := by
    rw [h.state]
    exact nofun
  have heq : pr' = { p.pr with
      nextIdx := max 1 (min (p.pr.nextIdx - 1) (P.lastIndex + 1)), paused := false } :=
    Progress.maybeDecrTo_probed _ _ hprobe (Nat.ne_of_gt h.positive) rfl
  -- index `0` is held by everybody, so it was not the one refused
  have htwo : 2 ≤ p.pr.nextIdx := by
    by_contra hlt
    have hone : p.pr.nextIdx = 1 := Nat.le_antisymm (by omega) h.positive
    rw [hone] at hrefused
    exact hrefused ⟨0, hP.stampAt_zero, hM.stampAt_zero⟩
  have hnext : pr'.nextIdx = max 1 (min (p.pr.nextIdx - 1) (P.lastIndex + 1)) := by
    rw [heq]
  have hle := h.le
  refine ⟨⟨h.log, ?_, ?_, ?_, ?_⟩, by omega⟩
  · show pr'.state = .Probe
    rw [heq]
    exact h.state
  · show 1 ≤ pr'.nextIdx
    omega
  · show pr'.nextIdx ≤ pr.nextIdx
    omega
  · intro i hlow hhigh hsame
    have hlow : pr'.nextIdx ≤ i := hlow
    by_cases hold : p.pr.nextIdx ≤ i
    · exact h.passed i hold hhigh hsame
    by_cases hasked : i = p.pr.nextIdx - 1
    · rw [← hasked] at hrefused
      exact hrefused hsame
    · -- an index that was jumped over lies behind the end of the follower's log
      obtain ⟨t, ht, _⟩ := hsame
      have hin := (bounds_of_stampAt ht).2
      omega

theorem advances_probeRound (hL : leader.Presents M) (hF : follower.Presents P)
    (hM : Uncompacted M) (hP : Uncompacted P) (hhigh : pr.nextIdx ≤ M.lastIndex + 1) :
    Round.Advances (probeRound leader) (Narrowed follower pr P M) (fun p => p.pr.nextIdx - 1)
      (Met follower pr P M) := by
  intro p h
  have hle := h.le
  have hsame := holdSame_iff hM hP (show p.pr.nextIdx - 1 ≤ M.lastIndex by omega)
  have hrun := probeRound_eq (p := p) hL (by rw [h.log]; exact hF) h.positive
  by_cases hheld : HoldSame P M (p.pr.nextIdx - 1)
  · rw [if_pos (hsame.mpr hheld)] at hrun
    exact .done p hrun ⟨h, hheld⟩
  · rw [if_neg fun heq => hheld (hsame.mp heq)] at hrun
    obtain ⟨hnarrowed, hlt⟩ := h.decr hP hM hheld
    exact .next _ hrun hnarrowed hlt

/-! ## §3  The probing -/

/-- With enough rounds the probing stops, having touched the follower's log nowhere; every
refused round lowers `next_idx`, not below `1`; and it ends right behind the last index,
from the first one asked for down, at which the logs hold the same term, up to which they
agree. -/
structure Converges (leader : RaftLog T) (follower : RaftLog U) (pr : Progress)
    (M P : PlainLog Entry ℕ) (pr' : Progress) : Prop where
  stops : ∀ fuel, pr.nextIdx ≤ fuel →
    Round.loop (probeRound leader) fuel ⟨follower, pr⟩ = .ok (some ⟨follower, pr'⟩)
  lowers : ∀ p p', Round.Leads (probeRound leader) ⟨follower, pr⟩ p →
    probeRound leader p = .ok (.next p') →
      p'.pr.nextIdx < p.pr.nextIdx ∧ 1 ≤ p'.pr.nextIdx
  positive : 1 ≤ pr'.nextIdx
  greatest : IsGreatest {i | i ≤ pr.nextIdx - 1 ∧ HoldSame P M i} (pr'.nextIdx - 1)
  agrees : AgreesUpTo P M (pr'.nextIdx - 1)

/-- Probing converges to the agreement point of the two logs. -/
theorem probing_converges (hL : leader.Presents M) (hF : follower.Presents P)
    (hM : Uncompacted M) (hP : Uncompacted P) (hmatch : Matching P M)
    (hstate : pr.state = .Probe) (hlow : 1 ≤ pr.nextIdx)
    (hhigh : pr.nextIdx ≤ M.lastIndex + 1) :
    ∃ pr', Converges leader follower pr M P pr' := by
  have hstart : Narrowed follower pr P M ⟨follower, pr⟩ :=
    ⟨rfl, hstate, hlow, Nat.le_refl _, fun i hge hlt => absurd hge (Nat.not_le_of_lt hlt)⟩
  have hadvances := advances_probeRound hL hF hM hP hhigh
  obtain ⟨⟨log, pr'⟩, ⟨hend, hsame⟩, hloop⟩ := hadvances.loop_returns hstart
  obtain rfl : log = follower := hend.log
  have hpositive : 1 ≤ pr'.nextIdx := hend.positive
  have hle : pr'.nextIdx ≤ pr.nextIdx := hend.le
  refine ⟨pr', ?_, ?_, hpositive, ⟨⟨Nat.sub_le_sub_right hle 1, hsame⟩, ?_⟩, ?_⟩
  · intro fuel hfuel
    exact hloop fuel (by dsimp only; omega)
  · intro p p' hleads hnext
    have hp := hadvances.of_leads hstart hleads
    obtain ⟨hp', hlt⟩ := hadvances.of_next hp hnext
    exact ⟨by omega, hp'.positive⟩
  · rintro i ⟨hi, hheld⟩
    by_contra hgt
    exact hend.passed i (by show pr'.nextIdx ≤ i; omega) (by omega) hheld
  · obtain ⟨t, hPt, hMt⟩ := hsame
    exact hmatch _ t hPt hMt

/-! The follower's third entry is of another term, and its log is the shorter one. -/

def leadingLog : RaftLog MemStorage :=
  { store := {}
    unstable := { offset := 1, entries := RaftLog.fourEntries.tail }
    committed := 1
    applied := 0 }

def behindLast : Progress := { Progress.new 5 256 with nextIdx := 5 }

example : Round.loop (probeRound leadingLog) 5 ⟨RaftLog.laggingLog, behindLast⟩ =
    .ok (some ⟨RaftLog.laggingLog, { behindLast with nextIdx := 3 }⟩) := rfl

theorem uncompacted_fourEntries : Uncompacted RaftLog.fourEntries := ⟨rfl, rfl, by decide⟩

theorem uncompacted_threeEntries : Uncompacted RaftLog.threeEntries := ⟨rfl, rfl, by decide⟩

theorem probing_converges_behindLast :
    ∃ pr', Converges leadingLog RaftLog.laggingLog behindLast RaftLog.fourEntries
      RaftLog.threeEntries pr' := by
  have hL : leadingLog.Presents RaftLog.fourEntries :=
    RaftLog.Unstored.presents ⟨MemStorage.holds_empty, rfl, rfl⟩
  have hF : RaftLog.laggingLog.Presents RaftLog.threeEntries :=
    RaftLog.Unstored.presents ⟨MemStorage.holds_empty, rfl, rfl⟩
  exact probing_converges hL hF uncompacted_fourEntries uncompacted_threeEntries
    RaftLog.matching_threeEntries rfl (by decide) (by decide)

end RsRaft
