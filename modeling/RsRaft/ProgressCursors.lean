import RsRaft.Lib.EveryCall
import RsRaft.Progress

/-!
# The cursors of one peer's progress

`matched` is what the peer is known to hold, `next_idx` what is sent next. Most
calls keep `next_idx` behind `matched`; a late rejection of a probed peer need
not. And a progress in the snapshot state should remember the snapshot's index
until it is done with it, which it does not: `become_snapshot` writes it to the
wrong field.

§1 the calls · §2 the cursors along a run · §3 a snapshot on its way.
-/

namespace RsRaft

/-! ## §1  The calls -/

inductive CursorCall where
  | maybeUpdate (n : ℕ)
  | maybeDecrTo (rejected last : ℕ)
  | optimisticUpdate (n : ℕ)
  | becomeProbe
  | becomeReplicate
  | becomeSnapshot (snapshotIdx : ℕ)
  | snapshotFailure
  | reset (nextIdx : ℕ)
deriving DecidableEq, Repr

namespace CursorCall

def run (pr : Progress) : CursorCall → Progress
  | maybeUpdate n => (pr.maybeUpdate n).2
  | maybeDecrTo rejected last => (pr.maybeDecrTo rejected last).2
  | optimisticUpdate n => pr.optimisticUpdate n
  | becomeProbe => pr.becomeProbe
  | becomeReplicate => pr.becomeReplicate
  | becomeSnapshot snapshotIdx => pr.becomeSnapshot snapshotIdx
  | snapshotFailure => pr.snapshotFailure
  | reset nextIdx => pr.reset nextIdx

/-- What the callers see to: rejections may be any. -/
def Allowed (pr : Progress) : CursorCall → Prop
  | optimisticUpdate n => pr.nextIdx ≤ n + 1
  | becomeSnapshot snapshotIdx => pr.matched < snapshotIdx
  | reset nextIdx => 1 ≤ nextIdx
  | _ => True

/-- Afterwards `next_idx` is behind `matched`, which has not gone back unless the call is
`reset`; before, `next_idx - 1` does not underflow. -/
structure Keeps (pr : Progress) (c : CursorCall) : Prop where
  ahead : (c.run pr).matched < (c.run pr).nextIdx
  mono : (∀ nextIdx, c ≠ reset nextIdx) → pr.matched ≤ (c.run pr).matched
  positive : 1 ≤ pr.nextIdx

/-- A rejection of the index last asked for, by a peer that holds it, or that reports a
last index behind what is matched. -/
def Undercuts (pr : Progress) : CursorCall → Prop
  | maybeDecrTo rejected last =>
      pr.state ≠ .Replicate ∧ pr.nextIdx - 1 = rejected ∧ 1 ≤ pr.matched ∧
        (rejected = pr.matched ∨ last < pr.matched)
  | _ => False

end CursorCall

/-- Every call of the sequence meets `P` in the progress before it. -/
def EveryCursorCall (P : Progress → CursorCall → Prop) : List CursorCall → Progress → Prop :=
  EveryCall (fun pr c pr' => c.run pr = pr') P

namespace Progress

variable {pr : Progress} {c : CursorCall}

theorem maybeUpdate_cursors (pr : Progress) (n : ℕ) :
    (pr.maybeUpdate n).2.matched = max pr.matched n ∧
      (pr.maybeUpdate n).2.nextIdx = max pr.nextIdx (n + 1) ∧
      (pr.maybeUpdate n).2.state = pr.state ∧
      (pr.maybeUpdate n).2.pendingSnapshot = pr.pendingSnapshot := by
  unfold maybeUpdate
  dsimp only
  by_cases hm : pr.matched < n
  · rw [if_pos hm, Nat.max_eq_right (Nat.le_of_lt hm)]
    split
    · rename_i hn
      exact ⟨rfl, (Nat.max_eq_right (Nat.le_of_lt hn)).symm, rfl, rfl⟩
    · rename_i hn
      exact ⟨rfl, (Nat.max_eq_left (Nat.le_of_not_lt hn)).symm, rfl, rfl⟩
  · rw [if_neg hm, Nat.max_eq_left (Nat.le_of_not_lt hm)]
    split
    · rename_i hn
      exact ⟨rfl, (Nat.max_eq_right (Nat.le_of_lt hn)).symm, rfl, rfl⟩
    · rename_i hn
      exact ⟨rfl, (Nat.max_eq_left (Nat.le_of_not_lt hn)).symm, rfl, rfl⟩

/-- The rejected index is taken back to what the peer reports, but not behind `1`. -/
theorem maybeDecrTo_probed (rejected last : ℕ) (hstate : pr.state ≠ .Replicate)
    (hnext : pr.nextIdx ≠ 0) (hrej : pr.nextIdx - 1 = rejected) :
    (pr.maybeDecrTo rejected last).2 =
      { pr with nextIdx := max 1 (min rejected (last + 1)), paused := false } := by
  rw [maybeDecrTo, if_neg hstate, if_neg (not_or.mpr ⟨hnext, not_not_intro hrej⟩)]
  dsimp only
  split
  · rename_i hlow
    rw [Nat.max_eq_left (Nat.le_of_lt hlow)]
    rfl
  · rename_i hlow
    rw [Nat.max_eq_right (Nat.le_of_not_lt hlow)]
    rfl

theorem maybeDecrTo_stale (rejected last : ℕ) (hstate : pr.state ≠ .Replicate)
    (hstale : pr.nextIdx = 0 ∨ pr.nextIdx - 1 ≠ rejected) :
    (pr.maybeDecrTo rejected last).2 = pr := by
  rw [maybeDecrTo, if_neg hstate, if_pos hstale]

/-- A replicating peer's rejection takes `next_idx` back to what is matched at most. -/
theorem maybeDecrTo_replicating (rejected last : ℕ) (hstate : pr.state = .Replicate) :
    (pr.maybeDecrTo rejected last).2 = pr ∨
      (pr.maybeDecrTo rejected last).2 = { pr with nextIdx := pr.matched + 1 } := by
  rw [maybeDecrTo, if_pos hstate]
  split
  · exact Or.inl rfl
  · exact Or.inr rfl

/-! ## §2  The cursors along a run -/

theorem keeps_maybeDecrTo_iff (h : pr.matched < pr.nextIdx) (rejected last : ℕ) :
    CursorCall.Keeps pr (.maybeDecrTo rejected last) ↔
      ¬ (CursorCall.maybeDecrTo rejected last).Undercuts pr := by
  have hpos : 1 ≤ pr.nextIdx := Nat.one_le_of_lt h
  by_cases hstate : pr.state = .Replicate
  · refine iff_of_true ?_ fun hbad => hbad.1 hstate
    rcases maybeDecrTo_replicating rejected last hstate with heq | heq
    · exact ⟨by rw [CursorCall.run, heq]; exact h, fun _ => by rw [CursorCall.run, heq], hpos⟩
    · refine ⟨?_, fun _ => ?_, hpos⟩
      · rw [CursorCall.run, heq]
        exact Nat.lt_succ_self _
      · rw [CursorCall.run, heq]
  · by_cases hrej : pr.nextIdx - 1 = rejected
    · have heq := maybeDecrTo_probed rejected last hstate (Nat.ne_of_gt hpos) hrej
      have hahead : pr.matched < max 1 (min rejected (last + 1)) ↔
          ¬ (CursorCall.maybeDecrTo rejected last).Undercuts pr := by
        -- the index asked for is at least what is matched
        have hle : pr.matched ≤ rejected := by omega
        simp only [CursorCall.Undercuts, hstate, hrej, ne_eq, not_false_eq_true, true_and]
        omega
      rw [← hahead]
      constructor
      · intro hkeeps
        have hkeeps := hkeeps.ahead
        rwa [CursorCall.run, heq] at hkeeps
      · intro hlt
        refine ⟨?_, fun _ => ?_, hpos⟩
        · rw [CursorCall.run, heq]
          exact hlt
        · rw [CursorCall.run, heq]
    · have heq := maybeDecrTo_stale rejected last hstate (Or.inr hrej)
      refine iff_of_true ⟨?_, fun _ => ?_, hpos⟩ fun hbad => hrej hbad.2.1
      · rw [CursorCall.run, heq]
        exact h
      · rw [CursorCall.run, heq]

/-- Every other call leaves `next_idx` behind `matched`. -/
theorem keeps_iff (h : pr.matched < pr.nextIdx) (hc : c.Allowed pr) :
    CursorCall.Keeps pr c ↔ ¬ c.Undercuts pr := by
  have hpos : 1 ≤ pr.nextIdx := Nat.one_le_of_lt h
  cases c with
  | maybeDecrTo rejected last => exact keeps_maybeDecrTo_iff h rejected last
  | maybeUpdate n =>
      refine iff_of_true ?_ not_false
      obtain ⟨hm, hn, _⟩ := maybeUpdate_cursors pr n
      refine ⟨?_, fun _ => ?_, hpos⟩
      · rw [CursorCall.run, hm, hn]
        omega
      · rw [CursorCall.run, hm]
        exact Nat.le_max_left _ _
  | optimisticUpdate n =>
      exact iff_of_true ⟨Nat.lt_of_lt_of_le h hc, fun _ => Nat.le_refl _, hpos⟩ not_false
  | becomeProbe =>
      refine iff_of_true ?_ not_false
      have hmatched : pr.becomeProbe.matched = pr.matched ∧
          pr.matched < pr.becomeProbe.nextIdx := by
        rw [becomeProbe]
        split
        · exact ⟨rfl, Nat.le_max_left _ _⟩
        · exact ⟨rfl, Nat.lt_succ_self _⟩
      refine ⟨?_, fun _ => Nat.le_of_eq hmatched.1.symm, hpos⟩
      rw [CursorCall.run, hmatched.1]
      exact hmatched.2
  | becomeReplicate =>
      exact iff_of_true ⟨Nat.lt_succ_self _, fun _ => Nat.le_refl _, hpos⟩ not_false
  | becomeSnapshot snapshotIdx =>
      exact iff_of_true ⟨hc, fun _ => Nat.le_refl _, hpos⟩ not_false
  | snapshotFailure => exact iff_of_true ⟨h, fun _ => Nat.le_refl _, hpos⟩ not_false
  | reset nextIdx =>
      exact iff_of_true ⟨hc, fun hno => absurd rfl (hno nextIdx), hpos⟩ not_false

/-- Along a run, `next_idx` stays behind `matched` exactly if no late rejection undercuts
it. -/
theorem cursors_iff (h : pr.matched < pr.nextIdx) {cs : List CursorCall}
    (hcs : EveryCursorCall CursorCall.Allowed cs pr) :
    EveryCursorCall CursorCall.Keeps cs pr ↔
      EveryCursorCall (fun pr c => ¬ c.Undercuts pr) cs pr := by
  refine EveryCall.iff_of_invariant
    (fun pr c (h : pr.matched < pr.nextIdx) hc => keeps_iff h hc) ?_ h hcs
  rintro pr c _ h hc hno rfl
  exact ((keeps_iff h hc).mpr hno).ahead

/-! A probed peer that holds five entries rejects the fifth once more. -/

def probedFive : Progress := { Progress.new 1 256 with matched := 5, nextIdx := 6 }

theorem not_cursors_lateRejection :
    probedFive.matched < probedFive.nextIdx ∧
      EveryCursorCall CursorCall.Allowed [.maybeDecrTo 5 9] probedFive ∧
      ¬ EveryCursorCall CursorCall.Keeps [.maybeDecrTo 5 9] probedFive := by
  refine ⟨by decide, ⟨trivial, fun _ _ => trivial⟩, ?_⟩
  rintro ⟨hkeeps, _⟩
  have hahead := hkeeps.ahead
  revert hahead
  decide

theorem cursors_iff_lateRejection :
    EveryCursorCall CursorCall.Keeps [.maybeDecrTo 5 9] probedFive ↔
      EveryCursorCall (fun pr c => ¬ c.Undercuts pr) [.maybeDecrTo 5 9] probedFive :=
  cursors_iff (by decide) ⟨trivial, fun _ _ => trivial⟩

/-! ## §3  A snapshot on its way -/

end Progress

inductive SnapshotCall where
  | maybeUpdate (n : ℕ)
  | pause
  | resume
  | snapshotFailure
deriving DecidableEq, Repr

def SnapshotCall.run (pr : Progress) : SnapshotCall → Progress
  | maybeUpdate n => (pr.maybeUpdate n).2
  | pause => pr.pause
  | resume => pr.resume
  | snapshotFailure => pr.snapshotFailure

namespace Progress

variable {pr : Progress} {cs : List SnapshotCall} {s : ℕ}

/-- The progress after `become_snapshot(s)` and the calls. -/
def sending (pr : Progress) (s : ℕ) (cs : List SnapshotCall) : Progress :=
  cs.foldl SnapshotCall.run (pr.becomeSnapshot s)

/-- The peer is paused; the snapshot is given up exactly when it is not needed any more; and
probing goes on behind the snapshot, or behind what is matched if it failed. -/
structure LifeCycle (pr : Progress) (s : ℕ) (cs : List SnapshotCall) : Prop where
  paused : (pr.sending s cs).isPaused = true
  abort : .snapshotFailure ∉ cs →
    ((pr.sending s cs).maybeSnapshotAbort = true ↔ s ≤ (pr.sending s cs).matched)
  probe : .snapshotFailure ∉ cs →
    (pr.sending s cs).becomeProbe.nextIdx = max (pr.sending s cs).matched s + 1
  failed : .snapshotFailure ∈ cs →
    (pr.sending s cs).becomeProbe.nextIdx = (pr.sending s cs).matched + 1

/-- The pending index is `0` from the beginning. -/
theorem snapshot_run (cs : List SnapshotCall) (hstate : pr.state = .Snapshot)
    (hpending : pr.pendingSnapshot = 0) :
    (cs.foldl SnapshotCall.run pr).state = .Snapshot ∧
      (cs.foldl SnapshotCall.run pr).pendingSnapshot = 0 := by
  induction cs generalizing pr with
  | nil => exact ⟨hstate, hpending⟩
  | cons c cs ih =>
      rw [List.foldl_cons]
      cases c with
      | maybeUpdate n =>
          obtain ⟨_, _, hst, hp⟩ := maybeUpdate_cursors pr n
          exact ih (hst.trans hstate) (hp.trans hpending)
      | pause => exact ih hstate hpending
      | resume => exact ih hstate hpending
      | snapshotFailure => exact ih hstate rfl

/-- The calls reach `s` if one of the updates does. -/
theorem le_matched_run_iff :
    s ≤ (cs.foldl SnapshotCall.run pr).matched ↔
      s ≤ pr.matched ∨ ∃ n, .maybeUpdate n ∈ cs ∧ s ≤ n := by
  induction cs generalizing pr with
  | nil => simp
  | cons c cs ih =>
      rw [List.foldl_cons, ih]
      cases c with
      | maybeUpdate n =>
          rw [SnapshotCall.run, (maybeUpdate_cursors pr n).1, le_max_iff]
          constructor
          · rintro ((hm | hn) | ⟨k, hk, hle⟩)
            · exact Or.inl hm
            · exact Or.inr ⟨n, List.mem_cons_self, hn⟩
            · exact Or.inr ⟨k, List.mem_cons_of_mem _ hk, hle⟩
          · rintro (hm | ⟨k, hk, hle⟩)
            · exact Or.inl (Or.inl hm)
            · rcases List.mem_cons.mp hk with heq | hk
              · cases heq
                exact Or.inl (Or.inr hle)
              · exact Or.inr ⟨k, hk, hle⟩
      | _ => simp [SnapshotCall.run, pause, resume, snapshotFailure]

/-- In the snapshot state with no index pending, probing would go on behind what is matched. -/
theorem becomeProbe_of_snapshot (hstate : pr.state = .Snapshot)
    (hpending : pr.pendingSnapshot = 0) :
    pr.becomeProbe.nextIdx = pr.matched + 1 := by
  rw [becomeProbe, if_pos hstate, hpending]
  exact Nat.max_eq_left (Nat.le_add_left _ _)

/-- The snapshot's index was never pending: the life cycle is right exactly if the snapshot
failed, or the peer caught up with it. -/
theorem lifeCycle_iff (h : pr.matched < s) (cs : List SnapshotCall) :
    LifeCycle pr s cs ↔ .snapshotFailure ∈ cs ∨ ∃ n, .maybeUpdate n ∈ cs ∧ s ≤ n := by
  have hstart : (pr.becomeSnapshot s).state = .Snapshot := rfl
  obtain ⟨hstate, hpending⟩ := snapshot_run cs hstart rfl
  have hpaused : (pr.sending s cs).isPaused = true := by
    rw [isPaused, sending, hstate]
  have habort : (pr.sending s cs).maybeSnapshotAbort = true := by
    rw [maybeSnapshotAbort, sending, hstate, hpending]
    rfl
  have hprobe := becomeProbe_of_snapshot hstate hpending
  have hreach : s ≤ (pr.sending s cs).matched ↔ ∃ n, .maybeUpdate n ∈ cs ∧ s ≤ n := by
    rw [sending, le_matched_run_iff]
    exact or_iff_right (Nat.not_le_of_lt h)
  constructor
  · intro hlife
    by_cases hfail : .snapshotFailure ∈ cs
    · exact Or.inl hfail
    · exact Or.inr (hreach.mp ((hlife.abort hfail).mp habort))
  · intro hcond
    refine ⟨hpaused, fun hno => ?_, fun hno => ?_, fun _ => hprobe⟩
    · exact iff_of_true habort (hreach.mpr (hcond.resolve_left hno))
    · have hle := hreach.mpr (hcond.resolve_left hno)
      rw [Nat.max_eq_left hle]
      exact hprobe

/-! A snapshot of index `5` to a peer that holds nothing: it would be given up at once. -/

theorem not_lifeCycle_five :
    (Progress.new 1 256).matched < 5 ∧ ¬ LifeCycle (Progress.new 1 256) 5 [] := by
  refine ⟨by decide, ?_⟩
  intro hlife
  have habort := hlife.abort (by decide)
  revert habort
  decide

theorem lifeCycle_iff_five :
    LifeCycle (Progress.new 1 256) 5 [.pause, .maybeUpdate 7] ↔
      .snapshotFailure ∈ [SnapshotCall.pause, .maybeUpdate 7] ∨
        ∃ n, .maybeUpdate n ∈ [SnapshotCall.pause, .maybeUpdate 7] ∧ 5 ≤ n :=
  lifeCycle_iff (by decide) _

end Progress

end RsRaft
