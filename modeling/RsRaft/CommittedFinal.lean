import RsRaft.LogRun

/-!
# Committed entries are final

Whatever calls a log created over a well-formed store sees, applied, committed
and last index stay in order, the first two never go back, and an entry once
committed keeps its value until a snapshot replaces the log. The writes of a
sound log keep it sound; a log that has just been restored refuses every write
that would change it.

§1 the calls · §2 a restored log · §3 the run.
-/

namespace RsRaft

open PlainLog

/-! ## §1  The calls -/

inductive LogCall where
  | write (w : LogWrite)
  | appliedTo (idx : ℕ)
  | restore (snapshot : Snapshot)
deriving DecidableEq, Repr

namespace LogCall

variable {T : Type} [Storage T]

def run (log : RaftLog T) : LogCall → Except Panic (RaftLog T)
  | write w => w.run log
  | appliedTo idx => log.appliedTo idx
  | restore snapshot => .ok (log.restore snapshot)

omit [Storage T] in
/-- Batches are consecutive, and a snapshot reaches as far as the commit index. -/
def Admissible (log : RaftLog T) : LogCall → Prop
  | write w => w.Admissible
  | appliedTo _ => True
  | restore snapshot => log.committed ≤ snapshot.metadata.index

end LogCall

/-- The calls `cs` turn `log` into the last log, none of them panicking. -/
inductive LogRun {T : Type} [Storage T] (log : RaftLog T) : List LogCall → RaftLog T → Prop
  | nil : LogRun log [] log
  | snoc {cs : List LogCall} {c : LogCall} {log' log'' : RaftLog T} (h : LogRun log cs log')
      (hadm : c.Admissible log') (hrun : c.run log' = .ok log'') : LogRun log (cs ++ [c]) log''

/-! ## §2  A restored log -/

/-- The tail a restore leaves begins one below the only index an append could go on
from. -/
theorem Unstable.truncateAndAppend_restored (s : Snapshot) {es : List Entry} {i : ℕ}
    (hne : es ≠ []) (hes : RaftLog.Consecutive i es) (hi : s.metadata.index ≤ i) :
    Unstable.truncateAndAppend
        { snapshot := some s, entries := [], offset := s.metadata.index } es =
      .error (.unstableOutOfBound s.metadata.index (i + 1) s.metadata.index
        s.metadata.index) := by
  obtain ⟨e, es', rfl⟩ := List.exists_cons_of_ne_nil hne
  have hidx : e.index = i + 1 := hes 0 e rfl
  simp only [Unstable.truncateAndAppend, hidx, List.length_nil, Nat.add_zero]
  rw [if_neg (by omega), if_neg (by omega), Unstable.mustCheckOutOfBounds, if_neg (by omega)]
  simp only [List.length_nil, Nat.add_zero]
  rw [if_pos (Or.inr (by omega))]
  rfl

namespace RaftLog

section

variable {T : Type} [Storage T] {log log' : RaftLog T} {s : Snapshot} {i c t : ℕ}
  {es : List Entry}

/-- The log as `restore` leaves it: no entries, and the offset at the snapshot itself. -/
structure Restored (log : RaftLog T) (s : Snapshot) : Prop where
  unstable : log.unstable = { snapshot := some s, entries := [], offset := s.metadata.index }
  committed : log.committed = s.metadata.index
  applied_le : log.applied ≤ log.committed

namespace Restored

theorem firstIndex (h : Restored log s) : log.firstIndex = .ok (s.metadata.index + 1) := by
  simp [RaftLog.firstIndex, Unstable.maybeFirstIndex, h.unstable]

theorem lastIndex (h : Restored log s) : log.lastIndex = .ok s.metadata.index := by
  simp [RaftLog.lastIndex, Unstable.maybeLastIndex, h.unstable]

theorem commitTo (h : Restored log s) (hrun : log.commitTo c = .ok log') : log' = log := by
  unfold RaftLog.commitTo at hrun
  split at hrun
  · cases hrun
    rfl
  · rename_i hlt
    rw [h.lastIndex, ok_bind, if_pos (by rw [h.committed] at hlt; omega)] at hrun
    cases hrun

omit [Storage T] in
theorem truncateAndAppend_error (h : Restored log s) (hne : es ≠ []) (hes : Consecutive i es)
    (hc : log.committed ≤ i) :
    log.unstable.truncateAndAppend es = .error (.unstableOutOfBound s.metadata.index (i + 1)
      s.metadata.index s.metadata.index) := by
  rw [h.unstable]
  exact Unstable.truncateAndAppend_restored s hne hes (by rw [← h.committed]; exact hc)

theorem append (h : Restored log s) (hes : Consecutive i es) {n : ℕ}
    (hrun : log.append es = .ok (n, log')) : log' = log := by
  rcases append_ok hes hrun with rfl | ⟨u, hne, hc, hu, _⟩
  · rfl
  · rw [h.truncateAndAppend_error hne hes hc] at hu
    cases hu

/-- Writes that return have done nothing. -/
theorem write (h : Restored log s) {w : LogWrite} (hw : w.Admissible)
    (hrun : w.run log = .ok log') : log' = log := by
  refine LogWrite.run_rel (R := fun log log' => Restored log s → log' = log)
    ?_ ?_ ?_ ?_ hw hrun h
  · intro log _
    rfl
  · intro log₁ log₂ log₃ h₁₂ h₂₃ h
    obtain rfl := h₁₂ h
    exact h₂₃ h
  · intro log log' i es n hes hrun h
    exact h.append hes hrun
  · intro log log' c hrun h
    exact h.commitTo hrun

end Restored

end

/-! ## §3  The run -/

section

variable [ProtoMessage Entry] {store : MemStorage} {log₀ log log' : RaftLog MemStorage}
  {cs : List LogCall} {c : LogCall}

/-- Every log of a run is sound or as a restore left it. -/
inductive Standing (log : RaftLog MemStorage) : Prop where
  | sound (h : Sound log)
  | restored (s : Snapshot) (h : Restored log s)

omit [ProtoMessage Entry] in
theorem restored_restore {s : Snapshot} (ha : log.applied ≤ log.committed)
    (hs : log.committed ≤ s.metadata.index) : Restored (log.restore s) s :=
  ⟨rfl, rfl, Nat.le_trans ha hs⟩

namespace Standing

omit [ProtoMessage Entry] in
theorem applied_le (h : Standing log) : log.applied ≤ log.committed := by
  cases h with
  | sound h => exact h.applied_le
  | restored s h => exact h.applied_le

theorem committed_le (h : Standing log) :
    ∃ last, log.lastIndex = .ok last ∧ log.committed ≤ last := by
  cases h with
  | sound h => exact ⟨_, h.wellFormed.presents.lastIndex, h.committed_le⟩
  | restored s h => exact ⟨_, h.lastIndex, Nat.le_of_eq h.committed⟩

/-- No call moves a cursor back. -/
theorem call (h : Standing log) (hadm : c.Admissible log) (hrun : c.run log = .ok log') :
    Standing log' ∧ log.committed ≤ log'.committed ∧ log.applied ≤ log'.applied := by
  cases c with
  | write w =>
      cases h with
      | sound h =>
          obtain ⟨hs, hadv⟩ := h.write hadm hrun
          exact ⟨.sound hs, hadv.committed_le, hadv.applied_le⟩
      | restored s h =>
          obtain rfl := h.write hadm hrun
          exact ⟨.restored s h, Nat.le_refl _, Nat.le_refl _⟩
  | appliedTo idx =>
      cases h with
      | sound h =>
          obtain ⟨hs, hadv⟩ := h.appliedTo hrun
          exact ⟨.sound hs, hadv.committed_le, hadv.applied_le⟩
      | restored s h =>
          obtain ⟨hframe, ha, hle⟩ := appliedTo_ok hrun h.applied_le
          refine ⟨.restored s ⟨?_, ?_, hle⟩, ?_, ha⟩
          all_goals rw [hframe]
          · exact h.unstable
          · exact h.committed
  | restore s =>
      cases hrun
      exact ⟨.restored s (restored_restore h.applied_le hadm), hadm, Nat.le_refl _⟩

theorem run (h : Standing log) (hrun : LogRun log cs log') :
    Standing log' ∧ log.committed ≤ log'.committed ∧ log.applied ≤ log'.applied := by
  induction hrun with
  | nil => exact ⟨h, Nat.le_refl _, Nat.le_refl _⟩
  | snoc _ hadm hcall ih =>
      obtain ⟨hmid, hc, ha⟩ := ih
      obtain ⟨hlast, hc', ha'⟩ := hmid.call hadm hcall
      exact ⟨hlast, Nat.le_trans hc hc', Nat.le_trans ha ha'⟩

end Standing

/-- Between restores a sound log stays sound and keeps what is committed. -/
theorem Sound.run (h : Sound log) (hrun : LogRun log cs log')
    (hno : ∀ s, LogCall.restore s ∉ cs) : Sound log' ∧ Advances log log' := by
  induction hrun with
  | nil => exact ⟨h, Advances.refl log⟩
  | @snoc cs c log₁ log₂ _ hadm hcall ih =>
      obtain ⟨hmid, hadv⟩ := ih fun s hs => hno s (List.mem_append_left _ hs)
      have hlast : Sound log₂ ∧ Advances log₁ log₂ := by
        cases c with
        | write w => exact hmid.write hadm hcall
        | appliedTo idx => exact hmid.appliedTo hcall
        | restore s => exact absurd (List.mem_append_right _ List.mem_cons_self) (hno s)
      exact ⟨hlast.1, hadv.trans hlast.2⟩

/-- What a committed entry's reader sees: the cursors in order, never moving back,
and the entry unchanged as long as no snapshot replaces the log. -/
structure Final (log log' : RaftLog MemStorage) (cs : List LogCall) : Prop where
  ordered : ∃ last, log.lastIndex = .ok last ∧ log.applied ≤ log.committed ∧
    log.committed ≤ last
  committed_le : log.committed ≤ log'.committed
  applied_le : log.applied ≤ log'.applied
  kept : (∀ s, LogCall.restore s ∉ cs) → ∀ first i, log.firstIndex = .ok first →
    first ≤ i → i ≤ log.committed →
      ∃ e, log.slice i (i + 1) NO_LIMIT = .ok (.ok [e]) ∧
        log'.slice i (i + 1) NO_LIMIT = .ok (.ok [e])

/-- At any moment of a run, and for every continuation of it. -/
theorem committed_final (hstore : store.core.WellFormed) (hnew : RaftLog.new store = .ok log₀)
    {cs₀ : List LogCall} (hrun : LogRun log₀ cs₀ log) (hlater : LogRun log cs log') :
    Final log log' cs := by
  have hstand := ((Standing.sound (sound_new hstore hnew).1).run hrun).1
  obtain ⟨_, hc, ha⟩ := hstand.run hlater
  obtain ⟨last, hlast, hle⟩ := hstand.committed_le
  refine ⟨⟨last, hlast, hstand.applied_le, hle⟩, hc, ha, ?_⟩
  intro hno first i hfirst hlow hhigh
  cases hstand with
  | sound h =>
      obtain ⟨h', hadv⟩ := h.run hlater hno
      rw [h.wellFormed.presents.firstIndex] at hfirst
      cases hfirst
      obtain ⟨e, he⟩ := exists_entryAt (show log.logical.base < i by omega)
        (Nat.le_trans hhigh h.committed_le)
      exact ⟨e, h.slice_one he, h'.slice_one (by rw [hadv.kept i hhigh, he])⟩
  | restored s h =>
      -- nothing lies between the snapshot and the commit index
      rw [h.firstIndex] at hfirst
      cases hfirst
      rw [h.committed] at hhigh
      omega

end

/-! Two entries are appended, the first committed and applied; then the second is
replaced by one of a higher term. -/

def firstCommitted : RaftLog MemStorage :=
  { freshLog with
    unstable := { offset := 1, entries := [{ term := 1, index := 1 }, { term := 1, index := 2 }] }
    committed := 1
    applied := 1 }

def secondReplaced : RaftLog MemStorage :=
  { firstCommitted with
    unstable := { offset := 1, entries := [{ term := 1, index := 1 }, { term := 2, index := 2 }] } }

theorem logRun_firstCommitted : LogRun freshLog
    [.write (.append [{ term := 1, index := 1 }, { term := 1, index := 2 }]),
      .write (.maybeCommit 1 1), .appliedTo 1] firstCommitted := by
  have hes : Consecutive 0 [({ term := 1, index := 1 } : Entry), { term := 1, index := 2 }] :=
    index_of_range' (by decide)
  have h₀ : LogRun freshLog [] freshLog := .nil
  have h₁ := LogRun.snoc (c := .write (.append _)) h₀ ⟨0, hes⟩ rfl
  have h₂ := LogRun.snoc (c := .write (.maybeCommit 1 1)) h₁ trivial rfl
  exact LogRun.snoc (c := .appliedTo 1) h₂ trivial rfl

theorem logRun_secondReplaced : LogRun firstCommitted
    [.write (.maybeAppend 1 1 1 [{ term := 2, index := 2 }])] secondReplaced := by
  have hes : Consecutive 1 [({ term := 2, index := 2 } : Entry)] :=
    index_of_range' (by decide)
  exact LogRun.snoc (c := .write (.maybeAppend 1 1 1 _)) .nil hes rfl

theorem committed_final_secondReplaced : Final firstCommitted secondReplaced
    [.write (.maybeAppend 1 1 1 [{ term := 2, index := 2 }])] :=
  committed_final MemStorageCore.wellFormed_default (show RaftLog.new {} = .ok freshLog from rfl)
    logRun_firstCommitted logRun_secondReplaced

end RaftLog

end RsRaft
