import RsRaft.CommittedFinal

/-!
# Using a restored log

After `restore` the log should stand at the snapshot: its index is the last
index, its term can be read, and appending goes on behind it. The cursors do
stand there. But the tail begins at the snapshot's own index instead of behind
it, so the term is looked for among the entries, of which there are none, and
every append finds a gap.
-/

namespace RsRaft

namespace RaftLog

section

variable [ProtoMessage Entry] {s : Snapshot} {es : List Entry}

/-- The snapshot is applied to the store, and the tail told. -/
def persistSnapshot (log : RaftLog MemStorage) (s : Snapshot) : RaftLog MemStorage :=
  RaftLog.stableSnapshotTo { log with store := { core := (log.store.core.applySnapshot s).2 } }
    s.metadata.index

/-- `es` can be read behind the snapshot, and ends the log. -/
structure Extended (s : Snapshot) (es : List Entry) (log : RaftLog MemStorage) : Prop where
  lastIndex : log.lastIndex = .ok (s.metadata.index + es.length)
  term : ∀ k e, es[k]? = some e → log.term (s.metadata.index + 1 + k) = .ok (.ok e.term)
  slice : log.slice (s.metadata.index + 1) (s.metadata.index + 1 + es.length) NO_LIMIT =
    .ok (.ok es)

/-- The log stands at the snapshot, goes on behind it, and does not change when the
snapshot reaches the store. -/
structure RestoredAsClaimed (log : RaftLog MemStorage) (s : Snapshot) : Prop where
  firstIndex : (log.restore s).firstIndex = .ok (s.metadata.index + 1)
  lastIndex : (log.restore s).lastIndex = .ok s.metadata.index
  committed : (log.restore s).committed = s.metadata.index
  term : (log.restore s).term s.metadata.index = .ok (.ok s.metadata.term)
  unstable : (log.restore s).unstableEntries = none
  persist : ReadsAlike (log.restore s) ((log.restore s).persistSnapshot s)
  append : ∀ es, es ≠ [] → Consecutive s.metadata.index es →
    ∃ n log', (log.restore s).append es = .ok (n, log') ∧ Extended s es log' ∧
      ReadsAlike log' (log'.persistSnapshot s)

/-- The indices and the commit index are those of the snapshot. -/
theorem restore_cursors (log : RaftLog MemStorage) (s : Snapshot) :
    (log.restore s).firstIndex = .ok (s.metadata.index + 1) ∧
      (log.restore s).lastIndex = .ok s.metadata.index ∧
      (log.restore s).committed = s.metadata.index ∧ (log.restore s).unstableEntries = none := by
  refine ⟨?_, ?_, rfl, rfl⟩
  · simp [RaftLog.firstIndex, RaftLog.restore, Unstable.restore, Unstable.maybeFirstIndex]
  · simp [RaftLog.lastIndex, RaftLog.restore, Unstable.restore, Unstable.maybeLastIndex]

/-- At the snapshot's index the offset is reached, but there is no entry. -/
theorem restore_term (log : RaftLog MemStorage) (s : Snapshot) :
    (log.restore s).term s.metadata.index = .error .indexOutOfBounds := by
  obtain ⟨hfirst, hlast, _, _⟩ := restore_cursors log s
  have hterm : (log.restore s).unstable.maybeTerm s.metadata.index = .error .indexOutOfBounds := by
    simp [RaftLog.restore, Unstable.restore, Unstable.maybeTerm, Unstable.maybeLastIndex]
  rw [RaftLog.term, hfirst, ok_bind, wrappingSub_of_le (by omega), Nat.add_sub_cancel,
    if_neg (Nat.lt_irrefl _), hlast, ok_bind, if_neg (Nat.lt_irrefl _), hterm]
  rfl

/-- Behind the snapshot the tail sees a gap. -/
theorem restore_append (log : RaftLog MemStorage) (hne : es ≠ [])
    (hes : Consecutive s.metadata.index es) :
    (log.restore s).append es = .error (.unstableOutOfBound s.metadata.index
      (s.metadata.index + 1) s.metadata.index s.metadata.index) := by
  have hgap := Unstable.truncateAndAppend_restored s hne hes (Nat.le_refl _)
  have htail : (log.restore s).unstable.truncateAndAppend es = _ := hgap
  have hcom : (log.restore s).committed = s.metadata.index := rfl
  obtain ⟨e, es', rfl⟩ := List.exists_cons_of_ne_nil hne
  have hidx : e.index = s.metadata.index + 1 := hes 0 e rfl
  simp only [RaftLog.append, hidx]
  rw [wrappingSub_of_le (by omega), if_neg (by omega), htail]
  rfl

/-- No log is usable after a restore: the snapshot's term cannot be read, and nothing
can be appended behind it. -/
theorem restore_unusable (log : RaftLog MemStorage) (s : Snapshot) :
    ¬ RestoredAsClaimed log s ∧
      (log.restore s).term s.metadata.index = .error .indexOutOfBounds ∧
      ∀ es, es ≠ [] → Consecutive s.metadata.index es →
        ∃ p, (log.restore s).append es = .error p := by
  refine ⟨?_, restore_term log s, fun es hne hes => ⟨_, restore_append log hne hes⟩⟩
  intro h
  have hterm := h.term
  rw [restore_term] at hterm
  cases hterm

end

/-! A snapshot of index `5` restored into a new, empty log. -/

def snapshotFive : Snapshot := { metadata := { index := 5, term := 2 } }

theorem not_restoredAsClaimed_five :
    freshLog.WellFormed ∧ freshLog.committed ≤ snapshotFive.metadata.index ∧
      freshLog.store.core.snapshot.metadata.index < snapshotFive.metadata.index ∧
      ¬ RestoredAsClaimed freshLog snapshotFive := by
  refine ⟨⟨MemStorageCore.wellFormed_default, index_of_range' (by decide), by decide, by decide,
    by decide⟩, by decide, by decide, ?_⟩
  intro h
  have hterm := h.term
  rw [restore_term] at hterm
  cases hterm

end RaftLog

end RsRaft
