import RsRaft.RaftLogView

/-!
# The logical log over the in-memory store

Over `MemStorage` the plain log a `RaftLog` stands for can be written down: the
stored entries below the offset, or none while a snapshot is pending, and then
the unstable ones. Every read of the two tiers is a read of that one log.

§1 the logical log · §2 slices · §3 the reads together.
-/

namespace RsRaft

namespace RaftLog

open PlainLog

/-! ## §1  The logical log -/

/-- What the store keeps below the offset, or the pending snapshot, and then the
unstable entries. -/
def logical (log : RaftLog MemStorage) : PlainLog Entry ℕ :=
  log.unstable.logOver log.store.core.plain

/-- Both tiers hold consecutive entries, and the second begins where the first,
or the pending snapshot, leaves off. -/
structure WellFormed (log : RaftLog MemStorage) : Prop where
  store : log.store.core.WellFormed
  unstable : ∀ k e, log.unstable.entries[k]? = some e → e.index = log.unstable.offset + k
  fits : log.unstable.Fits log.store.core.plain

section

variable [ProtoMessage Entry] {log : RaftLog MemStorage} {low high i : ℕ}

namespace WellFormed

theorem presents (h : log.WellFormed) : log.Presents log.logical :=
  presents_iff.mpr ⟨_, fun _ => MemStorage.holds_plain h.store.nonempty, h.fits, rfl⟩

omit [ProtoMessage Entry] in
theorem consecutive (h : log.WellFormed) :
    Consecutive (log.unstable.offset - 1) log.unstable.entries := by
  intro k e he
  have := h.unstable k e he
  have := h.fits.low
  omega

omit [ProtoMessage Entry] in
/-- Every entry of the logical log carries its index. -/
theorem indexed (h : log.WellFormed) : Indexed log.logical := by
  have hlow := h.fits.low
  have hhigh := h.fits.high
  refine Indexed.overwrite ?_ (by omega) (by omega) h.consecutive
  intro i e he
  cases hsnap : log.unstable.snapshot with
  | none =>
      rw [Unstable.ground_of_none hsnap, MemStorageCore.plain] at he
      obtain ⟨d, es, hd⟩ := List.exists_cons_of_ne_nil h.store.nonempty
      have hb := (bounds_of_entryAt he).1
      rw [entryAt, if_pos hb] at he
      have hbase : log.store.core.plain.base = d.index := by
        rw [MemStorageCore.plain, hd]
        rfl
      rw [hd] at he hb
      have hgt : d.index < i := hb
      have := h.store.consecutive (i - (d.index + 1) + 1) e (by rw [hd]; exact he)
      omega
  | some s =>
      rw [Unstable.ground_of_some hsnap] at he
      simp [entryAt] at he

/-! ## §2  Slices -/

omit [ProtoMessage Entry] in
/-- Behind a pending snapshot nothing lies below the offset. -/
theorem ground_eq_plain (h : log.WellFormed) (hlow : log.logical.base < low)
    (hoff : low < log.unstable.offset) :
    log.unstable.ground log.store.core.plain = log.store.core.plain := by
  cases hs : log.unstable.snapshot with
  | none => exact Unstable.ground_of_none hs
  | some s =>
      have hfits := h.fits.high
      rw [logical, Unstable.logOver_base] at hlow
      rw [Unstable.ground_of_some hs] at hfits hlow
      simp only [PlainLog.lastIndex, List.length_nil] at hfits hlow
      omega

/-- The store's part of a slice is cut from the logical log, already limited. -/
theorem storedSlice_eq (h : log.WellFormed) (hlow : log.logical.base < low)
    (hlt : low < min high log.unstable.offset) (max : ℕ) :
    log.storedSlice low high max = .ok (.ok (limitSize
      (log.logical.segment (low - 1) (min high log.unstable.offset - low)) max)) := by
  have hground := h.ground_eq_plain hlow (by omega)
  have hfits := h.fits.high
  rw [logical, Unstable.logOver_base] at hlow
  have hseg : log.logical.segment (low - 1) (min high log.unstable.offset - low) =
      log.store.core.plain.segment (low - 1) (min high log.unstable.offset - low) := by
    rw [logical, Unstable.logOver, segment_overwrite_le (by omega) (by omega) (by omega), hground]
  rw [hground] at hfits hlow
  have hread : Storage.entries log.store low (min high log.unstable.offset) max =
      .ok (.ok (limitSize (log.store.core.plain.segment (low - 1)
        (min high log.unstable.offset - low)) max)) :=
    MemStorage.entries_eq h.store.nonempty hlow hlt (by omega) max
  rw [RaftLog.storedSlice, hread, hseg]
  rfl

/-- The rest of a slice is the unstable part of the logical log. -/
theorem unstableSlice_eq (h : log.WellFormed) (hoff : low < log.unstable.offset)
    (hhigh : high ≤ log.logical.lastIndex + 1) (max : ℕ) (stored : List Entry) :
    log.unstableSlice low high max stored = .ok (.ok (limitSize
      (stored ++ log.logical.segment (log.unstable.offset - 1) (high - log.unstable.offset))
      max)) := by
  have hfl := h.fits.low
  have hfh := h.fits.high
  rw [logical, h.fits.lastIndex_logOver] at hhigh
  have hseg : log.logical.segment (log.unstable.offset - 1) (high - log.unstable.offset) =
      log.unstable.entries.take (high - log.unstable.offset) :=
    segment_overwrite_ge (by omega) (by omega) 0 _
  rw [RaftLog.unstableSlice, hseg]
  by_cases hgt : high > log.unstable.offset
  · rw [if_pos hgt, Nat.max_eq_right (by omega),
      Unstable.slice_of_mem (Nat.le_refl _) (by omega) (by omega), Nat.sub_self]
    rfl
  · rw [if_neg hgt, show high - log.unstable.offset = 0 by omega, List.take_zero,
      List.append_nil]
    rfl

/-- A slice is the limited segment. The store limits its part already: that part is then
either the whole result or complete. -/
theorem slice_eq (h : log.WellFormed) (hlow : log.logical.base < low) (hlh : low ≤ high)
    (hhigh : high ≤ log.logical.lastIndex + 1) (max : ℕ) :
    log.slice low high max =
      .ok (.ok (limitSize (log.logical.segment (low - 1) (high - low)) max)) := by
  have hp := h.presents
  by_cases hoff : log.unstable.offset ≤ low
  · exact hp.slice_unstable hoff hlh hhigh max
  rw [RaftLog.slice, RaftLog.mustCheckOutOfBounds, if_neg (by omega), hp.firstIndex, ok_bind,
    if_neg (by omega), hp.lastIndex, ok_bind]
  dsimp only
  rw [if_neg (by omega), pure_eq_ok, ok_bind]
  dsimp only
  rcases Nat.eq_or_lt_of_le hlh with rfl | hlt
  · rw [if_pos (Nat.le_refl _), Nat.sub_self, segment_zero]
    simp [limitSize]
  have hlen : (log.logical.segment (low - 1) (min high log.unstable.offset - low)).length =
      min high log.unstable.offset - low := length_segment (by omega) (by omega)
  have hsplit : log.logical.segment (low - 1) (high - low) =
      log.logical.segment (low - 1) (min high log.unstable.offset - low) ++
        log.logical.segment (log.unstable.offset - 1) (high - log.unstable.offset) := by
    by_cases hcut : high ≤ log.unstable.offset
    · rw [Nat.min_eq_left hcut, show high - log.unstable.offset = 0 by omega, segment_zero,
        List.append_nil]
    · rw [Nat.min_eq_right (by omega), show log.unstable.offset - 1 =
          low - 1 + (log.unstable.offset - low) by omega, ← segment_add (by omega)]
      congr 1
      omega
  rw [if_neg (by omega), if_pos (by omega), h.storedSlice_eq hlow (by omega) max, ok_bind,
    hsplit]
  dsimp only
  by_cases hshort : (limitSize (log.logical.segment (low - 1)
      (min high log.unstable.offset - low)) max).length < min high log.unstable.offset - low
  · rw [if_pos hshort, limitSize_append (by omega)]
    rfl
  · rw [if_neg hshort, limitSize_eq_self (by omega), h.unstableSlice_eq (by omega) hhigh]

/-! ## §3  The reads together -/

theorem entries_eq (h : log.WellFormed) (hlow : log.logical.base < i) (max : ℕ) :
    log.entries i max = .ok (.ok (limitSize
      (log.logical.segment (i - 1) (log.logical.lastIndex + 1 - i)) max)) := by
  rw [RaftLog.entries, h.presents.lastIndex, ok_bind]
  by_cases hlast : i > log.logical.lastIndex
  · rw [if_pos hlast, show log.logical.lastIndex + 1 - i = 0 by omega, segment_zero]
    simp [limitSize]
  · rw [if_neg hlast, h.slice_eq hlow (by omega) (Nat.le_refl _)]

/-- The first read already succeeds. -/
theorem allEntries_eq (h : log.WellFormed) (fuel : ℕ) :
    log.allEntries (fuel + 1) = .ok (some log.logical.tail) := by
  rw [RaftLog.allEntries, h.presents.firstIndex, ok_bind,
    h.entries_eq (show log.logical.base < log.logical.base + 1 by omega), limitSize_noLimit,
    Nat.add_sub_cancel, Nat.add_sub_add_right, segment_base]
  rfl

/-- Below the first index a slice is compacted away. -/
theorem slice_compacted_iff (h : log.WellFormed) (hlh : low ≤ high)
    (hhigh : high ≤ log.logical.lastIndex + 1) (max : ℕ) :
    log.slice low high max = .ok (.error (.Store .Compacted)) ↔
      low < log.logical.base + 1 := by
  constructor
  · intro hread
    by_contra hlow
    rw [h.slice_eq (by omega) hlh hhigh] at hread
    cases hread
  · intro hlow
    rw [RaftLog.slice, RaftLog.mustCheckOutOfBounds, if_neg (by omega), h.presents.firstIndex,
      ok_bind, if_pos hlow]
    rfl

end WellFormed

/-- The reads of `log` are the reads of one plain log `L`. -/
structure ReadsAs (log : RaftLog MemStorage) (L : PlainLog Entry ℕ) : Prop where
  firstIndex : log.firstIndex = .ok (L.base + 1)
  lastIndex : log.lastIndex = .ok L.lastIndex
  term : ∀ i t, L.stampAt i = some t → log.term i = .ok (.ok t)
  termOutside : ∀ i, ¬ (L.base ≤ i ∧ i ≤ L.lastIndex) → log.term i = .ok (.ok 0)
  sliceCompacted : ∀ low high max, low ≤ high → high ≤ L.lastIndex + 1 →
    (log.slice low high max = .ok (.error (.Store .Compacted)) ↔ low < L.base + 1)
  slice : ∀ low high max, L.base + 1 ≤ low → low ≤ high → high ≤ L.lastIndex + 1 →
    ∃ out, log.slice low high max = .ok (.ok out) ∧
      LongestWithin max (L.segment (low - 1) (high - low)) out
  entries : ∀ i max, L.base + 1 ≤ i →
    ∃ out, log.entries i max = .ok (.ok out) ∧
      LongestWithin max (L.segment (i - 1) (L.lastIndex + 1 - i)) out
  allEntries : ∀ fuel, log.allEntries (fuel + 1) = .ok (some L.tail)

theorem reads_as_logical (h : log.WellFormed)
    (hsize : ∀ e ∈ log.logical.tail, 0 < ProtoMessage.computeSize e) :
    ReadsAs log log.logical := by
  have hp := h.presents
  have hlimit : ∀ i k max, LongestWithin max (log.logical.segment i k)
      (limitSize (log.logical.segment i k) max) := by
    intro i k max
    apply limitSize_longestWithin
    intro e he
    exact hsize e (List.mem_of_mem_drop (List.mem_of_mem_take he))
  refine
    { firstIndex := hp.firstIndex
      lastIndex := hp.lastIndex
      term := ?_
      termOutside := ?_
      sliceCompacted := fun low high max hlh hhigh => h.slice_compacted_iff hlh hhigh max
      slice := fun low high max hlow hlh hhigh => ⟨_, h.slice_eq hlow hlh hhigh max, hlimit _ _ _⟩
      entries := fun i max hlow => ⟨_, h.entries_eq hlow max, hlimit _ _ _⟩
      allEntries := h.allEntries_eq }
  · intro i t ht
    rw [hp.term, ht]
    rfl
  · intro i hi
    rw [hp.term, stampAt_eq_none_iff.mpr hi]
    rfl

/-- No read tells the two logs apart. -/
structure ReadsAlike (log log' : RaftLog MemStorage) : Prop where
  firstIndex : log'.firstIndex = log.firstIndex
  lastIndex : log'.lastIndex = log.lastIndex
  term : ∀ i, log'.term i = log.term i
  entries : ∀ i, log'.entries i NO_LIMIT = log.entries i NO_LIMIT

/-- Logs that present the same plain log cannot be told apart. -/
theorem readsAlike_of_logical {log' : RaftLog MemStorage} (h : log.WellFormed)
    (h' : log'.WellFormed) (heq : log'.logical = log.logical) : ReadsAlike log log' := by
  have hp := h.presents
  have hp' := h'.presents
  rw [heq] at hp'
  refine ⟨?_, ?_, ?_, ?_⟩
  · rw [hp'.firstIndex, hp.firstIndex]
  · rw [hp'.lastIndex, hp.lastIndex]
  · intro i
    rw [hp'.term, hp.term]
  · intro i
    by_cases hlow : log.logical.base < i
    · rw [h'.entries_eq (by rwa [heq]), h.entries_eq hlow, heq]
    · have hle := base_le_lastIndex (L := log.logical)
      rw [RaftLog.entries, RaftLog.entries, hp'.lastIndex, hp.lastIndex, ok_bind, ok_bind,
        if_neg (by omega), if_neg (by omega),
        (h.slice_compacted_iff (by omega) (Nat.le_refl _) _).mpr (by omega),
        (h'.slice_compacted_iff (by omega) (by rw [heq]) _).mpr (by rw [heq]; omega)]

end

/-! The unstable tail replaces the last stored entry and goes on behind it. -/

def overlapping : RaftLog MemStorage :=
  { store :=
      { core :=
          { entries :=
              [{ term := 1, index := 2 }, { term := 1, index := 3 }, { term := 1, index := 4 }] } }
    unstable :=
      { offset := 4, entries := [{ term := 2, index := 4 }, { term := 2, index := 5 }] }
    committed := 3
    applied := 2 }

theorem wellFormed_overlapping : overlapping.WellFormed where
  store := ⟨by decide, index_of_range' (by decide)⟩
  unstable := index_of_range' (by decide)
  fits := ⟨by decide, by decide, by decide⟩

theorem reads_as_logical_overlapping :
    ReadsAs overlapping
      ⟨2, 1, [{ term := 1, index := 3 }, { term := 2, index := 4 }, { term := 2, index := 5 }]⟩ :=
  reads_as_logical wellFormed_overlapping (by decide)

end RaftLog

end RsRaft
