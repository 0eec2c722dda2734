import RsRaft.RaftLog

/-!
# The log a `RaftLog` stands for

A `RaftLog` spreads one plain log over the store, a pending snapshot and the
unstable tail. `Presents log L` says which plain log; every read and write is
then an operation on `L`, and no later file looks at the tiers again.

§1 the view · §2 the tail over its ground · §3 reads · §4 appending · §5 the append
of a leader's batch · §6 logs over an empty store.
-/

namespace RsRaft

namespace RaftLog

open PlainLog

variable {T : Type} [Storage T] {log : RaftLog T} {L : PlainLog Entry ℕ} {i j c t : ℕ}
  {es : List Entry}

/-! ## §1  The view -/

/-- `log` stands for `L`: stored entries below the offset, then the unstable
ones; or, while a snapshot is pending, the unstable ones behind the snapshot. -/
inductive Presents (log : RaftLog T) (L : PlainLog Entry ℕ) : Prop where
  | stored (S : PlainLog Entry ℕ) (hsnap : log.unstable.snapshot = none)
      (hstore : Storage.Holds log.store S) (hlow : S.base < log.unstable.offset)
      (hhigh : log.unstable.offset ≤ S.lastIndex + 1)
      (hnil : log.unstable.entries = [] → log.unstable.offset = S.lastIndex + 1)
      (hL : L = S.overwrite (log.unstable.offset - 1) log.unstable.entries)
  | pending (s : Snapshot) (hsnap : log.unstable.snapshot = some s)
      (hoff : log.unstable.offset = s.metadata.index + 1)
      (hL : L = ⟨s.metadata.index, s.metadata.term, log.unstable.entries⟩)

/-- The entries of a plain log carry the index they sit at. -/
def Indexed (L : PlainLog Entry ℕ) : Prop := ∀ i e, L.entryAt i = some e → e.index = i

/-- A batch that starts behind index `i`. -/
def Consecutive (i : ℕ) (es : List Entry) : Prop :=
  ∀ k e, es[k]? = some e → e.index = i + 1 + k

theorem Consecutive.tail {e : Entry} (h : Consecutive i (e :: es)) :
    Consecutive (i + 1) es := by
  intro k e' he
  have := h (k + 1) e' (by simpa using he)
  omega

theorem Consecutive.drop (h : Consecutive i es) (k : ℕ) :
    Consecutive (i + k) (es.drop k) := by
  intro m e he
  rw [List.getElem?_drop] at he
  have := h (k + m) e he
  omega

theorem Indexed.overwrite (h : Indexed L) (hb : L.base ≤ i) (hl : i ≤ L.lastIndex)
    (hes : Consecutive i es) : Indexed (L.overwrite i es) := by
  intro j e he
  by_cases hj : j ≤ i
  · rw [entryAt_overwrite_le hl hj] at he
    exact h j e he
  · have := entryAt_overwrite_gt es hb hl (j - (i + 1))
    rw [show i + 1 + (j - (i + 1)) = j by omega, he] at this
    have := hes _ _ this.symm
    omega

end RaftLog

/-! ## §2  The tail over its ground -/

namespace Unstable

open PlainLog RaftLog

variable {u : Unstable} {S : PlainLog Entry ℕ} {i : ℕ} {es : List Entry}

/-- What the tail stands on: the store, or the pending snapshot. -/
def ground (u : Unstable) (S : PlainLog Entry ℕ) : PlainLog Entry ℕ :=
  match u.snapshot with
  | none => S
  | some s => ⟨s.metadata.index, s.metadata.term, []⟩

/-- The tail begins inside its ground or right behind it, an empty tail right behind it. -/
structure Fits (u : Unstable) (S : PlainLog Entry ℕ) : Prop where
  low : (u.ground S).base < u.offset
  high : u.offset ≤ (u.ground S).lastIndex + 1
  nil : u.entries = [] → u.offset = (u.ground S).lastIndex + 1

/-- The log over the store `S`: the ground below the offset, then the tail. -/
def logOver (u : Unstable) (S : PlainLog Entry ℕ) : PlainLog Entry ℕ :=
  (u.ground S).overwrite (u.offset - 1) u.entries

theorem ground_of_none (h : u.snapshot = none) : u.ground S = S := by
  rw [ground, h]

theorem ground_of_some {s : Snapshot} (h : u.snapshot = some s) :
    u.ground S = ⟨s.metadata.index, s.metadata.term, []⟩ := by
  rw [ground, h]

@[simp] theorem logOver_base : (u.logOver S).base = (u.ground S).base := rfl

theorem Fits.lastIndex_logOver (h : u.Fits S) :
    (u.logOver S).lastIndex = u.offset - 1 + u.entries.length := by
  have := h.low
  have := h.high
  exact lastIndex_overwrite (by omega) (by omega)

/-- Inside the log, truncating and appending is an overwrite. -/
theorem Fits.truncateAndAppend (h : u.Fits S) (hne : es ≠ []) (hes : Consecutive i es)
    (hb : (u.ground S).base ≤ i) (hl : i ≤ (u.logOver S).lastIndex) :
    ∃ u', u.truncateAndAppend es = .ok u' ∧ u'.snapshot = u.snapshot ∧ u'.Fits S ∧
      u'.logOver S = (u.logOver S).overwrite i es := by
  obtain ⟨e, es', rfl⟩ := List.exists_cons_of_ne_nil hne
  have hidx : e.index = i + 1 := hes 0 e rfl
  have hlow := h.low
  have hhigh := h.high
  rw [h.lastIndex_logOver] at hl
  simp only [Unstable.truncateAndAppend, hidx]
  by_cases hend : i + 1 = u.offset + u.entries.length
  · -- the batch continues the tail
    rw [if_pos hend]
    refine ⟨_, rfl, rfl, ⟨hlow, hhigh, by simp⟩, ?_⟩
    rw [logOver, logOver, overwrite_overwrite_ge _ (by omega) (by omega) (by omega),
      List.take_of_length_le (by omega)]
    rfl
  · rw [if_neg hend]
    by_cases hbelow : i + 1 ≤ u.offset
    · -- the batch cuts into the ground: the offset moves down
      rw [if_pos hbelow]
      refine ⟨_, rfl, rfl, ⟨?_, ?_, by simp⟩, ?_⟩
      · show (u.ground S).base < i + 1
        omega
      · show i + 1 ≤ (u.ground S).lastIndex + 1
        omega
      · rw [logOver, logOver, overwrite_overwrite_le _ (by omega) (by omega)]
        rfl
    · rw [if_neg hbelow, Unstable.mustCheckOutOfBounds, if_neg (by omega),
        if_neg (by omega), ok_bind]
      refine ⟨_, rfl, rfl, ⟨hlow, hhigh, by simp⟩, ?_⟩
      rw [logOver, logOver, overwrite_overwrite_ge _ (by omega) (by omega) (by omega),
        show i - (u.offset - 1) = i + 1 - u.offset by omega]
      rfl

end Unstable

namespace RaftLog

open PlainLog

variable {T : Type} [Storage T] {log : RaftLog T} {L : PlainLog Entry ℕ} {i j c t : ℕ}
  {es : List Entry}

/-- The view in one piece: the tail over the log the store holds. -/
theorem presents_iff : Presents log L ↔
    ∃ S, (log.unstable.snapshot = none → Storage.Holds log.store S) ∧
      log.unstable.Fits S ∧ L = log.unstable.logOver S := by
  constructor
  · intro h
    cases h with
    | stored S hsnap hstore hlow hhigh hnil hL =>
        have hground : log.unstable.ground S = S := Unstable.ground_of_none hsnap
        refine ⟨S, fun _ => hstore, ⟨?_, ?_, ?_⟩, ?_⟩
        · rwa [hground]
        · rwa [hground]
        · rwa [hground]
        · rw [hL, Unstable.logOver, hground]
    | pending s hsnap hoff hL =>
        have hground := Unstable.ground_of_some (S := L) hsnap
        refine ⟨L, fun hnone => ?_, ⟨?_, ?_, fun _ => ?_⟩, ?_⟩
        · rw [hnone] at hsnap
          cases hsnap
        · rw [hground]
          simp only
          omega
        · rw [hground, hoff]
          exact Nat.le_refl _
        · rw [hground, hoff]
          rfl
        · rw [Unstable.logOver, hground, hL]
          simp [overwrite]
  · rintro ⟨S, hstore, hfits, rfl⟩
    cases hsnap : log.unstable.snapshot with
    | none =>
        have hground : log.unstable.ground S = S := Unstable.ground_of_none hsnap
        have hlow := hfits.low
        have hhigh := hfits.high
        have hnil := hfits.nil
        rw [hground] at hlow hhigh hnil
        exact .stored S hsnap (hstore hsnap) hlow hhigh hnil
          (by rw [Unstable.logOver, hground])
    | some s =>
        have hground : log.unstable.ground S = _ := Unstable.ground_of_some hsnap
        have hlow := hfits.low
        have hhigh := hfits.high
        rw [hground] at hlow hhigh
        simp only [PlainLog.lastIndex, List.length_nil] at hlow hhigh
        refine .pending s hsnap (by omega) ?_
        rw [Unstable.logOver, hground]
        simp [overwrite]

namespace Presents

/-! ## §3  Reads -/

theorem firstIndex (h : Presents log L) : log.firstIndex = .ok (L.base + 1) := by
  cases h with
  | stored S hsnap hstore hlow hhigh hnil hL =>
      subst hL
      simp [RaftLog.firstIndex, Unstable.maybeFirstIndex, hsnap, hstore.firstIndex]
  | pending s hsnap hoff hL =>
      subst hL
      simp [RaftLog.firstIndex, Unstable.maybeFirstIndex, hsnap]

theorem lastIndex (h : Presents log L) : log.lastIndex = .ok L.lastIndex := by
  unfold RaftLog.lastIndex
  cases h with
  | stored S hsnap hstore hlow hhigh hnil hL =>
      subst hL
      rw [lastIndex_overwrite (by omega) (by omega)]
      by_cases hne : log.unstable.entries = []
      · rw [Unstable.maybeLastIndex_of_nil hne, hsnap]
        simp [hstore.lastIndex, hne, hnil hne]
      · have hpos := List.length_pos_iff.mpr hne
        rw [Unstable.maybeLastIndex_of_ne_nil hne]
        simp only [Except.ok.injEq]
        omega
  | pending s hsnap hoff hL =>
      subst hL
      by_cases hne : log.unstable.entries = []
      · rw [Unstable.maybeLastIndex_of_nil hne, hsnap]
        simp [PlainLog.lastIndex, hne]
      · have hpos := List.length_pos_iff.mpr hne
        rw [Unstable.maybeLastIndex_of_ne_nil hne]
        simp only [PlainLog.lastIndex, Except.ok.injEq]
        omega

/-- Inside the log, the unstable tail and the store between them know the term. -/
theorem term_of_stampAt (h : Presents log L) (ht : L.stampAt i = some t) :
    (log.unstable.maybeTerm i = .ok (some t)) ∨
      (log.unstable.maybeTerm i = .ok none ∧ Storage.term log.store i = .ok (.ok t)) := by
  obtain ⟨hb, hl⟩ := bounds_of_stampAt ht
  cases h with
  | stored S hsnap hstore hlow hhigh hnil hL =>
      subst hL
      by_cases hi : i < log.unstable.offset
      · rw [stampAt_overwrite_le (by omega) (by omega)] at ht
        exact Or.inr ⟨Unstable.maybeTerm_of_lt hi hsnap, hstore.term i t ht⟩
      · have hgt := entryAt_overwrite_gt log.unstable.entries
          (show S.base ≤ log.unstable.offset - 1 by omega) (by omega)
          (i - log.unstable.offset)
        rw [show log.unstable.offset - 1 + 1 + (i - log.unstable.offset) = i by omega] at hgt
        rw [stampAt_of_gt (by rw [overwrite_base]; omega), hgt] at ht
        obtain ⟨e, he, rfl⟩ := Option.map_eq_some_iff.mp ht
        exact Or.inl (Unstable.maybeTerm_of_getElem? (by omega) he)
  | pending s hsnap hoff hL =>
      subst hL
      left
      rcases Nat.eq_or_lt_of_le hb with heq | hgt
      · rw [← heq, stampAt_base] at ht
        cases ht
        rw [← heq, Unstable.maybeTerm, if_pos (by simp only; omega), hsnap]
        simp
      · rw [stampAt_of_gt hgt, entryAt, if_pos hgt] at ht
        obtain ⟨e, he, rfl⟩ := Option.map_eq_some_iff.mp ht
        exact Unstable.maybeTerm_of_getElem? (by simp only at hgt; omega) (by rwa [hoff])

/-- Terms are read off the plain log; outside of it the answer is `0`. -/
theorem term (h : Presents log L) (i : ℕ) :
    log.term i = .ok (.ok ((L.stampAt i).getD 0)) := by
  unfold RaftLog.term
  rw [h.firstIndex, ok_bind, wrappingSub_of_le (by omega), Nat.add_sub_cancel]
  by_cases hb : i < L.base
  · rw [if_pos hb, stampAt_eq_none_iff.mpr (by omega)]
    rfl
  · rw [if_neg hb, h.lastIndex, ok_bind]
    by_cases hl : i > L.lastIndex
    · rw [if_pos hl, stampAt_eq_none_iff.mpr (by omega)]
      rfl
    · obtain ⟨t, ht⟩ := exists_stampAt (show L.base ≤ i by omega) (show i ≤ L.lastIndex by omega)
      rw [if_neg hl, ht]
      rcases h.term_of_stampAt ht with hu | ⟨hu, hs⟩
      · rw [hu]; rfl
      · rw [hu, ok_bind, hs]; rfl

theorem matchTerm (h : Presents log L) (i t : ℕ) :
    log.matchTerm i t = .ok ((L.stampAt i).getD 0 == t) := by
  rw [RaftLog.matchTerm, h.term i]
  rfl

theorem lastTerm (h : Presents log L) : log.lastTerm = .ok L.lastStamp := by
  rw [RaftLog.lastTerm, h.lastIndex, ok_bind, h.term, stampAt_lastIndex]
  rfl

/-- Up to date: the last entry compared by term, then by index. -/
theorem isUpToDate (h : Presents log L) (li lt : ℕ) :
    log.isUpToDate li lt =
      .ok (decide (lt > L.lastStamp ∨ (lt = L.lastStamp ∧ li ≥ L.lastIndex))) := by
  rw [RaftLog.isUpToDate, h.lastTerm, ok_bind, h.lastIndex, ok_bind]
  simp [Bool.decide_or, Bool.decide_and, beq_eq_decide]

theorem commitTo (h : Presents log L) (hc : c ≤ L.lastIndex) :
    log.commitTo c = .ok { log with committed := max log.committed c } := by
  unfold RaftLog.commitTo
  split
  · rename_i hge
    rw [Nat.max_eq_left hge]
    rfl
  · rename_i hlt
    rw [h.lastIndex, ok_bind, if_neg (by omega), Nat.max_eq_right (by omega)]
    rfl

/-- Committing moves to an index of the given term, or not at all. -/
theorem maybeCommit (h : Presents log L) (hi : i ≤ L.lastIndex) (t : ℕ) :
    log.maybeCommit i t = .ok
      (if log.committed < i ∧ (L.stampAt i).getD 0 = t
        then (true, { log with committed := i }) else (false, log)) := by
  unfold RaftLog.maybeCommit
  by_cases hgt : log.committed < i
  · have hread : (Except.ok ((L.stampAt i).getD 0) : Result ℕ).toOption.getD 0
        = (L.stampAt i).getD 0 := rfl
    rw [if_pos hgt, h.term, ok_bind, hread]
    by_cases ht : (L.stampAt i).getD 0 = t
    · rw [if_pos ht, if_pos ⟨hgt, ht⟩, h.commitTo hi, ok_bind,
        Nat.max_eq_right (by omega)]
      rfl
    · rw [if_neg ht, if_neg (fun hc => ht hc.2)]
      rfl
  · rw [if_neg hgt, if_neg (by tauto)]
    rfl

/-- From the offset on, a slice is the limited segment. -/
theorem slice_unstable [ProtoMessage Entry] (h : Presents log L) {low high : ℕ}
    (hoff : log.unstable.offset ≤ low) (hlh : low ≤ high) (hh : high ≤ L.lastIndex + 1)
    (max : ℕ) :
    log.slice low high max = .ok (.ok (limitSize (L.segment (low - 1) (high - low)) max)) := by
  have hread : L.base + 1 ≤ low ∧ high ≤ log.unstable.offset + log.unstable.entries.length ∧
      L.segment (low - 1) (high - low) =
        (log.unstable.entries.drop (low - log.unstable.offset)).take (high - low) := by
    cases h with
    | stored S hsnap hstore hlow hhigh hnil hL =>
        subst hL
        rw [lastIndex_overwrite (by omega) (by omega)] at hh
        refine ⟨by rw [overwrite_base]; omega, by omega, ?_⟩
        rw [show low - 1 = log.unstable.offset - 1 + (low - log.unstable.offset) by omega,
          segment_overwrite_ge (by omega) (by omega)]
    | pending s hsnap hoff' hL =>
        subst hL
        simp only [PlainLog.lastIndex] at hh
        refine ⟨by simp only; omega, by omega, ?_⟩
        simp only [PlainLog.segment]
        congr 2
        omega
  obtain ⟨hlow, hhigh, hseg⟩ := hread
  rw [RaftLog.slice, RaftLog.mustCheckOutOfBounds, if_neg (by omega), h.firstIndex, ok_bind,
    if_neg (by omega), h.lastIndex, ok_bind]
  dsimp only
  rw [if_neg (by omega), pure_eq_ok, ok_bind]
  dsimp only
  rcases Nat.eq_or_lt_of_le hlh with rfl | hlt
  · rw [if_pos (Nat.le_refl _)]
    simp [limitSize, PlainLog.segment]
  · rw [if_neg (by omega), if_neg (by omega), RaftLog.unstableSlice, if_pos (by omega),
      Nat.max_eq_left hoff, Unstable.slice_of_mem hoff hlh hhigh, ok_bind, hseg]
    rfl

/-- Entries from the offset on are a beginning of the rest of the log. -/
theorem entries_unstable [ProtoMessage Entry] (h : Presents log L)
    (hoff : log.unstable.offset ≤ i) (hi : i ≤ L.lastIndex + 1) (max : ℕ) :
    ∃ n, log.entries i max = .ok (.ok (L.segment (i - 1) n)) ∧ i + n ≤ L.lastIndex + 1 := by
  rw [RaftLog.entries, h.lastIndex, ok_bind]
  by_cases hlast : i > L.lastIndex
  · refine ⟨0, ?_, hi⟩
    rw [if_pos hlast, PlainLog.segment, List.take_zero]
    rfl
  · rw [if_neg hlast, h.slice_unstable hoff (by omega) (Nat.le_refl _)]
    obtain ⟨k, hk⟩ := limitSize_isTake (L.segment (i - 1) (L.lastIndex + 1 - i)) max
    refine ⟨min k (L.lastIndex + 1 - i), ?_, by omega⟩
    rw [hk, PlainLog.segment, List.take_take, ← PlainLog.segment]

/-- The view does not depend on the cursors. -/
theorem with_cursors (h : Presents log L) (c a : ℕ) :
    Presents { log with committed := c, applied := a } L := by
  cases h with
  | stored S hsnap hstore hlow hhigh hnil hL =>
      exact .stored S hsnap hstore hlow hhigh hnil hL
  | pending s hsnap hoff hL => exact .pending s hsnap hoff hL

/-! ## §4  Appending -/

/-- Inside the log, truncating and appending is an overwrite. -/
theorem truncateAndAppend (h : Presents log L) (hne : es ≠ []) (hes : Consecutive i es)
    (hb : L.base ≤ i) (hl : i ≤ L.lastIndex) :
    ∃ u, log.unstable.truncateAndAppend es = .ok u ∧
      Presents { log with unstable := u } (L.overwrite i es) := by
  obtain ⟨S, hstore, hfits, rfl⟩ := presents_iff.mp h
  obtain ⟨u, hu, hsnap, hfits', hover⟩ := hfits.truncateAndAppend hne hes hb hl
  refine ⟨u, hu, presents_iff.mpr ⟨S, fun hnone => hstore ?_, hfits', hover.symm⟩⟩
  rw [← hsnap]
  exact hnone

/-- Above the commit index, appending is an overwrite. -/
theorem append (h : Presents log L) (hne : es ≠ []) (hes : Consecutive i es)
    (hb : L.base ≤ i) (hl : i ≤ L.lastIndex) (hc : log.committed ≤ i) :
    ∃ u, log.append es = .ok (i + es.length, { log with unstable := u }) ∧
      Presents { log with unstable := u } (L.overwrite i es) := by
  obtain ⟨u, hu, hp⟩ := h.truncateAndAppend hne hes hb hl
  refine ⟨u, ?_, hp⟩
  obtain ⟨e, es', rfl⟩ := List.exists_cons_of_ne_nil hne
  have hidx : e.index = i + 1 := hes 0 e rfl
  simp only [RaftLog.append, hidx]
  rw [wrappingSub_of_le (by omega), if_neg (by omega), hu, ok_bind, hp.lastIndex,
    lastIndex_overwrite hb hl]
  rfl

/-! ## §5  The append of a leader's batch -/

/-- For entries of a real term, conflict search looks for the first mismatch. -/
theorem findConflict (h : Presents log L) (hes : Consecutive i es)
    (hterm : ∀ e ∈ es, 1 ≤ e.term) :
    log.findConflict es = .ok ((L.firstMismatch i es).elim 0 (i + 1 + ·)) := by
  induction es generalizing i with
  | nil => rfl
  | cons e es ih =>
      have hidx : e.index = i + 1 := hes 0 e rfl
      have he : 1 ≤ e.term := hterm e List.mem_cons_self
      -- outside of the log the code reads term `0`, which no entry carries
      have hmatch : ((L.stampAt (i + 1)).getD 0 == e.term) =
          decide (L.stampAt (i + 1) = some e.term) := by
        cases L.stampAt (i + 1) with
        | none => simp; omega
        | some t => simp [beq_eq_decide]
      rw [RaftLog.findConflict, h.matchTerm, ok_bind, hidx, hmatch, PlainLog.firstMismatch]
      simp only [decide_eq_true_eq, stamp_entry]
      by_cases hm : L.stampAt (i + 1) = some e.term
      · rw [if_pos hm, if_pos hm,
          ih hes.tail fun d hd => hterm d (List.mem_cons_of_mem _ hd)]
        cases L.firstMismatch (i + 1) es with
        | none => rfl
        | some k =>
            simp only [Option.map_some, Option.elim_some, Except.ok.injEq]
            omega
      · rw [if_neg hm, if_neg hm]
        rfl

/-- A term that does not match refuses the batch and changes nothing. -/
theorem maybeAppend_refuse (h : Presents log L) (ht : (L.stampAt i).getD 0 ≠ t) (c : ℕ)
    (es : List Entry) : log.maybeAppend i t c es = .ok (none, log) := by
  rw [RaftLog.maybeAppend, h.matchTerm, ok_bind, if_neg (by simpa using ht)]
  rfl

/-- A matching term splices the batch in, unless that would touch a committed
entry, and commits as far as the batch and the leader reach. -/
theorem maybeAppend_accept (h : Presents log L) (ht : L.stampAt i = some t) (c : ℕ)
    (hes : Consecutive i es) (hterm : ∀ e ∈ es, 1 ≤ e.term)
    (hcom : ∀ k, L.firstMismatch i es = some k → log.committed ≤ i + k) :
    ∃ u, log.maybeAppend i t c es =
        .ok (some (i + es.length),
          { log with
            unstable := u
            committed := max log.committed (min c (i + es.length)) }) ∧
      Presents { log with unstable := u } (L.splice i es) ∧
      (L.firstMismatch i es = none → u = log.unstable) := by
  obtain ⟨hb, hl⟩ := bounds_of_stampAt ht
  have hend : i + es.length ≤ (L.splice i es).lastIndex := le_lastIndex_splice hb hl
  rw [RaftLog.maybeAppend, h.matchTerm, ok_bind, ht, if_pos (by simp),
    h.findConflict hes hterm, ok_bind]
  cases hk : L.firstMismatch i es with
  | none =>
      have hsplice : L.splice i es = L := by
        unfold PlainLog.splice
        rw [hk]
      rw [hsplice] at hend ⊢
      refine ⟨log.unstable, ?_, h, fun _ => rfl⟩
      rw [Option.elim_none, if_pos rfl, pure_eq_ok, ok_bind]
      -- nothing to append: the log stays as it is
      rw [h.commitTo (by omega)]
      rfl
  | some k =>
      have hlt := firstMismatch_lt hk
      have hck := hcom k hk
      have hsplice : L.splice i es = L.overwrite (i + k) (es.drop k) := by
        unfold PlainLog.splice
        rw [hk]
      have hne : es.drop k ≠ [] := by simpa using hlt
      obtain ⟨u, hu, hp⟩ :=
        h.append hne (hes.drop k) (by omega) (add_firstMismatch_le hl hk) hck
      refine ⟨u, ?_, by rwa [hsplice], fun hnone => by cases hnone⟩
      -- the rest of the batch begins at the conflict
      have hrest : sliceVec es (wrappingSub (i + 1 + k) (i + 1)) es.length =
          .ok (es.drop k) := by
        rw [wrappingSub_of_le (by omega), sliceVec, if_pos (by omega)]
        rw [show i + 1 + k - (i + 1) = k by omega, List.take_of_length_le (by simp)]
      rw [Option.elim_some, if_neg (by omega), if_neg (by omega)]
      dsimp only
      rw [hrest, ok_bind, hu, ok_bind, pure_eq_ok, ok_bind,
        hp.commitTo (by rw [← hsplice]; omega)]
      rfl

end Presents

/-! ## §6  Logs over an empty store -/

variable {log' : RaftLog T}

/-- Nothing is stored or compacted: the log is the unstable entries. -/
structure Unstored (log : RaftLog T) : Prop where
  store : Storage.Holds log.store ⟨0, 0, []⟩
  snapshot : log.unstable.snapshot = none
  offset : log.unstable.offset = 1

omit [Storage T] in
/-- The log as one list. -/
def whole (log : RaftLog T) : PlainLog Entry ℕ := ⟨0, 0, log.unstable.entries⟩

theorem Unstored.presents (h : Unstored log) : log.Presents log.whole := by
  refine .stored ⟨0, 0, []⟩ h.snapshot h.store ?_ ?_ ?_ ?_
  · rw [h.offset]
    exact Nat.zero_lt_one
  · rw [h.offset]
    exact Nat.le_refl 1
  · intro _
    rw [h.offset]
    rfl
  · rw [h.offset]
    rfl

theorem Unstored.lastIndex (h : Unstored log) :
    log.lastIndex = .ok log.unstable.entries.length := by
  rw [h.presents.lastIndex, PlainLog.lastIndex, whole, Nat.zero_add]

/-- A log created over an empty store. -/
theorem unstored_new {store : T} (h : Storage.Holds store ⟨0, 0, []⟩)
    (hnew : RaftLog.new store = .ok log) : Unstored log ∧ log.unstable.entries = [] := by
  unfold RaftLog.new at hnew
  rw [h.firstIndex, h.lastIndex] at hnew
  cases hnew
  exact ⟨⟨h, rfl, rfl⟩, rfl⟩

theorem Unstored.congr (h : Unstored log) (hs : log'.store = log.store)
    (hu : log'.unstable = log.unstable) : Unstored log' where
  store := by rw [hs]; exact h.store
  snapshot := by rw [hu]; exact h.snapshot
  offset := by rw [hu]; exact h.offset

/-- A batch that continues the log is put behind it. -/
theorem Unstored.append (h : Unstored log) {es : List Entry}
    (hes : Consecutive log.unstable.entries.length es) {n : ℕ}
    (hrun : log.append es = .ok (n, log')) :
    Unstored log' ∧ log'.unstable.entries = log.unstable.entries ++ es := by
  cases es with
  | nil =>
      obtain ⟨last, _, hrun⟩ := bind_eq_ok hrun
      cases hrun
      exact ⟨h, by rw [List.append_nil]⟩
  | cons e es =>
      have hidx : e.index = log.unstable.entries.length + 1 := hes 0 e rfl
      unfold RaftLog.append at hrun
      dsimp only at hrun
      split at hrun
      · cases hrun
      · obtain ⟨u, hu, hrun⟩ := bind_eq_ok hrun
        obtain ⟨last, _, hrun⟩ := bind_eq_ok hrun
        cases hrun
        unfold Unstable.truncateAndAppend at hu
        dsimp only at hu
        rw [h.offset, if_pos (by omega)] at hu
        cases hu
        exact ⟨⟨h.store, h.snapshot, rfl⟩, rfl⟩

end RaftLog

end RsRaft
