import RsRaft.LogicalLog

/-!
# Writing the log

A log is written by appending, as a leader or as a follower, and committed up
to an index. A call that returns leaves the log well formed, its cursors in
order, and everything up to the commit index as it was.

§1 the writes · §2 what a call that returned has checked · §3 one write.
-/

namespace RsRaft

/-! ## §1  The writes -/

/-- The calls that write and commit a log. -/
inductive LogWrite where
  | append (entries : List Entry)
  | maybeAppend (idx term committed : ℕ) (entries : List Entry)
  | commitTo (toCommit : ℕ)
  | maybeCommit (maxIndex term : ℕ)
deriving DecidableEq, Repr

namespace LogWrite

def run {T : Type} [Storage T] (log : RaftLog T) : LogWrite → Except Panic (RaftLog T)
  | append entries => do
      let r ← log.append entries
      pure r.2
  | maybeAppend idx term committed entries => do
      let r ← log.maybeAppend idx term committed entries
      pure r.2
  | commitTo toCommit => log.commitTo toCommit
  | maybeCommit maxIndex term => do
      let r ← log.maybeCommit maxIndex term
      pure r.2

/-- Batches come with consecutive indices: the first at least `1`, and behind `idx`
where the call names one. -/
def Admissible : LogWrite → Prop
  | append entries => ∃ i, RaftLog.Consecutive i entries
  | maybeAppend idx _ _ entries => RaftLog.Consecutive idx entries
  | commitTo _ => True
  | maybeCommit _ _ => True

end LogWrite

open PlainLog

/-! ## §2  What a call that returned has checked -/

section

variable {S : PlainLog Entry ℕ} {u u' : Unstable} {i c : ℕ} {es : List Entry}

/-- A batch the tail accepts leaves no gap behind the log. -/
theorem Unstable.Fits.le_of_truncateAndAppend (h : u.Fits S) (hne : es ≠ [])
    (hes : RaftLog.Consecutive i es) (hrun : u.truncateAndAppend es = .ok u') :
    i ≤ (u.logOver S).lastIndex := by
  obtain ⟨e, es', rfl⟩ := List.exists_cons_of_ne_nil hne
  have hidx : e.index = i + 1 := hes 0 e rfl
  have hlow := h.low
  rw [h.lastIndex_logOver]
  simp only [Unstable.truncateAndAppend, hidx] at hrun
  split at hrun
  · omega
  · split at hrun
    · omega
    · obtain ⟨_, hcheck, _⟩ := bind_eq_ok hrun
      unfold Unstable.mustCheckOutOfBounds at hcheck
      split at hcheck
      · cases hcheck
      · dsimp only at hcheck
        split at hcheck
        · cases hcheck
        · omega

/-- A tail that fits carries its indices if the log over the store does. -/
theorem Unstable.Fits.index (h : u.Fits S) (hidx : RaftLog.Indexed (u.logOver S)) (k : ℕ)
    (e : Entry) (he : u.entries[k]? = some e) : e.index = u.offset + k := by
  have hlow := h.low
  have hhigh := h.high
  have hat := entryAt_overwrite_gt u.entries
    (show (u.ground S).base ≤ u.offset - 1 by omega) (by omega) k
  rw [he, show u.offset - 1 + 1 + k = u.offset + k by omega] at hat
  exact hidx _ e hat

variable {T : Type} [Storage T] {log log' : RaftLog T} {L : PlainLog Entry ℕ}

/-- Whatever the terms, a conflict is found inside the batch. -/
theorem RaftLog.findConflict_ok (hes : Consecutive i es) (hrun : log.findConflict es = .ok c) :
    c = 0 ∨ ∃ k < es.length, c = i + 1 + k := by
  induction es generalizing i with
  | nil =>
      cases hrun
      exact Or.inl rfl
  | cons e es ih =>
      have hidx : e.index = i + 1 := hes 0 e rfl
      rw [RaftLog.findConflict] at hrun
      obtain ⟨b, _, hrun⟩ := bind_eq_ok hrun
      cases b with
      | true =>
          rcases ih hes.tail hrun with hzero | ⟨k, hk, heq⟩
          · exact Or.inl hzero
          · refine Or.inr ⟨k + 1, ?_, ?_⟩
            · rw [List.length_cons]
              omega
            · omega
      | false =>
          cases hrun
          exact Or.inr ⟨0, Nat.succ_pos _, hidx⟩

theorem RaftLog.Presents.commitTo_ok (h : log.Presents L) (hrun : log.commitTo c = .ok log') :
    log' = { log with committed := max log.committed c } ∧
      (log.committed < c → c ≤ L.lastIndex) := by
  have hinside : log.committed < c → c ≤ L.lastIndex := by
    intro hlt
    rw [RaftLog.commitTo, if_neg (by omega), h.lastIndex, ok_bind] at hrun
    by_contra hgt
    rw [if_pos (by omega)] at hrun
    cases hrun
  refine ⟨?_, hinside⟩
  by_cases hlt : log.committed < c
  · rw [h.commitTo (hinside hlt)] at hrun
    cases hrun
    rfl
  · rw [RaftLog.commitTo, if_pos (by omega)] at hrun
    cases hrun
    rw [Nat.max_eq_left (by omega)]

omit [Storage T] in
/-- Applying moves one cursor, and not beyond the commit index. -/
theorem RaftLog.appliedTo_ok (hrun : log.appliedTo i = .ok log')
    (hle : log.applied ≤ log.committed) :
    log' = { log with applied := log'.applied } ∧ log.applied ≤ log'.applied ∧
      log'.applied ≤ log'.committed := by
  unfold RaftLog.appliedTo at hrun
  split at hrun
  · cases hrun
    exact ⟨rfl, Nat.le_refl _, hle⟩
  · split at hrun
    · cases hrun
    · cases hrun
      refine ⟨rfl, ?_, ?_⟩ <;> dsimp only <;> omega

omit [Storage T] in
/-- A batch cut out of a consecutive one, from `conflict` on. -/
theorem sliceVec_conflict {es rest : List Entry} {k : ℕ} (hk : k < es.length)
    (hrest : sliceVec es (wrappingSub (i + 1 + k) (i + 1)) es.length = .ok rest) :
    rest = es.drop k := by
  rw [wrappingSub_of_le (by omega), sliceVec, if_pos (by omega),
    show i + 1 + k - (i + 1) = k by omega, List.take_of_length_le (by simp)] at hrest
  cases hrest
  rfl

/-! A write is made of appends and commits: what both do to a log, it does. -/

section Rel

variable {R : RaftLog T → RaftLog T → Prop} (hrefl : ∀ log, R log log)
  (htrans : ∀ log₁ log₂ log₃, R log₁ log₂ → R log₂ log₃ → R log₁ log₃)
  (happend : ∀ log log' i es n, RaftLog.Consecutive i es → log.append es = .ok (n, log') →
    R log log')
  (hcommit : ∀ log log' c, log.commitTo c = .ok log' → R log log')

include hrefl hcommit

theorem RaftLog.maybeCommit_rel {maxIndex term : ℕ} {b : Bool}
    (hrun : log.maybeCommit maxIndex term = .ok (b, log')) : R log log' := by
  unfold RaftLog.maybeCommit at hrun
  split at hrun
  · obtain ⟨s, _, hrun⟩ := bind_eq_ok hrun
    split at hrun
    · obtain ⟨log₁, hto, hrun⟩ := bind_eq_ok hrun
      cases hrun
      exact hcommit _ _ _ hto
    · cases hrun
      exact hrefl _
  · cases hrun
    exact hrefl _

include htrans happend

theorem RaftLog.maybeAppend_rel {idx term committed : ℕ} {entries : List Entry}
    {r : Option ℕ} (hes : RaftLog.Consecutive idx entries)
    (hrun : log.maybeAppend idx term committed entries = .ok (r, log')) : R log log' := by
  rw [RaftLog.maybeAppend] at hrun
  obtain ⟨b, _, hrun⟩ := bind_eq_ok hrun
  cases b with
  | false =>
      cases hrun
      exact hrefl _
  | true =>
      obtain ⟨conflict, hfind, hrun⟩ := bind_eq_ok hrun
      obtain ⟨log₁, hmid, hrun⟩ := bind_eq_ok hrun
      obtain ⟨log₂, hto, hrun⟩ := bind_eq_ok hrun
      cases hrun
      refine htrans _ _ _ ?_ (hcommit _ _ _ hto)
      split at hmid
      · cases hmid
        exact hrefl _
      · split at hmid
        · cases hmid
        · rename_i hzero _
          rcases RaftLog.findConflict_ok hes hfind with hc | ⟨k, hk, rfl⟩
          · exact absurd hc hzero
          · -- from the conflict on, the batch is appended
            obtain ⟨rest, hrest, hmid⟩ := bind_eq_ok hmid
            obtain ⟨⟨n, log₃⟩, hrun, hmid⟩ := bind_eq_ok hmid
            cases hmid
            obtain rfl := sliceVec_conflict hk hrest
            exact happend _ _ _ _ n (hes.drop k) hrun

theorem LogWrite.run_rel {w : LogWrite} (hw : w.Admissible) (hrun : w.run log = .ok log') :
    R log log' := by
  cases w with
  | append entries =>
      obtain ⟨i, hes⟩ := hw
      obtain ⟨⟨n, log₁⟩, hcall, hrun⟩ := bind_eq_ok hrun
      cases hrun
      exact happend _ _ i _ n hes hcall
  | commitTo toCommit => exact hcommit _ _ _ hrun
  | maybeCommit maxIndex term =>
      obtain ⟨⟨b, log₁⟩, hcall, hrun⟩ := bind_eq_ok hrun
      cases hrun
      exact RaftLog.maybeCommit_rel hrefl hcommit hcall
  | maybeAppend idx term committed entries =>
      obtain ⟨⟨r, log₁⟩, hcall, hrun⟩ := bind_eq_ok hrun
      cases hrun
      exact RaftLog.maybeAppend_rel hrefl htrans happend hcommit hw hcall

end Rel

/-- An append that returns has replaced the tail above the commit index, and nothing else. -/
theorem RaftLog.append_ok (hes : Consecutive i es) {n : ℕ}
    (hrun : log.append es = .ok (n, log')) :
    log' = log ∨ ∃ u, es ≠ [] ∧ log.committed ≤ i ∧
      log.unstable.truncateAndAppend es = .ok u ∧ log' = { log with unstable := u } := by
  cases es with
  | nil =>
      obtain ⟨_, _, hrun⟩ := bind_eq_ok hrun
      cases hrun
      exact Or.inl rfl
  | cons e es =>
      have hidx : e.index = i + 1 := hes 0 e rfl
      simp only [RaftLog.append, hidx] at hrun
      rw [wrappingSub_of_le (by omega), Nat.add_sub_cancel] at hrun
      by_cases hc : i < log.committed
      · rw [if_pos hc] at hrun
        cases hrun
      · rw [if_neg hc] at hrun
        obtain ⟨u, hu, hrun⟩ := bind_eq_ok hrun
        obtain ⟨_, _, hrun⟩ := bind_eq_ok hrun
        cases hrun
        exact Or.inr ⟨u, List.cons_ne_nil _ _, by omega, hu, rfl⟩

theorem RaftLog.commitTo_applied (hrun : log.commitTo c = .ok log') :
    log'.applied = log.applied := by
  unfold RaftLog.commitTo at hrun
  split at hrun
  · cases hrun
    rfl
  · obtain ⟨_, _, hrun⟩ := bind_eq_ok hrun
    split at hrun
    · cases hrun
    · cases hrun
      rfl

/-- No write applies anything. -/
theorem LogWrite.applied_of_run {w : LogWrite} (hw : w.Admissible) (hrun : w.run log = .ok log') :
    log'.applied = log.applied := by
  refine LogWrite.run_rel (R := fun log log' => log'.applied = log.applied) (fun _ => rfl)
    (fun _ _ _ h₁₂ h₂₃ => h₂₃.trans h₁₂) ?_ (fun _ _ _ hrun => RaftLog.commitTo_applied hrun)
    hw hrun
  intro log log' i es n hes hrun
  rcases RaftLog.append_ok hes hrun with rfl | ⟨u, _, _, _, rfl⟩
  · rfl
  · rfl

end

/-! ## §3  One write -/

namespace RaftLog

variable [ProtoMessage Entry] {log log' log'' : RaftLog MemStorage} {i c t : ℕ}
  {es : List Entry}

/-- A well-formed log whose cursors are in order. -/
structure Sound (log : RaftLog MemStorage) : Prop where
  wellFormed : log.WellFormed
  base_le : log.logical.base ≤ log.applied
  applied_le : log.applied ≤ log.committed
  committed_le : log.committed ≤ log.logical.lastIndex

/-- The later log keeps the store and what was committed, and its cursors have not
gone back. -/
structure Advances (log log' : RaftLog MemStorage) : Prop where
  store : log'.store = log.store
  base : log'.logical.base = log.logical.base
  kept : ∀ i, i ≤ log.committed → log'.logical.entryAt i = log.logical.entryAt i
  committed_le : log.committed ≤ log'.committed
  applied_le : log.applied ≤ log'.applied

omit [ProtoMessage Entry] in
theorem Advances.refl (log : RaftLog MemStorage) : Advances log log :=
  ⟨rfl, rfl, fun _ _ => rfl, Nat.le_refl _, Nat.le_refl _⟩

omit [ProtoMessage Entry] in
theorem Advances.trans (h : Advances log log') (h' : Advances log' log'') :
    Advances log log'' where
  store := h'.store.trans h.store
  base := h'.base.trans h.base
  kept i hi := (h'.kept i (Nat.le_trans hi h.committed_le)).trans (h.kept i hi)
  committed_le := Nat.le_trans h.committed_le h'.committed_le
  applied_le := Nat.le_trans h.applied_le h'.applied_le

/-- A log over a well-formed store starts sound, committed and applied up to the
store's base. -/
theorem sound_new {store : MemStorage} (hstore : store.core.WellFormed)
    (hnew : RaftLog.new store = .ok log) :
    Sound log ∧ log.unstable.snapshot = none ∧ log.logical = store.core.plain ∧
      log.committed = log.logical.base ∧ log.applied = log.logical.base := by
  have hholds := MemStorage.holds_plain hstore.nonempty
  unfold RaftLog.new at hnew
  rw [hholds.firstIndex, hholds.lastIndex, unwrap_ok, unwrap_ok, ok_bind, ok_bind,
    wrappingSub_of_le (by omega), Nat.add_sub_cancel] at hnew
  cases hnew
  have hlast := base_le_lastIndex (L := store.core.plain)
  have hlogical : RaftLog.logical
      { store := store, unstable := Unstable.new (store.core.plain.lastIndex + 1),
        committed := store.core.plain.base, applied := store.core.plain.base } =
      store.core.plain := by
    show store.core.plain.overwrite (store.core.plain.lastIndex + 1 - 1) [] = _
    rw [Nat.add_sub_cancel, overwrite_lastIndex, List.append_nil]
  refine ⟨⟨⟨hstore, ?_, ?_, Nat.le_refl _, fun _ => rfl⟩, ?_, Nat.le_refl _, ?_⟩, rfl,
    hlogical, ?_, ?_⟩
  · intro k e he
    cases he
  · exact Nat.lt_succ_of_le hlast
  all_goals rw [hlogical]
  exact hlast

omit [ProtoMessage Entry] in
/-- A batch that begins inside the log, or right behind it, overwrites the rest. -/
theorem WellFormed.truncateAndAppend (h : log.WellFormed) (hne : es ≠ [])
    (hes : Consecutive i es) (hb : log.logical.base ≤ i) (hl : i ≤ log.logical.lastIndex)
    {u : Unstable} (hrun : log.unstable.truncateAndAppend es = .ok u) :
    WellFormed { log with unstable := u } ∧
      RaftLog.logical { log with unstable := u } = log.logical.overwrite i es := by
  obtain ⟨u', hu, _, hfits, hover⟩ := h.fits.truncateAndAppend hne hes hb hl
  obtain rfl : u' = u := by
    rw [hu] at hrun
    cases hrun
    rfl
  have hlog : RaftLog.logical { log with unstable := u' } = log.logical.overwrite i es := hover
  have hidx : Indexed (RaftLog.logical { log with unstable := u' }) := by
    rw [hlog]
    exact h.indexed.overwrite hb hl hes
  exact ⟨⟨h.store, hfits.index hidx, hfits⟩, hlog⟩

namespace Sound

omit [ProtoMessage Entry] in
/-- The cursors may move forward as long as they stay in order. -/
theorem with_cursors (h : Sound log) {a c : ℕ} (ha : log.applied ≤ a) (hc : log.committed ≤ c)
    (hac : a ≤ c) (hcl : c ≤ log.logical.lastIndex) :
    Sound { log with committed := c, applied := a } ∧
      Advances log { log with committed := c, applied := a } :=
  ⟨⟨⟨h.wellFormed.store, h.wellFormed.unstable, h.wellFormed.fits⟩,
    Nat.le_trans h.base_le ha, hac, hcl⟩, rfl, rfl, fun _ _ => rfl, hc, ha⟩

omit [ProtoMessage Entry] in
/-- Above the commit index, a batch may replace what lies behind it. -/
theorem truncateAndAppend (h : Sound log) (hne : es ≠ []) (hes : Consecutive i es)
    (hc : log.committed ≤ i) {u : Unstable} (hrun : log.unstable.truncateAndAppend es = .ok u) :
    Sound { log with unstable := u } ∧ Advances log { log with unstable := u } := by
  have hb : log.logical.base ≤ i := Nat.le_trans (Nat.le_trans h.base_le h.applied_le) hc
  have hl : i ≤ log.logical.lastIndex := h.wellFormed.fits.le_of_truncateAndAppend hne hes hrun
  obtain ⟨hwf, hlog⟩ := h.wellFormed.truncateAndAppend hne hes hb hl hrun
  refine ⟨⟨hwf, ?_, h.applied_le, ?_⟩, rfl, ?_, ?_, Nat.le_refl _, Nat.le_refl _⟩
  · rw [hlog]
    exact h.base_le
  · rw [hlog, lastIndex_overwrite hb hl]
    exact Nat.le_trans hc (Nat.le_add_right _ _)
  · rw [hlog]
    rfl
  · intro j hj
    rw [hlog, entryAt_overwrite_le hl (Nat.le_trans hj hc)]

theorem append (h : Sound log) (hes : Consecutive i es) {n : ℕ}
    (hrun : log.append es = .ok (n, log')) : Sound log' ∧ Advances log log' := by
  rcases append_ok hes hrun with rfl | ⟨u, hne, hc, hu, rfl⟩
  · exact ⟨h, Advances.refl _⟩
  · exact h.truncateAndAppend hne hes hc hu

theorem commitTo (h : Sound log) (hrun : log.commitTo c = .ok log') :
    Sound log' ∧ Advances log log' := by
  obtain ⟨rfl, hinside⟩ := h.wellFormed.presents.commitTo_ok hrun
  have := h.committed_le
  have := h.applied_le
  exact h.with_cursors (Nat.le_refl _) (Nat.le_max_left _ _) (by omega) (by omega)

omit [ProtoMessage Entry] in
theorem appliedTo (h : Sound log) (hrun : log.appliedTo i = .ok log') :
    Sound log' ∧ Advances log log' := by
  obtain ⟨hframe, ha, hle⟩ := appliedTo_ok hrun h.applied_le
  rw [hframe] at hle ⊢
  exact h.with_cursors ha (Nat.le_refl _) hle h.committed_le

/-- A write keeps a sound log sound, and what was committed in place. -/
theorem write (h : Sound log) {w : LogWrite} (hw : w.Admissible) (hrun : w.run log = .ok log') :
    Sound log' ∧ Advances log log' := by
  refine LogWrite.run_rel (R := fun log log' => Sound log → Sound log' ∧ Advances log log')
    ?_ ?_ ?_ ?_ hw hrun h
  · intro log h
    exact ⟨h, Advances.refl log⟩
  · intro log₁ log₂ log₃ h₁₂ h₂₃ h
    have hmid := h₁₂ h
    have hlast := h₂₃ hmid.1
    exact ⟨hlast.1, hmid.2.trans hlast.2⟩
  · intro log log' i es n hes hrun h
    exact h.append hes hrun
  · intro log log' c hrun h
    exact h.commitTo hrun

/-- What is committed can be read, one entry at a time. -/
theorem slice_one (h : Sound log) {e : Entry} (he : log.logical.entryAt i = some e) :
    log.slice i (i + 1) NO_LIMIT = .ok (.ok [e]) := by
  obtain ⟨hb, hl⟩ := bounds_of_entryAt he
  rw [h.wellFormed.slice_eq hb (by omega) (by omega), limitSize_noLimit,
    show i + 1 - i = 1 by omega, segment_one he]

end Sound

/-- A log created over a new store. -/
def freshLog : RaftLog MemStorage :=
  { store := {}, unstable := Unstable.new 1, committed := 0, applied := 0 }

end RaftLog

end RsRaft
