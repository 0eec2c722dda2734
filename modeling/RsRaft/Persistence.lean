import RsRaft.Lib.EveryCall
import RsRaft.LogRun

/-!
# Persisting the unstable tail

The application takes the unstable entries, writes them to the store, and
reports the last of them through `stable_to`; meanwhile the log goes on being
written. Readers should not notice. They do when the batch overlaps what is
stored: the store then keeps its old entries, and the tail lets go of the new
ones.

§1 the run · §2 what a completion does · §3 what a capture leaves to be true ·
§4 transparent completions · §5 the run.
-/

namespace RsRaft

open PlainLog

/-! ## §1  The run -/

/-- Unstable entries on their way to the store, with index and term of the last. -/
structure Capture where
  entries : List Entry
  idx : ℕ
  term : ℕ
deriving DecidableEq, Repr

/-- Index of the first entry. -/
def Capture.first (c : Capture) : ℕ := (c.entries.headD {}).index

namespace RaftLog

def capture (log : RaftLog MemStorage) : Option Capture :=
  log.unstableEntries.bind fun es => es.getLast?.map fun e => ⟨es, e.index, e.term⟩

/-- Write the capture to the store, then report it. -/
def complete (log : RaftLog MemStorage) (c : Capture) : Except Panic (RaftLog MemStorage) := do
  let (_, core) ← log.store.core.append c.entries
  RaftLog.stableTo { log with store := { core := core } } c.idx c.term

end RaftLog

structure Persisting where
  log : RaftLog MemStorage
  outstanding : Option Capture := none

inductive PersistStep where
  | write (w : LogWrite)
  | capture
  | complete
deriving DecidableEq, Repr

def PersistStep.Admissible : PersistStep → Prop
  | write w => w.Admissible
  | capture => True
  | complete => True

namespace Persisting

variable [ProtoMessage Entry]

/-- A second capture waits for the first to be completed. -/
def step (st : Persisting) : PersistStep → Except Panic Persisting
  | .write w => do
      let log ← w.run st.log
      pure { st with log := log }
  | .capture =>
      match st.outstanding with
      | some _ => pure st
      | none => pure { st with outstanding := st.log.capture }
  | .complete =>
      match st.outstanding with
      | none => pure st
      | some c => do
          let log ← st.log.complete c
          pure { log := log, outstanding := none }

/-- The versions of the log that the writes of a run make. -/
def versions : List PersistStep → Persisting → List (PlainLog Entry ℕ)
  | [], _ => []
  | op :: ops, st =>
      match st.step op with
      | .error _ => []
      | .ok st' =>
          match op with
          | .write _ => st'.log.logical :: versions ops st'
          | _ => versions ops st'

/-- Every completion of the run meets `P` in the log before it. -/
def EveryCompletion (P : RaftLog MemStorage → Capture → Prop) :
    List PersistStep → Persisting → Prop :=
  EveryCall (fun st op st' => st.step op = .ok st')
    fun st op => op = .complete → ∀ c, st.outstanding = some c → P st.log c

end Persisting

namespace RaftLog

variable [ProtoMessage Entry]

/-- The completion returns, and the log reads as before. -/
def TransparentAt (log : RaftLog MemStorage) (c : Capture) : Prop :=
  ∃ log', log.complete c = .ok log' ∧ ReadsAlike log log'

omit [ProtoMessage Entry] in
/-- The capture continues the store; or the tail no longer has its last entry; or the
store has all of it already, and ends with it unless the tail goes on. -/
inductive Persistable (log : RaftLog MemStorage) (c : Capture) : Prop where
  | behind (h : c.first = log.store.core.plain.lastIndex + 1)
  | replaced (h : ¬ log.unstable.Knows c.idx c.term)
  | stored (h : log.store.core.plain.segment (c.first - 1) c.entries.length = c.entries)
      (hend : c.idx < log.unstable.offset + log.unstable.entries.length - 1 ∨
        c.idx = log.store.core.plain.lastIndex)

/-! ## §2  What a completion does -/

variable {log log' : RaftLog MemStorage} {L : PlainLog Entry ℕ} {c : Capture} {i : ℕ}
  {vs : List (PlainLog Entry ℕ)}

/-- The tail without what has been persisted. -/
def drained (log : RaftLog MemStorage) (core : MemStorageCore) (idx : ℕ) : RaftLog MemStorage :=
  { log with
    store := { core := core }
    unstable := { log.unstable with
      entries := log.unstable.entries.drop (idx + 1 - log.unstable.offset)
      offset := idx + 1 } }

omit [ProtoMessage Entry] in
theorem stampAt_of_knows (h : log.WellFormed) {idx t : ℕ} (hknows : log.unstable.Knows idx t) :
    log.logical.stampAt idx = some t := by
  obtain ⟨hoff, hterm⟩ := hknows
  obtain ⟨e, he, rfl⟩ := Option.map_eq_some_iff.mp hterm
  have hlow := h.fits.low
  have hhigh := h.fits.high
  have hat := entryAt_overwrite_gt log.unstable.entries
    (show (log.unstable.ground log.store.core.plain).base ≤ log.unstable.offset - 1 by omega)
    (by omega) (idx - log.unstable.offset)
  rw [show log.unstable.offset - 1 + 1 + (idx - log.unstable.offset) = idx by omega, he] at hat
  exact stampAt_of_entryAt hat

omit [ProtoMessage Entry] in
theorem base_logical (hsnap : log.unstable.snapshot = none) :
    log.logical.base = log.store.core.plain.base := by
  rw [logical, Unstable.logOver_base, Unstable.ground_of_none hsnap]

section Drained

variable {core : MemStorageCore} {idx t : ℕ}

omit [ProtoMessage Entry]

/-- What is left of the tail stands on the store if that reaches as far as the tail was
drained, and no further unless the tail goes on. -/
theorem drained_wellFormed (h : log.WellFormed) (hsnap : log.unstable.snapshot = none)
    (hcore : core.WellFormed) (hbase : core.plain.base = log.store.core.plain.base)
    (hknows : log.unstable.Knows idx t) (hstored : idx ≤ core.plain.lastIndex)
    (hend : idx < log.logical.lastIndex ∨ idx = core.plain.lastIndex) :
    (log.drained core idx).WellFormed := by
  have hlow := h.fits.low
  have hlast : idx ≤ log.logical.lastIndex := (bounds_of_stampAt (stampAt_of_knows h hknows)).2
  have hlen : log.logical.lastIndex = log.unstable.offset - 1 + log.unstable.entries.length :=
    h.fits.lastIndex_logOver
  have hoff := hknows.1
  have hground : (log.drained core idx).unstable.ground core.plain = core.plain :=
    Unstable.ground_of_none hsnap
  rw [Unstable.ground_of_none hsnap] at hlow
  refine ⟨hcore, ?_, ?_, ?_, ?_⟩
  · intro k e he
    have he : (log.unstable.entries.drop (idx + 1 - log.unstable.offset))[k]? = some e := he
    rw [List.getElem?_drop] at he
    have := h.unstable _ _ he
    show e.index = idx + 1 + k
    omega
  · show ((log.drained core idx).unstable.ground core.plain).base < idx + 1
    rw [hground]
    omega
  · show idx + 1 ≤ ((log.drained core idx).unstable.ground core.plain).lastIndex + 1
    rw [hground]
    omega
  · intro hnil
    have hnil : log.unstable.entries.drop (idx + 1 - log.unstable.offset) = [] := hnil
    rw [List.drop_eq_nil_iff] at hnil
    show idx + 1 = ((log.drained core idx).unstable.ground core.plain).lastIndex + 1
    rw [hground]
    omega

theorem drained_logical (hsnap : log.unstable.snapshot = none) :
    (log.drained core idx).logical = core.plain.overwrite idx
      (log.unstable.entries.drop (idx + 1 - log.unstable.offset)) := by
  show ((log.drained core idx).unstable.ground core.plain).overwrite (idx + 1 - 1) _ = _
  have hground : (log.drained core idx).unstable.ground core.plain = core.plain :=
    Unstable.ground_of_none hsnap
  rw [hground, Nat.add_sub_cancel]
  rfl

/-- If the store agrees with the log as far as the tail is drained, the log is the same. -/
theorem drained_same (h : log.WellFormed) (hsnap : log.unstable.snapshot = none)
    (hbase : core.plain.base = log.store.core.plain.base)
    (hstamp : core.plain.baseStamp = log.store.core.plain.baseStamp)
    (hknows : log.unstable.Knows idx t) (hstored : idx ≤ core.plain.lastIndex)
    (hagree : ∀ j, j ≤ idx → core.plain.entryAt j = log.logical.entryAt j) :
    (log.drained core idx).logical = log.logical := by
  have hlow := h.fits.low
  have hoff := hknows.1
  have hb := base_logical hsnap
  have hground : log.unstable.ground log.store.core.plain = log.store.core.plain :=
    Unstable.ground_of_none hsnap
  have hlstamp : log.logical.baseStamp = log.store.core.plain.baseStamp := by
    rw [logical, Unstable.logOver, overwrite_baseStamp, hground]
  have hdrop : log.logical.tail.drop (idx - log.logical.base) =
      log.unstable.entries.drop (idx - (log.unstable.offset - 1)) :=
    drop_overwrite log.unstable.entries
      (show (log.unstable.ground log.store.core.plain).base ≤ log.unstable.offset - 1 by omega)
      (by have := h.fits.high; omega) (by omega)
  rw [drained_logical hsnap,
    show idx + 1 - log.unstable.offset = idx - (log.unstable.offset - 1) by omega, ← hdrop]
  have hgbase : (log.unstable.ground log.store.core.plain).base =
      log.store.core.plain.base := by
    rw [hground]
  exact overwrite_of_agrees (by omega) (by rw [hstamp, hlstamp]) (by omega) hstored
    (bounds_of_stampAt (stampAt_of_knows h hknows)).2 hagree

end Drained

/-! ## §3  What a capture leaves to be true -/

/-- The capture goes behind stored index `i`, the log it was taken from is one of the
versions, and the tail has not moved up since. -/
structure Captured (log : RaftLog MemStorage) (c : Capture) (i : ℕ)
    (vs : List (PlainLog Entry ℕ)) : Prop where
  base_le : log.store.core.plain.base ≤ i
  le_last : i ≤ log.store.core.plain.lastIndex
  offset_le : log.unstable.offset ≤ i + 1
  tail : log.unstable.entries ≠ []
  consecutive : Consecutive i c.entries
  nonempty : c.entries ≠ []
  idx : c.idx = i + c.entries.length
  version : log.store.core.plain.overwrite i c.entries ∈ vs
  term : (log.store.core.plain.overwrite i c.entries).stampAt c.idx = some c.term

omit [ProtoMessage Entry] in
theorem Captured.first (h : Captured log c i vs) : c.first = i + 1 := by
  obtain ⟨e, es, hcons⟩ := List.exists_cons_of_ne_nil h.nonempty
  rw [Capture.first, hcons]
  exact h.consecutive 0 e (by rw [hcons]; rfl)

omit [ProtoMessage Entry] in
theorem captured_capture (h : Sound log) (hsnap : log.unstable.snapshot = none)
    (hversion : log.logical ∈ vs) (hc : log.capture = some c) :
    Captured log c (log.unstable.offset - 1) vs := by
  have hground : log.unstable.ground log.store.core.plain = log.store.core.plain :=
    Unstable.ground_of_none hsnap
  have hlow := h.wellFormed.fits.low
  have hhigh := h.wellFormed.fits.high
  rw [hground] at hlow hhigh
  unfold RaftLog.capture RaftLog.unstableEntries at hc
  split at hc
  · cases hc
  · rename_i hne
    obtain ⟨e, he, rfl⟩ := Option.map_eq_some_iff.mp hc
    have hpos := List.length_pos_iff.mpr hne
    rw [List.getLast?_eq_getElem?] at he
    have hidx := h.wellFormed.unstable _ _ he
    have hlogical : log.store.core.plain.overwrite (log.unstable.offset - 1)
        log.unstable.entries = log.logical := by
      rw [logical, Unstable.logOver, hground]
    have hknows : log.unstable.Knows e.index e.term := by
      refine ⟨by omega, ?_⟩
      rw [hidx, Nat.add_sub_cancel_left, he]
      rfl
    refine ⟨by omega, by omega, by omega, hne, h.wellFormed.consecutive, hne, ?_, ?_, ?_⟩
    · show e.index = log.unstable.offset - 1 + log.unstable.entries.length
      omega
    · rwa [hlogical]
    · show (log.store.core.plain.overwrite _ _).stampAt e.index = some e.term
      rw [hlogical]
      exact stampAt_of_knows h.wellFormed hknows

/-- A write leaves the store and the snapshot alone, and moves the tail down only. -/
theorem write_frame {w : LogWrite} (hw : w.Admissible) (hrun : w.run log = .ok log') :
    log'.store = log.store ∧ log'.unstable.snapshot = log.unstable.snapshot ∧
      log'.unstable.offset ≤ log.unstable.offset ∧
      (log.unstable.entries ≠ [] → log'.unstable.entries ≠ []) := by
  refine LogWrite.run_rel (R := fun log log' : RaftLog MemStorage =>
    log'.store = log.store ∧ log'.unstable.snapshot = log.unstable.snapshot ∧
      log'.unstable.offset ≤ log.unstable.offset ∧
      (log.unstable.entries ≠ [] → log'.unstable.entries ≠ [])) ?_ ?_ ?_ ?_ hw hrun
  · intro log
    exact ⟨rfl, rfl, Nat.le_refl _, id⟩
  · intro log₁ log₂ log₃ ⟨hs, hn, ho, he⟩ ⟨hs', hn', ho', he'⟩
    exact ⟨hs'.trans hs, hn'.trans hn, Nat.le_trans ho' ho, fun h => he' (he h)⟩
  · intro log log' i es n hes hrun
    rcases append_ok hes hrun with rfl | ⟨u, _, _, hu, rfl⟩
    · exact ⟨rfl, rfl, Nat.le_refl _, id⟩
    · obtain ⟨hn, ho, he⟩ := Unstable.truncateAndAppend_frame hu
      exact ⟨rfl, hn, ho, fun _ => he⟩
  · intro log log' c hrun
    obtain ⟨hs, hu⟩ := commitTo_frame hrun
    rw [hs, hu]
    exact ⟨rfl, rfl, Nat.le_refl _, id⟩

theorem Captured.write (h : Captured log c i vs) {w : LogWrite} (hw : w.Admissible)
    (hrun : w.run log = .ok log') : Captured log' c i vs := by
  obtain ⟨hstore, _, hoff, hne⟩ := write_frame hw hrun
  refine ⟨?_, ?_, Nat.le_trans hoff h.offset_le, hne h.tail, h.consecutive, h.nonempty, h.idx,
    ?_, ?_⟩
  all_goals rw [hstore]
  · exact h.base_le
  · exact h.le_last
  · exact h.version
  · exact h.term

omit [ProtoMessage Entry] in
theorem Captured.mono (h : Captured log c i vs) {vs' : List (PlainLog Entry ℕ)}
    (hsub : ∀ L ∈ vs, L ∈ vs') : Captured log c i vs' :=
  { h with version := hsub _ h.version }

/-! ## §4  Transparent completions -/

omit [ProtoMessage Entry] in
theorem complete_of_append (hsnap : log.unstable.snapshot = none) {r : Result Unit}
    {core : MemStorageCore} (h : log.store.core.append c.entries = .ok (r, core)) :
    log.complete c = .ok (if log.unstable.Knows c.idx c.term then log.drained core c.idx
      else { log with store := { core := core } }) := by
  rw [complete, h, ok_bind]
  dsimp only
  rw [RaftLog.stableTo, Unstable.stableTo_eq hsnap, ok_bind]
  by_cases hk : log.unstable.Knows c.idx c.term
  · rw [if_pos hk, if_pos hk]
    rfl
  · rw [if_neg hk, if_neg hk]
    rfl

namespace Captured

omit [ProtoMessage Entry] in
/-- The store takes a capture that continues it. -/
theorem append_behind (h : Captured log c i vs) (hcore : log.store.core.WellFormed)
    (hi : i = log.store.core.plain.lastIndex) :
    log.store.core.append c.entries = .ok (.ok (),
      { log.store.core with entries := log.store.core.entries ++ c.entries }) := by
  have hpos := List.length_pos_iff.mpr h.nonempty
  have hb := h.base_le
  rw [MemStorageCore.append_eq hcore.nonempty h.consecutive (Nat.succ_le_succ h.le_last),
    if_pos (by omega), show log.store.core.plain.base + 1 - (i + 1) = 0 by omega,
    List.drop_zero]

omit [ProtoMessage Entry] in
/-- The store drops a capture that overlaps it. -/
theorem append_overlap (h : Captured log c i vs) (hcore : log.store.core.WellFormed)
    (hi : i < log.store.core.plain.lastIndex) :
    log.store.core.append c.entries = .ok (.ok (), log.store.core) := by
  have hb := h.base_le
  rw [MemStorageCore.append_eq hcore.nonempty h.consecutive (Nat.succ_le_succ h.le_last),
    if_neg (by omega)]

omit [ProtoMessage Entry] in
/-- While the tail still has the last captured entry, the log holds the whole capture. -/
theorem agrees (h : Captured log c i vs) (hwf : log.WellFormed) (hversion : log.logical ∈ vs)
    (hsnap : log.unstable.snapshot = none)
    (hmatch : ∀ L ∈ vs, ∀ M ∈ vs, Matching L M) (hk : log.unstable.Knows c.idx c.term) (j : ℕ)
    (hj : j ≤ c.idx) :
    (log.store.core.plain.overwrite i c.entries).entryAt j = log.logical.entryAt j := by
  have hagree := hmatch _ h.version _ hversion _ _ h.term (stampAt_of_knows hwf hk)
  by_cases hb : log.store.core.plain.base < j
  · exact hagree.entry j hb hj
  · -- at or below the base there are no entries
    have hbase : log.logical.base = log.store.core.plain.base := by
      rw [logical, Unstable.logOver_base, Unstable.ground_of_none hsnap]
    rw [entryAt, overwrite_base, if_neg hb, entryAt, hbase, if_neg hb]

end Captured

/-- The log after a completion that changed nothing a reader can see. -/
structure Kept (log log' : RaftLog MemStorage) : Prop where
  sound : Sound log'
  snapshot : log'.unstable.snapshot = none
  logical : log'.logical = log.logical

omit [ProtoMessage Entry] in
theorem kept_of_logical (h : Sound log) {store : MemStorage} {u : Unstable}
    (hsnap : u.snapshot = none)
    (hwf : WellFormed { log with store := store, unstable := u })
    (heq : logical { log with store := store, unstable := u } = log.logical) :
    Kept log { log with store := store, unstable := u } := by
  refine ⟨⟨hwf, ?_, h.applied_le, ?_⟩, hsnap, heq⟩
  · rw [heq]
    exact h.base_le
  · rw [heq]
    exact h.committed_le

/-- A tail that reads as before was not drained beyond the store. -/
theorem drained_inside (hwf : log.WellFormed) (hsnap : log.unstable.snapshot = none)
    (hk : log.unstable.Knows c.idx c.term)
    (halike : ReadsAlike log (log.drained log.store.core c.idx)) :
    c.idx ≤ log.store.core.plain.lastIndex := by
  by_contra hgt
  have hstamp := stampAt_of_knows hwf hk
  have hbounds := bounds_of_stampAt hstamp
  have hbase := base_logical hsnap
  have hterm := halike.term c.idx
  rw [hwf.presents.term, hstamp] at hterm
  have hnone : (log.drained log.store.core c.idx).unstable.maybeTerm c.idx = .ok none :=
    Unstable.maybeTerm_of_lt (Nat.lt_succ_self _) hsnap
  have hstore : Storage.term (log.drained log.store.core c.idx).store c.idx =
      .ok (.error (.Store .Unavailable)) := by
    apply MemStorage.term_unavailable hwf.store.nonempty
    show log.store.core.plain.lastIndex < c.idx
    omega
  rw [RaftLog.term, halike.firstIndex.trans hwf.presents.firstIndex, ok_bind,
    wrappingSub_of_le (by omega), if_neg (by omega),
    halike.lastIndex.trans hwf.presents.lastIndex, ok_bind, if_neg (by omega), hnone,
    ok_bind] at hterm
  dsimp only at hterm
  rw [hstore] at hterm
  cases hterm

/-- And one that was drained to its end left the end to the store. -/
theorem drained_end (hwf : log.WellFormed) (hsnap : log.unstable.snapshot = none)
    (hk : log.unstable.Knows c.idx c.term)
    (halike : ReadsAlike log (log.drained log.store.core c.idx)) :
    c.idx < log.logical.lastIndex ∨ c.idx = log.store.core.plain.lastIndex := by
  by_cases hlt : c.idx < log.logical.lastIndex
  · exact Or.inl hlt
  · right
    have hlow := hwf.fits.low
    have hlen : log.logical.lastIndex = log.unstable.offset - 1 + log.unstable.entries.length :=
      hwf.fits.lastIndex_logOver
    have hlast := (bounds_of_stampAt (stampAt_of_knows hwf hk)).2
    have hnil : (log.drained log.store.core c.idx).unstable.entries = [] := by
      show log.unstable.entries.drop (c.idx + 1 - log.unstable.offset) = []
      rw [List.drop_eq_nil_iff]
      omega
    have hstore : Storage.lastIndex (log.drained log.store.core c.idx).store =
        .ok (.ok log.store.core.plain.lastIndex) :=
      (MemStorage.holds_plain hwf.store.nonempty).lastIndex
    have hlastIndex := halike.lastIndex.trans hwf.presents.lastIndex
    rw [RaftLog.lastIndex, Unstable.maybeLastIndex_of_nil hnil,
      show (log.drained log.store.core c.idx).unstable.snapshot = none from hsnap] at hlastIndex
    simp only [Option.map_none, hstore, unwrap_ok, Except.ok.injEq] at hlastIndex
    omega

section

variable (h : Sound log) (hsnap : log.unstable.snapshot = none) (hc : Captured log c i vs)

include h hsnap hc

omit [ProtoMessage Entry] in
theorem complete_behind_knows (hversion : log.logical ∈ vs)
    (hmatch : ∀ L ∈ vs, ∀ M ∈ vs, Matching L M)
    (hi : i = log.store.core.plain.lastIndex) (hk : log.unstable.Knows c.idx c.term) :
    ∃ log', log.complete c = .ok log' ∧ Kept log log' := by
  subst hi
  have hcore := h.wellFormed.store
  have hplain := MemStorageCore.plain_append hcore.nonempty c.entries
  have hlast : (MemStorageCore.plain { log.store.core with
      entries := log.store.core.entries ++ c.entries }).lastIndex = c.idx := by
    rw [hplain, lastIndex_overwrite base_le_lastIndex (Nat.le_refl _), hc.idx]
  refine ⟨_, by rw [complete_of_append hsnap (hc.append_behind hcore rfl), if_pos hk], ?_⟩
  refine kept_of_logical h hsnap ?_ ?_
  · exact drained_wellFormed h.wellFormed hsnap (hcore.append hc.consecutive)
      (by rw [hplain, overwrite_base]) hk (Nat.le_of_eq hlast.symm) (Or.inr hlast.symm)
  · refine drained_same h.wellFormed hsnap (by rw [hplain, overwrite_base])
      (by rw [hplain, overwrite_baseStamp]) hk (Nat.le_of_eq hlast.symm) ?_
    intro j hj
    rw [hplain]
    exact hc.agrees h.wellFormed hversion hsnap hmatch hk j hj

omit [ProtoMessage Entry] in
theorem complete_behind_replaced (hi : i = log.store.core.plain.lastIndex)
    (hk : ¬ log.unstable.Knows c.idx c.term) :
    ∃ log', log.complete c = .ok log' ∧ Kept log log' := by
  subst hi
  have hcore := h.wellFormed.store
  have hlow := h.wellFormed.fits.low
  have hoff := hc.offset_le
  have hplain := MemStorageCore.plain_append hcore.nonempty c.entries
  have hground : log.unstable.ground log.store.core.plain = log.store.core.plain :=
    Unstable.ground_of_none hsnap
  have hground' : log.unstable.ground (MemStorageCore.plain { log.store.core with
      entries := log.store.core.entries ++ c.entries }) = _ :=
    (Unstable.ground_of_none hsnap).trans hplain
  rw [hground] at hlow
  refine ⟨_, by rw [complete_of_append hsnap (hc.append_behind hcore rfl), if_neg hk], ?_⟩
  refine kept_of_logical h hsnap ⟨hcore.append hc.consecutive, h.wellFormed.unstable, ?_⟩ ?_
  · refine ⟨?_, ?_, fun hnil => absurd hnil hc.tail⟩
    · rw [hground', overwrite_base]
      exact hlow
    · show log.unstable.offset ≤ _
      rw [hground', lastIndex_overwrite base_le_lastIndex (Nat.le_refl _)]
      omega
  · show (log.unstable.ground (MemStorageCore.plain { log.store.core with
      entries := log.store.core.entries ++ c.entries })).overwrite (log.unstable.offset - 1)
        log.unstable.entries = _
    rw [hground', overwrite_overwrite_le _ (by omega) (Nat.le_refl _), logical, Unstable.logOver,
      hground]

omit [ProtoMessage Entry] in
theorem complete_stored (hversion : log.logical ∈ vs)
    (hmatch : ∀ L ∈ vs, ∀ M ∈ vs, Matching L M) (hi : i < log.store.core.plain.lastIndex)
    (hk : log.unstable.Knows c.idx c.term)
    (hstored : log.store.core.plain.segment i c.entries.length = c.entries)
    (hend : c.idx < log.logical.lastIndex ∨ c.idx = log.store.core.plain.lastIndex) :
    ∃ log', log.complete c = .ok log' ∧ Kept log log' := by
  have hcore := h.wellFormed.store
  have hb := hc.base_le
  have hidx := hc.idx
  -- a stored segment as long as the capture ends inside the store
  have hinside : c.idx ≤ log.store.core.plain.lastIndex := by
    have hlen := congrArg List.length hstored
    have hpos := List.length_pos_iff.mpr hc.nonempty
    rw [PlainLog.segment, List.length_take, List.length_drop] at hlen
    unfold PlainLog.lastIndex
    omega
  refine ⟨_, by rw [complete_of_append hsnap (hc.append_overlap hcore hi), if_pos hk], ?_⟩
  refine kept_of_logical h hsnap (drained_wellFormed h.wellFormed hsnap hcore rfl hk hinside hend)
    (drained_same h.wellFormed hsnap rfl rfl hk hinside ?_)
  intro j hj
  rw [← hc.agrees h.wellFormed hversion hsnap hmatch hk j hj]
  by_cases hji : j ≤ i
  · rw [entryAt_overwrite_le hc.le_last hji]
  · have hgt := entryAt_overwrite_gt c.entries hb hc.le_last (j - (i + 1))
    rw [show i + 1 + (j - (i + 1)) = j by omega] at hgt
    rw [hgt, ← hstored, segment_getElem? hb (by omega),
      show i + 1 + (j - (i + 1)) = j by omega]

omit [ProtoMessage Entry] in
/-- A completion that may go ahead keeps the log as it is. -/
theorem complete_of_persistable (hversion : log.logical ∈ vs)
    (hmatch : ∀ L ∈ vs, ∀ M ∈ vs, Matching L M) (hp : Persistable log c) :
    ∃ log', log.complete c = .ok log' ∧ Kept log log' := by
  have hfirst := hc.first
  by_cases hi : i = log.store.core.plain.lastIndex
  · by_cases hk : log.unstable.Knows c.idx c.term
    · exact complete_behind_knows h hsnap hc hversion hmatch hi hk
    · exact complete_behind_replaced h hsnap hc hi hk
  · have hi : i < log.store.core.plain.lastIndex := Nat.lt_of_le_of_ne hc.le_last hi
    by_cases hk : log.unstable.Knows c.idx c.term
    · cases hp with
      | behind hbehind => omega
      | replaced hno => exact absurd hk hno
      | stored hstored hend =>
          rw [hfirst, Nat.add_sub_cancel] at hstored
          have hlen : log.logical.lastIndex =
            log.unstable.offset - 1 + log.unstable.entries.length :=
            h.wellFormed.fits.lastIndex_logOver
          have hlow := h.wellFormed.fits.low
          exact complete_stored h hsnap hc hversion hmatch hi hk hstored (by omega)
    · -- the store drops the capture, and the tail keeps what replaced it
      refine ⟨log, ?_, h, hsnap, rfl⟩
      rw [complete_of_append hsnap (hc.append_overlap h.wellFormed.store hi), if_neg hk]

/-- If the tail is drained and the entries read as before, the store has them. -/
theorem stored_of_alike (hversion : log.logical ∈ vs)
    (hmatch : ∀ L ∈ vs, ∀ M ∈ vs, Matching L M) (hk : log.unstable.Knows c.idx c.term)
    (hinside : c.idx ≤ log.store.core.plain.lastIndex)
    (hwf' : (log.drained log.store.core c.idx).WellFormed)
    (halike : ReadsAlike log (log.drained log.store.core c.idx)) :
    log.store.core.plain.segment i c.entries.length = c.entries := by
  have hwf := h.wellFormed
  have hb := hc.base_le
  have hidx := hc.idx
  have hlast := (bounds_of_stampAt (stampAt_of_knows hwf hk)).2
  have hbase := base_logical hsnap
  have hbase' : (log.drained log.store.core c.idx).logical.base = log.store.core.plain.base :=
    base_logical hsnap
  have hlast' : (log.drained log.store.core c.idx).logical.lastIndex = log.logical.lastIndex := by
    have := halike.lastIndex
    rw [hwf'.presents.lastIndex, hwf.presents.lastIndex] at this
    exact Except.ok.inj this
  have hentries := halike.entries (i + 1)
  rw [hwf'.entries_eq (by omega), hwf.entries_eq (by omega), limitSize_noLimit,
    limitSize_noLimit, hlast', Nat.add_sub_cancel] at hentries
  have hseg := Except.ok.inj (Except.ok.inj hentries)
  -- entry by entry: the store's is the drained log's, hence the log's, hence the capture's
  apply List.ext_getElem?
  intro k
  by_cases hlt : k < c.entries.length
  · have hsame : (log.drained log.store.core c.idx).logical.entryAt (i + 1 + k) =
        log.logical.entryAt (i + 1 + k) := by
      have := congrArg (fun es => es[k]?) hseg
      rwa [segment_getElem? (by omega) (by omega), segment_getElem? (by omega) (by omega)] at this
    rw [drained_logical hsnap, entryAt_overwrite_le hinside (by omega),
      ← hc.agrees hwf hversion hsnap hmatch hk _ (by omega),
      entryAt_overwrite_gt c.entries hb hc.le_last] at hsame
    rw [segment_getElem? hb hlt, hsame]
  · have hshort : (log.store.core.plain.segment i c.entries.length).length ≤ k := by
      rw [PlainLog.segment, List.length_take]
      omega
    rw [List.getElem?_eq_none hshort, List.getElem?_eq_none (by omega)]

/-- A completion nobody notices was one that may go ahead. -/
theorem persistable_of_transparent (hversion : log.logical ∈ vs)
    (hmatch : ∀ L ∈ vs, ∀ M ∈ vs, Matching L M) (ht : TransparentAt log c) :
    Persistable log c := by
  have hfirst := hc.first
  by_cases hi : i = log.store.core.plain.lastIndex
  · exact .behind (by omega)
  by_cases hk : log.unstable.Knows c.idx c.term
  · have hi : i < log.store.core.plain.lastIndex := Nat.lt_of_le_of_ne hc.le_last hi
    have hwf := h.wellFormed
    have hlow := hwf.fits.low
    have hlen : log.logical.lastIndex = log.unstable.offset - 1 + log.unstable.entries.length :=
      hwf.fits.lastIndex_logOver
    obtain ⟨log', hrun, halike⟩ := ht
    rw [complete_of_append hsnap (hc.append_overlap hwf.store hi), if_pos hk] at hrun
    cases hrun
    have hinside := drained_inside hwf hsnap hk halike
    have hend := drained_end hwf hsnap hk halike
    have hwf' := drained_wellFormed hwf hsnap hwf.store rfl hk hinside hend
    refine .stored ?_ (by omega)
    rw [hfirst, Nat.add_sub_cancel]
    exact stored_of_alike h hsnap hc hversion hmatch hk hinside hwf' halike
  · exact .replaced hk

end

end RaftLog

/-! ## §5  The run -/

namespace Persisting

open RaftLog

section

variable [ProtoMessage Entry] {st st' : Persisting} {vs : List (PlainLog Entry ℕ)}

/-- The log is sound and one of the versions, and an outstanding capture was taken from
one of them. -/
structure Live (st : Persisting) (vs : List (PlainLog Entry ℕ)) : Prop where
  sound : Sound st.log
  snapshot : st.log.unstable.snapshot = none
  version : st.log.logical ∈ vs
  captured : ∀ c, st.outstanding = some c → ∃ i, Captured st.log c i vs

/-- The versions a step adds. -/
def newVersions (op : PersistStep) (st' : Persisting) : List (PlainLog Entry ℕ) :=
  match op with
  | .write _ => [st'.log.logical]
  | _ => []

theorem versions_cons {op : PersistStep} {ops : List PersistStep} (h : st.step op = .ok st') :
    versions (op :: ops) st = newVersions op st' ++ versions ops st' := by
  rw [versions, h]
  cases op <;> rfl

/-- A step keeps this, a completion if it may go ahead. -/
theorem Live.step (h : Live st vs) {op : PersistStep} (hop : op.Admissible)
    (hmatch : ∀ L ∈ vs, ∀ M ∈ vs, Matching L M)
    (hp : op = .complete → ∀ c, st.outstanding = some c → Persistable st.log c)
    (hrun : st.step op = .ok st') : Live st' (vs ++ newVersions op st') := by
  cases op with
  | write w =>
      obtain ⟨log', hw, hrun⟩ := bind_eq_ok hrun
      cases hrun
      obtain ⟨hs, _⟩ := h.sound.write hop hw
      obtain ⟨_, hsnap, _⟩ := write_frame hop hw
      refine ⟨hs, hsnap.trans h.snapshot, List.mem_append_right _ List.mem_cons_self, ?_⟩
      intro c hc
      obtain ⟨i, hi⟩ := h.captured c hc
      exact ⟨i, (hi.write hop hw).mono fun L hL => List.mem_append_left _ hL⟩
  | capture =>
      simp only [newVersions, List.append_nil]
      simp only [Persisting.step] at hrun
      split at hrun
      · cases hrun
        exact h
      · cases hrun
        refine ⟨h.sound, h.snapshot, h.version, ?_⟩
        intro c hc
        exact ⟨_, captured_capture h.sound h.snapshot h.version hc⟩
  | complete =>
      simp only [newVersions, List.append_nil]
      simp only [Persisting.step] at hrun
      split at hrun
      · cases hrun
        exact h
      · rename_i c hc
        obtain ⟨i, hi⟩ := h.captured c hc
        obtain ⟨log', hlog, hkept⟩ := complete_of_persistable h.sound h.snapshot hi h.version
          hmatch (hp rfl c hc)
        obtain ⟨log₁, hcall, hrun⟩ := bind_eq_ok hrun
        rw [hlog] at hcall
        cases hcall
        cases hrun
        refine ⟨hkept.sound, hkept.snapshot, ?_, fun c hc => by cases hc⟩
        rw [hkept.logical]
        exact h.version

theorem everyCompletion_iff {ops : List PersistStep} (h : Live st vs)
    (hops : ∀ op ∈ ops, op.Admissible)
    (hmatch : ∀ L ∈ vs ++ versions ops st, ∀ M ∈ vs ++ versions ops st, Matching L M) :
    EveryCompletion TransparentAt ops st ↔ EveryCompletion Persistable ops st := by
  induction ops generalizing st vs with
  | nil => exact Iff.rfl
  | cons op ops ih =>
      have hvs : ∀ L ∈ vs, ∀ M ∈ vs, Matching L M := fun L hL M hM =>
        hmatch L (List.mem_append_left _ hL) M (List.mem_append_left _ hM)
      -- at the completion itself the two conditions are the same
      have hhere : (op = .complete → ∀ c, st.outstanding = some c → TransparentAt st.log c) ↔
          (op = .complete → ∀ c, st.outstanding = some c → Persistable st.log c) := by
        constructor
        · intro ht hop c hc
          obtain ⟨i, hi⟩ := h.captured c hc
          exact persistable_of_transparent h.sound h.snapshot hi h.version hvs (ht hop c hc)
        · intro hp hop c hc
          obtain ⟨i, hi⟩ := h.captured c hc
          obtain ⟨log', hrun, hkept⟩ := complete_of_persistable h.sound h.snapshot hi h.version
            hvs (hp hop c hc)
          exact ⟨log', hrun, readsAlike_of_logical h.sound.wellFormed hkept.sound.wellFormed
            hkept.logical⟩
      unfold EveryCompletion at ih ⊢
      rw [EveryCall, EveryCall, hhere]
      refine and_congr_right fun hp => forall_congr' fun st' => forall_congr' fun hrun => ?_
      apply ih (h.step (hops op List.mem_cons_self) hvs hp hrun)
        (fun op' hop' => hops op' (List.mem_cons_of_mem _ hop'))
      rwa [List.append_assoc, ← versions_cons hrun]

/-- Over a run whose versions match each other, readers notice no completion exactly if
every capture continues the store, was replaced in the meantime, or is stored already. -/
theorem transparent_iff {store : MemStorage} {log₀ : RaftLog MemStorage}
    (hstore : store.core.WellFormed) (hnew : RaftLog.new store = .ok log₀)
    {ops : List PersistStep} (hops : ∀ op ∈ ops, op.Admissible)
    (hmatch : ∀ L ∈ log₀.logical :: versions ops { log := log₀ },
      ∀ M ∈ log₀.logical :: versions ops { log := log₀ }, Matching L M) :
    EveryCompletion TransparentAt ops { log := log₀ } ↔
      EveryCompletion Persistable ops { log := log₀ } := by
  obtain ⟨hs, hsnap, _⟩ := sound_new hstore hnew
  have hlive : Live { log := log₀ } [log₀.logical] :=
    ⟨hs, hsnap, List.mem_cons_self, fun c hc => by cases hc⟩
  exact everyCompletion_iff hlive hops hmatch

end

/-! Two entries are stored. A capture behind them is persisted although the log has gone
on; one that replaces the second is lost. -/

def storedLog : RaftLog MemStorage :=
  { store := { core := { entries := [{}, { term := 1, index := 1 }, { term := 1, index := 2 }] } }
    unstable := Unstable.new 3
    committed := 0
    applied := 0 }

def continuing : List PersistStep :=
  [.write (.append [{ term := 2, index := 3 }]), .capture,
    .write (.append [{ term := 2, index := 4 }]), .complete]

def replacing : List PersistStep :=
  [.write (.append [{ term := 2, index := 2 }]), .capture, .complete]

theorem transparent_iff_continuing :
    EveryCompletion TransparentAt continuing { log := storedLog } ↔
      EveryCompletion Persistable continuing { log := storedLog } := by
  have hnew : RaftLog.new storedLog.store = .ok storedLog := rfl
  refine transparent_iff ⟨by decide, index_of_range' (by decide)⟩ hnew ?_ ?_
  · intro op hop
    simp only [continuing, List.mem_cons, List.not_mem_nil, or_false] at hop
    rcases hop with rfl | rfl | rfl | rfl
    · exact ⟨2, index_of_range' (by decide)⟩
    · trivial
    · exact ⟨3, index_of_range' (by decide)⟩
    · trivial
  · have hinside : ∀ L ∈ storedLog.logical :: versions continuing { log := storedLog },
        ∀ M ∈ storedLog.logical :: versions continuing { log := storedLog },
          MatchingInside L M := by
      decide +kernel
    exact fun L hL M hM => (hinside L hL M hM).matching

theorem not_transparent_replacing :
    (∀ L ∈ storedLog.logical :: versions replacing { log := storedLog },
      ∀ M ∈ storedLog.logical :: versions replacing { log := storedLog }, Matching L M) ∧
    ¬ EveryCompletion TransparentAt replacing { log := storedLog } := by
  constructor
  · have hinside : ∀ L ∈ storedLog.logical :: versions replacing { log := storedLog },
        ∀ M ∈ storedLog.logical :: versions replacing { log := storedLog }, MatchingInside L M := by
      decide +kernel
    exact fun L hL M hM => (hinside L hL M hM).matching
  · rintro ⟨_, h⟩
    obtain ⟨_, h⟩ := h _ rfl
    obtain ⟨h, _⟩ := h _ rfl
    obtain ⟨log', hrun, halike⟩ := h rfl _ rfl
    cases hrun
    -- the store still has the old entry, and the tail has let go of the new one
    have hterm := halike.term 2
    cases hterm

end Persisting

end RsRaft
