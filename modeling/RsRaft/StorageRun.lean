import RsRaft.Lib.EveryCall
import RsRaft.Storage

/-!
# Runs of the in-memory store

Whatever the order of appends, snapshots and compactions, the store keeps a
dummy entry and consecutive entries behind it, and compacting takes nothing away
that lies behind the compacted index. Taking a snapshot is the exception: the
snapshot's index and the first stored index move independently, and an index
between the two is below the dummy.

No index is `u64::MAX`: behind a dummy of that index the source's `first` would wrap
around to `0`.

§1 the calls · §2 single calls · §3 the run.
-/

namespace RsRaft

open PlainLog

/-! ## §1  The calls -/

inductive StorageCall where
  | append (entries : List Entry)
  | applySnapshot (snapshot : Snapshot)
  | compact (compactIdx : ℕ)
  | createSnapshot (idx : ℕ) (confState : Option ConfState) (data : Bytes)
deriving DecidableEq, Repr

namespace StorageCall

/-- The answer of a call; only `create_snapshot` answers with a snapshot. -/
def run (core : MemStorageCore) :
    StorageCall → Except Panic (Result (Option Snapshot) × MemStorageCore)
  | append entries => do
      let (r, core') ← core.append entries
      pure (r.map fun _ => none, core')
  | applySnapshot snapshot =>
      let (r, core') := core.applySnapshot snapshot
      pure (r.map fun _ => none, core')
  | compact compactIdx => do
      let (r, core') ← core.compact compactIdx
      pure (r.map fun _ => none, core')
  | createSnapshot idx confState data => do
      let (r, core') ← core.createSnapshot idx confState data
      pure (r.map some, core')

/-- Batches are consecutive and leave no gap, and indices do not exceed the last. -/
def Admissible (core : MemStorageCore) : StorageCall → Prop
  | append entries =>
      ∃ a, a ≤ core.plain.lastIndex + 1 ∧ ∀ k e, entries[k]? = some e → e.index = a + k
  | applySnapshot _ => True
  | compact compactIdx => compactIdx ≤ core.plain.lastIndex
  | createSnapshot idx _ _ => idx ≤ core.plain.lastIndex

variable [ProtoMessage Entry]

/-- Behind `c`, two stores read alike. -/
structure ReadsAlikeFrom (c : ℕ) (core core' : MemStorageCore) : Prop where
  lastIndex : MemStorage.lastIndex { core := core' } = MemStorage.lastIndex { core := core }
  term : ∀ i, c ≤ i → MemStorage.term { core := core' } i = MemStorage.term { core := core } i
  entries : ∀ low high max, c < low → low < high →
    MemStorage.entries { core := core' } low high max =
      MemStorage.entries { core := core } low high max

/-- What a call that returns has to have done. -/
def Answers (core : MemStorageCore) (r : Result (Option Snapshot)) (core' : MemStorageCore) :
    StorageCall → Prop
  | append _ => True
  | applySnapshot _ => True
  | compact compactIdx => ReadsAlikeFrom compactIdx core core'
  | createSnapshot idx _ _ => ∀ s, r = .ok (some s) →
      s.metadata.index = idx ∧
        MemStorage.term { core := core } idx = .ok (.ok s.metadata.term)

/-- The call returns, keeps the store well formed, and changes nothing if it fails. -/
def AsClaimed (core : MemStorageCore) (c : StorageCall) : Prop :=
  ∃ r core', c.run core = .ok (r, core') ∧ core'.WellFormed ∧
    ((∃ e, r = .error e) → core' = core) ∧ c.Answers core r core'

omit [ProtoMessage Entry] in
/-- A snapshot is asked for behind the last one, but below the dummy entry. -/
def BelowDummy (core : MemStorageCore) : StorageCall → Prop
  | createSnapshot idx _ _ => core.snapshot.metadata.index < idx ∧ idx < core.plain.base
  | _ => False

end StorageCall

/-! ## §2  Single calls -/

namespace StorageCall

open MemStorageCore

variable [ProtoMessage Entry] {core : MemStorageCore} {c : StorageCall}

theorem asClaimed_of_done (o : Option Snapshot) {core' : MemStorageCore}
    (h : core'.WellFormed) (hrun : c.run core = .ok (.ok o, core'))
    (hanswer : c.Answers core (.ok o) core') : AsClaimed core c :=
  ⟨_, _, hrun, h, fun herr => (by obtain ⟨_, he⟩ := herr; cases he), hanswer⟩

theorem asClaimed_of_refused (e : Error) (h : core.WellFormed)
    (hrun : c.run core = .ok (.error e, core))
    (hanswer : c.Answers core (.error e) core) : AsClaimed core c :=
  ⟨_, _, hrun, h, fun _ => rfl, hanswer⟩

theorem asClaimed_append (h : core.WellFormed) {entries : List Entry}
    (hadm : (StorageCall.append entries).Admissible core) : AsClaimed core (.append entries) := by
  obtain ⟨a, ha, hes⟩ := hadm
  refine asClaimed_of_done none ?_ (by rw [run, append_eq h.nonempty hes ha]; rfl) trivial
  split
  · rename_i hbehind
    apply h.append
    intro k e he
    rw [List.getElem?_drop] at he
    have := hes _ e he
    omega
  · exact h

theorem asClaimed_applySnapshot (h : core.WellFormed) (s : Snapshot) :
    AsClaimed core (.applySnapshot s) := by
  by_cases hold : core.snapshot.metadata.index ≥ s.metadata.index
  · refine asClaimed_of_refused (.Store .SnapshotOutOfDate) h ?_ trivial
    · rw [run, MemStorageCore.applySnapshot, if_pos hold]
      rfl
  · refine asClaimed_of_done none ⟨?_, index_of_range' ?_⟩
      (by rw [run, MemStorageCore.applySnapshot, if_neg hold]; rfl) trivial
    · exact List.cons_ne_nil _ _
    · rfl

theorem ReadsAlikeFrom.refl (i : ℕ) (core : MemStorageCore) : ReadsAlikeFrom i core core :=
  ⟨rfl, fun _ _ => rfl, fun _ _ _ _ _ => rfl⟩

/-- Cutting the store off at `i` leaves the reads behind `i` as they were. -/
theorem readsAlikeFrom_drop (h : core.WellFormed) {i : ℕ} (hb : core.plain.base < i)
    (hl : i ≤ core.plain.lastIndex) :
    ReadsAlikeFrom i core { core with entries := core.entries.drop (i - core.plain.base) } := by
  obtain ⟨hwf, hbase⟩ := h.drop (Nat.le_of_lt hb) hl
  have hlen := length_entries h.nonempty
  have hlen' := length_entries hwf.nonempty
  simp only [List.length_drop, hbase] at hlen'
  obtain ⟨d, es, hd, hdummy, hplain⟩ := dummy_index h.nonempty
  obtain ⟨d', es', hd', hdummy', hplain'⟩ := dummy_index hwf.nonempty
  have hdi : d.index = core.plain.base := by rw [hplain]
  have hdi' : d'.index = i := by rw [← hbase, hplain']
  refine ⟨?_, ?_, ?_⟩
  · simp only [MemStorage.lastIndex, innerLastIndex_eq h.nonempty,
      innerLastIndex_eq hwf.nonempty, ok_bind, pure_eq_ok, Except.ok.injEq]
    omega
  · intro j hj
    simp only [MemStorage.term, hdummy, hdummy', ok_bind, hdi, hdi', List.length_drop,
      List.getElem?_drop]
    rw [if_neg (show ¬ j < i by omega), if_neg (show ¬ j < core.plain.base by omega),
      show i - core.plain.base + (j - i) = j - core.plain.base by omega]
    by_cases hend : j - core.plain.base ≥ core.entries.length
    · rw [if_pos hend, if_pos (by omega)]
    · rw [if_neg hend, if_neg (by omega)]
  · intro low high max hlow hhigh
    simp only [MemStorage.entries, hdummy, hdummy', innerLastIndex_eq h.nonempty,
      innerLastIndex_eq hwf.nonempty, ok_bind, hdi, hdi', List.length_drop]
    rw [if_neg (show ¬ low ≤ i by omega), if_neg (show ¬ low ≤ core.plain.base by omega)]
    by_cases hout : high > core.plain.lastIndex + 1
    · rw [if_pos hout, if_pos (by omega)]
    · rw [if_neg hout, if_neg (show ¬ core.entries.length = 1 by omega), if_neg (by omega),
        if_neg (by omega), sliceVec, sliceVec, if_pos (by rw [List.length_drop]; omega),
        if_pos (by omega), List.drop_drop,
        show i - core.plain.base + (low - i) = low - core.plain.base by omega,
        show high - i - (low - i) = high - core.plain.base - (low - core.plain.base) by omega]

theorem asClaimed_compact (h : core.WellFormed) {i : ℕ} (hl : i ≤ core.plain.lastIndex) :
    AsClaimed core (.compact i) := by
  obtain ⟨d, es, hd, hdummy, hplain⟩ := dummy_index h.nonempty
  have hdi : d.index = core.plain.base := by rw [hplain]
  have hlast := innerLastIndex_eq h.nonempty
  by_cases hb : i ≤ core.plain.base
  · refine asClaimed_of_refused (.Store .Compacted) h ?_ (ReadsAlikeFrom.refl i core)
    · rw [run, MemStorageCore.compact, hdummy, ok_bind, if_pos (by omega)]
      rfl
  · refine asClaimed_of_done none (h.drop (by omega) hl).1 ?_ (readsAlikeFrom_drop h (by omega) hl)
    rw [run, MemStorageCore.compact, hdummy, ok_bind, if_neg (by omega), hlast, ok_bind,
      if_neg (by omega), hdi]
    rfl

variable {idx : ℕ} {confState : Option ConfState} {data : Bytes}

/-- From the dummy on, the term a snapshot gets is the stored one. -/
theorem asClaimed_createSnapshot (h : core.WellFormed) (hl : idx ≤ core.plain.lastIndex)
    (hno : ¬ (StorageCall.createSnapshot idx confState data).BelowDummy core) :
    AsClaimed core (.createSnapshot idx confState data) := by
  obtain ⟨d, es, hd, hdummy, hplain⟩ := dummy_index h.nonempty
  have hdi : d.index = core.plain.base := by rw [hplain]
  have hlast := innerLastIndex_eq h.nonempty
  by_cases hold : idx ≤ core.snapshot.metadata.index
  · refine asClaimed_of_refused (.Store .SnapshotOutOfDate) h ?_ fun s hs => by cases hs
    rw [run, MemStorageCore.createSnapshot, if_pos hold]
    rfl
  · have hb : core.plain.base ≤ idx := by
      by_contra hlt
      exact hno ⟨by omega, by omega⟩
    have hlen := length_entries h.nonempty
    have hlt : idx - core.plain.base < core.entries.length := by omega
    have he := List.getElem?_eq_getElem hlt
    have hstamp := stampAt_plain h.nonempty hb
    rw [he] at hstamp
    let s : Snapshot :=
      { data := data
        metadata :=
          { confState := confState.getD core.snapshot.metadata.confState
            index := idx
            term := core.entries[idx - core.plain.base].term } }
    have hrun : (StorageCall.createSnapshot idx confState data).run core =
        .ok (.ok (some s), { core with snapshot := s }) := by
      rw [run, MemStorageCore.createSnapshot, if_neg hold, hdummy, ok_bind, hlast, ok_bind,
        if_neg (by omega), hdi, wrappingSub_of_le hb, he]
      rfl
    have hwf : MemStorageCore.WellFormed { core with snapshot := s } :=
      ⟨h.nonempty, h.consecutive⟩
    refine asClaimed_of_done (some s) hwf hrun ?_
    rintro s hs
    cases hs
    exact ⟨rfl, (MemStorage.holds_plain h.nonempty).term idx _ hstamp⟩

/-- Below the dummy there is no term a snapshot could get. -/
theorem not_asClaimed_belowDummy (h : core.WellFormed) (hl : idx ≤ core.plain.lastIndex)
    (hbelow : (StorageCall.createSnapshot idx confState data).BelowDummy core) :
    ¬ AsClaimed core (.createSnapshot idx confState data) := by
  obtain ⟨hnew, hlow⟩ := hbelow
  obtain ⟨d, es, hd, hdummy, hplain⟩ := dummy_index h.nonempty
  have hlast := innerLastIndex_eq h.nonempty
  rintro ⟨r, core', hrun, _, _, hanswer⟩
  rw [run, MemStorageCore.createSnapshot, if_neg (by omega), hdummy, ok_bind, hlast, ok_bind,
    if_neg (by omega)] at hrun
  cases he : core.entries[wrappingSub idx d.index]? with
  | none =>
      rw [he] at hrun
      cases hrun
  | some e =>
      rw [he] at hrun
      cases hrun
      have hterm := (hanswer _ rfl).2
      rw [MemStorage.term_compacted h.nonempty hlow] at hterm
      cases hterm

theorem asClaimed_iff (h : core.WellFormed) (hadm : c.Admissible core) :
    AsClaimed core c ↔ ¬ c.BelowDummy core := by
  cases c with
  | append entries => exact iff_of_true (asClaimed_append h hadm) not_false
  | applySnapshot s => exact iff_of_true (asClaimed_applySnapshot h s) not_false
  | compact i => exact iff_of_true (asClaimed_compact h hadm) not_false
  | createSnapshot idx confState data =>
      constructor
      · intro hclaim hbelow
        exact not_asClaimed_belowDummy h hadm hbelow hclaim
      · exact asClaimed_createSnapshot h hadm

end StorageCall

/-! ## §3  The run -/

/-- Every call of the sequence meets `P` in the store before it. -/
def EveryStorageCall (P : MemStorageCore → StorageCall → Prop) :
    List StorageCall → MemStorageCore → Prop :=
  EveryCall (fun core c core' => ∃ r, c.run core = .ok (r, core')) P

/-- From the new store on, every call does what it should exactly if no snapshot is asked
for between the last one and the dummy entry; as everywhere, no index is `u64::MAX`. -/
theorem MemStorageCore.calls_iff [ProtoMessage Entry] {cs : List StorageCall}
    (hadm : EveryStorageCall StorageCall.Admissible cs {}) :
    EveryStorageCall StorageCall.AsClaimed cs {} ↔
      EveryStorageCall (fun core c => ¬ c.BelowDummy core) cs {} := by
  refine EveryCall.iff_of_invariant ?_ ?_ wellFormed_default hadm
  · intro core c h hc
    exact StorageCall.asClaimed_iff h hc
  · rintro core c core' h hc hno ⟨r, hrun⟩
    obtain ⟨r', core'', hrun', hwf, _⟩ := (StorageCall.asClaimed_iff h hc).mpr hno
    rw [hrun] at hrun'
    cases hrun'
    exact hwf

/-! Three entries, compacted up to the third without a snapshot: the third can be
snapshotted, the second is below the dummy. -/

def compactedThenSnapshot (idx : ℕ) : List StorageCall :=
  [.append [{ term := 1, index := 1 }, { term := 1, index := 2 }, { term := 2, index := 3 }],
    .compact 3, .createSnapshot idx none []]

theorem MemStorageCore.admissible_compactedThenSnapshot {idx : ℕ} (h : idx ≤ 3) :
    EveryStorageCall StorageCall.Admissible (compactedThenSnapshot idx) {} := by
  refine ⟨⟨1, by decide, index_of_range' (by decide)⟩, ?_⟩
  rintro core₁ ⟨r₁, hrun₁⟩
  cases hrun₁
  refine ⟨Nat.le_refl 3, ?_⟩
  rintro core₂ ⟨r₂, hrun₂⟩
  cases hrun₂
  exact ⟨h, fun _ _ => trivial⟩

theorem MemStorageCore.calls_iff_compacted :
    EveryStorageCall StorageCall.AsClaimed (compactedThenSnapshot 3) {} ↔
      EveryStorageCall (fun core c => ¬ c.BelowDummy core) (compactedThenSnapshot 3) {} :=
  calls_iff (admissible_compactedThenSnapshot (Nat.le_refl 3))

theorem MemStorageCore.not_calls_compacted :
    EveryStorageCall StorageCall.Admissible (compactedThenSnapshot 2) {} ∧
      ¬ EveryStorageCall StorageCall.AsClaimed (compactedThenSnapshot 2) {} := by
  refine ⟨admissible_compactedThenSnapshot (by decide), ?_⟩
  rintro ⟨_, h⟩
  obtain ⟨_, h⟩ := h _ ⟨_, rfl⟩
  obtain ⟨h, _⟩ := h _ ⟨_, rfl⟩
  obtain ⟨r, core', hrun, _⟩ := h
  cases hrun

end RsRaft
