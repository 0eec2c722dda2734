import RsRaft.Errors
import RsRaft.Util

/-!
# `storage.rs`: the `Storage` trait and the in-memory store

`Storage` is the trait the log is generic in. `MemStorage` guards one core with
a lock; every method takes the lock once, so the core is the store.
-/

namespace RsRaft

structure RaftState where
  hardState : HardState
  confState : ConfState
deriving DecidableEq, Repr

class Storage (T : Type) where
  initialState : T → Except Panic (Result RaftState)
  entries : T → (low high maxSize : ℕ) → Except Panic (Result (List Entry))
  term : T → (idx : ℕ) → Except Panic (Result ℕ)
  firstIndex : T → Except Panic (Result ℕ)
  lastIndex : T → Except Panic (Result ℕ)
  snapshot : T → Except Panic (Result Snapshot)

structure MemStorageCore where
  hardState : HardState := {}
  snapshot : Snapshot := {}
  entries : List Entry := [{}]
deriving DecidableEq, Repr

structure MemStorage where
  core : MemStorageCore := {}
deriving DecidableEq, Repr

namespace MemStorageCore

/-- `self.entries[0]`, the dummy entry. -/
def dummy (core : MemStorageCore) : Except Panic Entry :=
  match core.entries with
  | [] => .error .indexOutOfBounds
  | e :: _ => .ok e

def setHardState (core : MemStorageCore) (newHardState : HardState) : MemStorageCore :=
  { core with hardState := newHardState }

def innerLastIndex (core : MemStorageCore) : Except Panic ℕ := do
  let e ← core.dummy
  pure (e.index + core.entries.length - 1)

def applySnapshot (core : MemStorageCore) (newSnapshot : Snapshot) :
    Result Unit × MemStorageCore :=
  if core.snapshot.metadata.index ≥ newSnapshot.metadata.index then
    (.error (.Store .SnapshotOutOfDate), core)
  else
    let e : Entry := { term := newSnapshot.metadata.term, index := newSnapshot.metadata.index }
    (.ok (), { core with entries := [e], snapshot := newSnapshot })

/-- The bound is checked against the last index only: `idx - offset` may underflow. -/
def createSnapshot (core : MemStorageCore) (idx : ℕ) (confState : Option ConfState)
    (data : Bytes) : Except Panic (Result Snapshot × MemStorageCore) :=
  if idx ≤ core.snapshot.metadata.index then
    pure (.error (.Store .SnapshotOutOfDate), core)
  else do
    let offset := (← core.dummy).index
    let last ← core.innerLastIndex
    if idx > last then throw (.snapshotOutOfBound idx last)
    else
      match core.entries[wrappingSub idx offset]? with
      | none => throw .indexOutOfBounds
      | some e =>
          let snapshot : Snapshot :=
            { data := data
              metadata :=
                { confState := confState.getD core.snapshot.metadata.confState
                  index := idx
                  term := e.term } }
          pure (.ok snapshot, { core with snapshot := snapshot })

def compact (core : MemStorageCore) (compactIdx : ℕ) :
    Except Panic (Result Unit × MemStorageCore) := do
  let offset := (← core.dummy).index
  if compactIdx ≤ offset then pure (.error (.Store .Compacted), core)
  else
    let last ← core.innerLastIndex
    if compactIdx > last then throw (.compactOutOfBound compactIdx last)
    else pure (.ok (), { core with entries := core.entries.drop (compactIdx - offset) })

def append (core : MemStorageCore) (entries : List Entry) :
    Except Panic (Result Unit × MemStorageCore) :=
  match entries with
  | [] => pure (.ok (), core)
  | e :: _ => do
      let first := (← core.dummy).index + 1
      let last := e.index + entries.length - 1
      if last < first then pure (.ok (), core)
      else
        let te := if first > e.index then entries.drop (first - e.index) else entries
        match te with
        | [] => throw .indexOutOfBounds
        | t :: _ =>
            let offset := wrappingSub t.index (first - 1)
            if core.entries.length > offset then
              -- `new_entries` is built and dropped: the core keeps its entries
              let _newEntries := core.entries.take offset ++ te
              pure (.ok (), core)
            else if core.entries.length = offset then
              pure (.ok (), { core with entries := core.entries ++ te })
            else do
              let last ← core.innerLastIndex
              throw (.missingLogEntry last t.index)

end MemStorageCore

namespace MemStorage

def initialState (store : MemStorage) : Except Panic (Result RaftState) :=
  .ok (.ok ⟨store.core.hardState, store.core.snapshot.metadata.confState⟩)

def term (store : MemStorage) (idx : ℕ) : Except Panic (Result ℕ) := do
  let offset := (← store.core.dummy).index
  if idx < offset then pure (.error (.Store .Compacted))
  else if idx - offset ≥ store.core.entries.length then pure (.error (.Store .Unavailable))
  else
    match store.core.entries[idx - offset]? with
    | some e => pure (.ok e.term)
    | none => .error .indexOutOfBounds

def firstIndex (store : MemStorage) : Except Panic (Result ℕ) := do
  let e ← store.core.dummy
  pure (.ok (e.index + 1))

def lastIndex (store : MemStorage) : Except Panic (Result ℕ) := do
  let i ← store.core.innerLastIndex
  pure (.ok i)

def snapshot (store : MemStorage) : Except Panic (Result Snapshot) := .ok (.ok store.core.snapshot)

variable [ProtoMessage Entry]

def entries (store : MemStorage) (low high maxSize : ℕ) : Except Panic (Result (List Entry)) := do
  let offset := (← store.core.dummy).index
  if low ≤ offset then pure (.error (.Store .Compacted))
  -- a range behind the end is the caller's mistake, not a missing entry
  else if high > (← store.core.innerLastIndex) + 1 then .error .storageOutOfBound
  else if store.core.entries.length = 1 then pure (.error (.Store .Unavailable))
  else
    let es ← sliceVec store.core.entries (low - offset) (high - offset)
    pure (.ok (limitSize es maxSize))

instance : Storage MemStorage where
  initialState := initialState
  entries := entries
  term := term
  firstIndex := firstIndex
  lastIndex := lastIndex
  snapshot := snapshot

end MemStorage

/-! ## What a store promises

The log is generic in its store; a store `Holds` a plain log when its read
methods answer from it. -/

/-- The read methods of `store` answer from the plain log `S`. -/
structure Storage.Holds {T : Type} [Storage T] (store : T) (S : PlainLog Entry ℕ) : Prop where
  firstIndex : Storage.firstIndex store = .ok (.ok (S.base + 1))
  lastIndex : Storage.lastIndex store = .ok (.ok S.lastIndex)
  term : ∀ i t, S.stampAt i = some t → Storage.term store i = .ok (.ok t)

namespace MemStorageCore

/-- The plain log of a core: the dummy entry is its base. -/
def plainLog (dummy : Entry) (es : List Entry) : PlainLog Entry ℕ :=
  ⟨dummy.index, dummy.term, es⟩

/-- From the dummy on, stamps are read off the stored list. -/
theorem stampAt_plainLog {d : Entry} {es : List Entry} {i : ℕ} (h : d.index ≤ i) :
    (plainLog d es).stampAt i = (d :: es)[i - d.index]?.map Entry.term := by
  rw [PlainLog.stampAt_eq_getElem? (show (plainLog d es).base ≤ i from h),
    ← List.getElem?_map]
  rfl

/-- The log a core keeps: behind its dummy entry, the other entries. -/
def plain (core : MemStorageCore) : PlainLog Entry ℕ :=
  plainLog (core.entries.headD {}) core.entries.tail

/-- A dummy entry, and behind it entries of consecutive indices. -/
structure WellFormed (core : MemStorageCore) : Prop where
  nonempty : core.entries ≠ []
  consecutive : ∀ k e, core.entries[k]? = some e → e.index = core.plain.base + k

variable {core : MemStorageCore}

theorem dummy_index (h : core.entries ≠ []) :
    ∃ d es, core.entries = d :: es ∧ core.dummy = .ok d ∧ core.plain = ⟨d.index, d.term, es⟩ := by
  obtain ⟨d, es, hd⟩ := List.exists_cons_of_ne_nil h
  refine ⟨d, es, hd, ?_, ?_⟩
  · rw [dummy, hd]
  · rw [plain, hd]
    rfl

theorem innerLastIndex_eq (h : core.entries ≠ []) :
    core.innerLastIndex = .ok core.plain.lastIndex := by
  obtain ⟨d, es, hd, hdummy, hplain⟩ := dummy_index h
  rw [innerLastIndex, hdummy, ok_bind, hplain, hd]
  simp [PlainLog.lastIndex]

/-- A batch reaches the store only if it begins, cut off at the dummy, right behind
the last index; a batch that overlaps the stored entries is dropped. -/
theorem append_eq (h : core.entries ≠ []) {a : ℕ} {es : List Entry}
    (hes : ∀ k e, es[k]? = some e → e.index = a + k) (ha : a ≤ core.plain.lastIndex + 1) :
    core.append es = .ok (.ok (),
      if core.plain.base + 1 < a + es.length ∧
          max a (core.plain.base + 1) = core.plain.lastIndex + 1
        then { core with entries := core.entries ++ es.drop (core.plain.base + 1 - a) }
        else core) := by
  obtain ⟨d, rest, hd, hdummy, hplain⟩ := dummy_index h
  have hlen : core.entries.length = rest.length + 1 := by rw [hd]; rfl
  have hbase : core.plain.base = d.index := by rw [hplain]
  have hlast : core.plain.lastIndex = d.index + rest.length := by rw [hplain]; rfl
  cases es with
  | nil =>
      rw [List.drop_nil, List.append_nil, ite_self]
      rfl
  | cons e es =>
      have hidx : e.index = a := hes 0 e rfl
      simp only [append, hdummy, ok_bind, hidx, List.length_cons, hbase]
      by_cases hbelow : a + (es.length + 1) - 1 < d.index + 1
      · rw [if_pos hbelow, if_neg (by omega)]
        rfl
      · -- what lies behind the dummy begins at `max a (d.index + 1)`
        have hte : (if d.index + 1 > a then (e :: es).drop (d.index + 1 - a)
            else e :: es) = (e :: es).drop (d.index + 1 - a) := by
          split
          · rfl
          · rw [show d.index + 1 - a = 0 by omega, List.drop_zero]
        have hlt : d.index + 1 - a < (e :: es).length := by
          rw [List.length_cons]
          omega
        have hfirst := hes (d.index + 1 - a) _ (List.getElem?_eq_getElem hlt)
        rw [if_neg hbelow, hte, List.drop_eq_getElem_cons hlt]
        dsimp only
        rw [hfirst, wrappingSub_of_le (by omega), Nat.add_sub_cancel, hlen]
        by_cases hover : rest.length + 1 > a + (d.index + 1 - a) - d.index
        · rw [if_pos hover, if_neg (by omega)]
          rfl
        · rw [if_neg hover, if_pos (by omega), if_pos (by omega)]
          rfl

theorem length_entries (h : core.entries ≠ []) :
    core.entries.length + core.plain.base = core.plain.lastIndex + 1 := by
  obtain ⟨d, rest, hd, _, hplain⟩ := dummy_index h
  rw [hplain, hd, List.length_cons]
  simp only [PlainLog.lastIndex]
  omega

theorem stampAt_plain (h : core.entries ≠ []) {i : ℕ} (hi : core.plain.base ≤ i) :
    core.plain.stampAt i = core.entries[i - core.plain.base]?.map Entry.term := by
  obtain ⟨d, rest, hd, _, hplain⟩ := dummy_index h
  have hbase : core.plain.base = d.index := by rw [hplain]
  have hlog : core.plain = plainLog d rest := hplain
  rw [hlog, stampAt_plainLog (by omega), hd]
  rfl

/-- Cutting a well-formed core off at `c` makes the entry at `c` its dummy. -/
theorem WellFormed.drop (h : core.WellFormed) {c : ℕ} (hb : core.plain.base ≤ c)
    (hl : c ≤ core.plain.lastIndex) :
    WellFormed { core with entries := core.entries.drop (c - core.plain.base) } ∧
      (plain { core with entries := core.entries.drop (c - core.plain.base) }).base = c := by
  have hlen := length_entries h.nonempty
  have hlt : c - core.plain.base < core.entries.length := by omega
  have hhead := h.consecutive _ _ (List.getElem?_eq_getElem hlt)
  have hbase : (plain { core with entries := core.entries.drop (c - core.plain.base) }).base =
      c := by
    rw [plain, List.drop_eq_getElem_cons hlt]
    show (core.entries[c - core.plain.base]).index = c
    omega
  refine ⟨⟨?_, ?_⟩, hbase⟩
  · rw [List.drop_eq_getElem_cons hlt]
    exact List.cons_ne_nil _ _
  · intro k e he
    rw [hbase]
    rw [List.getElem?_drop] at he
    have := h.consecutive _ e he
    omega

/-- The cut-off core is what is left of its log. -/
theorem WellFormed.remains_drop (h : core.WellFormed) {c : ℕ} (hb : core.plain.base ≤ c)
    (hl : c ≤ core.plain.lastIndex) :
    PlainLog.Remains (plain { core with entries := core.entries.drop (c - core.plain.base) })
      core.plain := by
  have hbase := (h.drop hb hl).2
  have hlen := length_entries h.nonempty
  have hlt : c - core.plain.base < core.entries.length := by omega
  refine ⟨hbase.symm ▸ hb, ?_, ?_⟩
  · rw [hbase, stampAt_plain h.nonempty hb, List.getElem?_eq_getElem hlt]
    show some (core.entries[c - core.plain.base]).term =
      some ((core.entries.drop (c - core.plain.base)).headD {}).term
    rw [List.drop_eq_getElem_cons hlt]
    rfl
  · rw [hbase]
    show (core.entries.drop (c - core.plain.base)).tail =
      core.entries.tail.drop (c - core.plain.base)
    rw [List.tail_drop, List.drop_tail]

/-- Entries put behind the last one continue the log of the core. -/
theorem plain_append (h : core.entries ≠ []) (es : List Entry) :
    plain { core with entries := core.entries ++ es } =
      core.plain.overwrite core.plain.lastIndex es := by
  obtain ⟨d, rest, hd, _, hplain⟩ := dummy_index h
  rw [PlainLog.overwrite_lastIndex, hplain, plain, hd]
  rfl

theorem wellFormed_default : WellFormed {} := ⟨by decide, index_of_range' (by decide)⟩

/-- Consecutive entries behind the last one keep a core well formed. -/
theorem WellFormed.append (h : core.WellFormed) {es : List Entry}
    (hes : ∀ k e, es[k]? = some e → e.index = core.plain.lastIndex + 1 + k) :
    WellFormed { core with entries := core.entries ++ es } := by
  obtain ⟨d, rest, hd, _, hplain⟩ := dummy_index h.nonempty
  have hbase : core.plain.base = d.index := by rw [hplain]
  have hlast : core.plain.lastIndex = d.index + rest.length := by rw [hplain]; rfl
  have hlen : core.entries.length = rest.length + 1 := by rw [hd]; rfl
  refine ⟨by simp [hd], ?_⟩
  intro k e he
  rw [plain_append h.nonempty, PlainLog.overwrite_base]
  by_cases hk : k < core.entries.length
  · rw [List.getElem?_append_left hk] at he
    exact h.consecutive k e he
  · rw [List.getElem?_append_right (by omega)] at he
    have := hes _ e he
    omega

end MemStorageCore

/-- The in-memory store holds its entries behind the dummy. -/
theorem MemStorage.holds [ProtoMessage Entry] {store : MemStorage} {d : Entry}
    {es : List Entry} (h : store.core.entries = d :: es) :
    Storage.Holds store (MemStorageCore.plainLog d es) where
  firstIndex := by
    show MemStorage.firstIndex store = _
    simp [MemStorage.firstIndex, MemStorageCore.dummy, h, MemStorageCore.plainLog]
  lastIndex := by
    show MemStorage.lastIndex store = _
    simp [MemStorage.lastIndex, MemStorageCore.innerLastIndex, MemStorageCore.dummy, h,
      MemStorageCore.plainLog, PlainLog.lastIndex]
  term := by
    intro i t ht
    show MemStorage.term store i = _
    obtain ⟨hb, hl⟩ := PlainLog.bounds_of_stampAt ht
    simp only [MemStorageCore.plainLog, PlainLog.lastIndex] at hb hl
    rw [MemStorageCore.stampAt_plainLog hb, ← h] at ht
    obtain ⟨e, he, rfl⟩ := Option.map_eq_some_iff.mp ht
    have hlen : store.core.entries.length = es.length + 1 := by rw [h]; rfl
    have hd : store.core.dummy = .ok d := by simp [MemStorageCore.dummy, h]
    simp only [MemStorage.term, hd, ok_bind, if_neg (show ¬ i < d.index by omega),
      if_neg (show ¬ i - d.index ≥ store.core.entries.length by omega), he, pure_eq_ok]

theorem MemStorage.holds_plain [ProtoMessage Entry] {store : MemStorage}
    (h : store.core.entries ≠ []) : Storage.Holds store store.core.plain := by
  obtain ⟨d, es, hd⟩ := List.exists_cons_of_ne_nil h
  rw [MemStorageCore.plain, hd]
  exact MemStorage.holds hd

/-- Inside the store, a read is the limited segment. -/
theorem MemStorage.entries_eq [ProtoMessage Entry] {store : MemStorage} {low high : ℕ}
    (h : store.core.entries ≠ []) (hlow : store.core.plain.base < low) (hlh : low < high)
    (hhigh : high ≤ store.core.plain.lastIndex + 1) (max : ℕ) :
    store.entries low high max =
      .ok (.ok (limitSize (store.core.plain.segment (low - 1) (high - low)) max)) := by
  obtain ⟨d, es, hd⟩ := List.exists_cons_of_ne_nil h
  have hplain : store.core.plain = ⟨d.index, d.term, es⟩ := by
    rw [MemStorageCore.plain, hd]
    rfl
  rw [hplain] at hlow hhigh ⊢
  simp only [PlainLog.lastIndex] at hlow hhigh
  simp only [MemStorage.entries, MemStorageCore.innerLastIndex, MemStorageCore.dummy, hd,
    ok_bind, pure_eq_ok, List.length_cons]
  rw [if_neg (by omega), if_neg (by omega), if_neg (by omega), sliceVec,
    if_pos (by rw [List.length_cons]; omega), ok_bind, PlainLog.segment,
    show low - d.index = low - 1 - d.index + 1 by omega, List.drop_succ_cons,
    show high - d.index - (low - 1 - d.index + 1) = high - low by omega]

/-- Below the dummy the store knows no term. -/
theorem MemStorage.term_compacted {store : MemStorage} {i : ℕ}
    (h : store.core.entries ≠ []) (hi : i < store.core.plain.base) :
    store.term i = .ok (.error (.Store .Compacted)) := by
  obtain ⟨d, es, hd, hdummy, hplain⟩ := MemStorageCore.dummy_index h
  have hbase : store.core.plain.base = d.index := by rw [hplain]
  simp only [MemStorage.term, hdummy, ok_bind]
  rw [if_pos (by omega)]
  rfl

/-- Behind its last index the store knows no term. -/
theorem MemStorage.term_unavailable {store : MemStorage} {i : ℕ}
    (h : store.core.entries ≠ []) (hi : store.core.plain.lastIndex < i) :
    store.term i = .ok (.error (.Store .Unavailable)) := by
  obtain ⟨d, es, hd, hdummy, hplain⟩ := MemStorageCore.dummy_index h
  have hlast : store.core.plain.lastIndex = d.index + es.length := by rw [hplain]; rfl
  have hlen : store.core.entries.length = es.length + 1 := by rw [hd]; rfl
  simp only [MemStorage.term, hdummy, ok_bind]
  rw [if_neg (by omega), if_pos (by omega)]
  rfl

theorem MemStorage.holds_empty : Storage.Holds ({} : MemStorage) ⟨0, 0, []⟩ :=
  MemStorage.holds (d := {}) rfl

end RsRaft
