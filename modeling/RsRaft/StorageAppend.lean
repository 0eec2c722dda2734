import RsRaft.Storage

/-!
# Appending to the in-memory store

A batch should replace the stored entries from its first index on; what lies at
or below the dummy is cut off. When the batch overlaps the stored entries,
`append` builds the new list and drops it, so only a batch that continues the
store arrives, or one that changes nothing.

No index is `u64::MAX`: behind a dummy of that index the source's `first` would wrap
around to `0`.

§1 what appending should do · §2 consecutive lists · §3 when it does.
-/

namespace RsRaft

open PlainLog

namespace MemStorageCore

variable {core core' : MemStorageCore} {f : ℕ} {es : List Entry}

/-! ## §1  What appending should do -/

/-- The dummy, the old entries in front of the batch, and the batch behind the dummy. -/
def overwritten (core : MemStorageCore) (f : ℕ) (es : List Entry) : List Entry :=
  core.entries.headD {} :: (core.entries.tail.filter (fun e => e.index < f) ++
    es.filter (fun e => core.plain.base < e.index))

/-- The batch `es`, of indices from `f` on, has replaced what was stored from `f` on. -/
structure Overwrites [ProtoMessage Entry] (core core' : MemStorageCore) (f : ℕ)
    (es : List Entry) : Prop where
  below : f + es.length ≤ core.plain.base + 1 → core' = core
  stored : core.plain.base + 1 < f + es.length → core'.entries = core.overwritten f es
  lastIndex : core.plain.base + 1 < f + es.length →
    MemStorage.lastIndex { core := core' } = .ok (.ok (f + es.length - 1))
  term : core.plain.base + 1 < f + es.length → ∀ e ∈ es, core.plain.base < e.index →
    MemStorage.term { core := core' } e.index = .ok (.ok e.term)
  entries : core.plain.base + 1 < f + es.length → ∀ e ∈ es, core.plain.base < e.index →
    MemStorage.entries { core := core' } e.index (e.index + 1) NO_LIMIT = .ok (.ok [e])
  gone : core.plain.base + 1 < f + es.length → ∀ e ∈ core'.entries.tail, f ≤ e.index → e ∈ es

/-! ## §2  Consecutive lists -/

theorem consecutive_tail {e : Entry} {a : ℕ}
    (h : ∀ k e', (e :: es)[k]? = some e' → e'.index = a + k) :
    ∀ k e', es[k]? = some e' → e'.index = a + 1 + k := by
  intro k e' he'
  have hidx := h (k + 1) e' he'
  rw [hidx, Nat.add_assoc, Nat.add_comm 1]

/-- Below an index lies a beginning. -/
theorem filter_index_lt {a : ℕ} (h : ∀ k e, es[k]? = some e → e.index = a + k) (f : ℕ) :
    es.filter (fun e => e.index < f) = es.take (f - a) := by
  induction es generalizing a with
  | nil => simp
  | cons e es ih =>
      have hidx : e.index = a := h 0 e rfl
      rw [List.filter_cons, ih (consecutive_tail h), hidx]
      by_cases hlt : a < f
      · rw [if_pos (decide_eq_true hlt), show f - a = f - (a + 1) + 1 by omega,
          List.take_succ_cons]
      · rw [if_neg (by simpa using hlt), show f - a = 0 by omega,
          show f - (a + 1) = 0 by omega, List.take_zero, List.take_zero]

/-- From an index on lies the rest. -/
theorem filter_le_index {a : ℕ} (h : ∀ k e, es[k]? = some e → e.index = a + k) (f : ℕ) :
    es.filter (fun e => f ≤ e.index) = es.drop (f - a) := by
  induction es generalizing a with
  | nil => simp
  | cons e es ih =>
      have hidx : e.index = a := h 0 e rfl
      rw [List.filter_cons, ih (consecutive_tail h), hidx]
      by_cases hle : f ≤ a
      · rw [if_pos (decide_eq_true hle), show f - a = 0 by omega,
          show f - (a + 1) = 0 by omega, List.drop_zero, List.drop_zero]
      · rw [if_neg (by simpa using hle), show f - a = f - (a + 1) + 1 by omega,
          List.drop_succ_cons]

/-- Behind the dummy the entries are consecutive. -/
theorem WellFormed.tail (h : core.WellFormed) :
    ∀ k e, core.entries.tail[k]? = some e → e.index = core.plain.base + 1 + k := by
  obtain ⟨d, rest, hd, _, _⟩ := dummy_index h.nonempty
  have hcons := h.consecutive
  rw [hd] at hcons ⊢
  exact consecutive_tail hcons

theorem WellFormed.filter_tail (h : core.WellFormed) (f : ℕ) :
    core.entries.tail.filter (fun e => e.index < f) ++
        core.entries.tail.filter (fun e => f ≤ e.index) = core.entries.tail := by
  rw [filter_index_lt h.tail, filter_le_index h.tail, List.take_append_drop]

/-- Nothing has to be replaced where the store already ends with the batch. -/
theorem WellFormed.eq_overwritten_iff (h : core.WellFormed) (f : ℕ) (es : List Entry) :
    core.entries = core.overwritten f es ↔
      core.entries.tail.filter (fun e => f ≤ e.index) =
        es.filter (fun e => core.plain.base < e.index) := by
  have hcons : core.entries = core.entries.headD {} :: core.entries.tail := by
    obtain ⟨d, rest, hd, _, _⟩ := dummy_index h.nonempty
    rw [hd]
    rfl
  have hsplit := h.filter_tail f
  rw [overwritten]
  constructor
  · intro heq
    have htail := congrArg List.tail heq
    rw [List.tail_cons] at htail
    exact List.append_cancel_left (hsplit.trans htail)
  · intro hsame
    rw [← hsame, hsplit]
    exact hcons

theorem length_tail (h : core.entries ≠ []) :
    core.plain.base + core.entries.tail.length = core.plain.lastIndex := by
  obtain ⟨d, rest, hd, _, hplain⟩ := dummy_index h
  rw [hplain, hd]
  rfl

/-! ## §3  When it does -/

section

variable (h : core.WellFormed) (hes : ∀ k e, es[k]? = some e → e.index = f + k)

include h hes

theorem overwritten_eq : core.overwritten f es =
    core.entries.headD {} :: (core.entries.tail.take (f - (core.plain.base + 1)) ++
      es.drop (core.plain.base + 1 - f)) := by
  have hbatch : es.filter (fun e => core.plain.base < e.index) =
      es.drop (core.plain.base + 1 - f) := filter_le_index hes (core.plain.base + 1)
  rw [overwritten, filter_index_lt h.tail, hbatch]

/-- A batch right behind the last index is only added. -/
theorem overwritten_of_continues (hcont : max f (core.plain.base + 1) = core.plain.lastIndex + 1) :
    core.entries ++ es.drop (core.plain.base + 1 - f) = core.overwritten f es := by
  have hlen := length_tail h.nonempty
  obtain ⟨d, rest, hd, _, _⟩ := dummy_index h.nonempty
  rw [overwritten_eq h hes, List.take_of_length_le (by omega), hd]
  rfl

/-- The log of a core with the overwritten entries: the old one up to the batch, then the
batch behind the dummy. -/
theorem plain_overwritten (hstored : core'.entries = core.overwritten f es) :
    core'.plain = core.plain.overwrite (max f (core.plain.base + 1) - 1)
      (es.drop (core.plain.base + 1 - f)) := by
  rw [overwritten_eq h hes] at hstored
  rw [plain, hstored, overwrite,
    show max f (core.plain.base + 1) - 1 - core.plain.base = f - (core.plain.base + 1) by omega]
  rfl

variable (hf : f ≤ core.plain.lastIndex + 1)

include hf

/-- Behind the dummy, the batch is found at its indices. -/
theorem entryAt_overwritten (hstored : core'.entries = core.overwritten f es) {e : Entry}
    (he : e ∈ es) (hb : core.plain.base < e.index) : core'.plain.entryAt e.index = some e := by
  obtain ⟨k, hk⟩ := List.getElem?_of_mem he
  have hidx := hes k e hk
  have hbase := base_le_lastIndex (L := core.plain)
  have hat := entryAt_overwrite_gt (L := core.plain) (i := max f (core.plain.base + 1) - 1)
    (es.drop (core.plain.base + 1 - f)) (by omega) (by omega)
    (k - (core.plain.base + 1 - f))
  rw [List.getElem?_drop, show core.plain.base + 1 - f + (k - (core.plain.base + 1 - f)) = k by
    omega, hk] at hat
  rw [plain_overwritten h hes hstored, ← hat]
  congr 1
  omega

variable (hlast : core.plain.base + 1 < f + es.length)

include hlast

theorem lastIndex_overwritten (hstored : core'.entries = core.overwritten f es) :
    core'.plain.lastIndex = f + es.length - 1 := by
  have hbase := base_le_lastIndex (L := core.plain)
  rw [plain_overwritten h hes hstored, lastIndex_overwrite (by omega) (by omega),
    List.length_drop]
  omega

/-- Once the entries are what they should be, so is every read. -/
theorem overwrites_of_stored [ProtoMessage Entry]
    (hstored : core'.entries = core.overwritten f es) : Overwrites core core' f es := by
  have hne : core'.entries ≠ [] := by
    rw [hstored]
    exact List.cons_ne_nil _ _
  have hholds : Storage.Holds (⟨core'⟩ : MemStorage) core'.plain := MemStorage.holds_plain hne
  have hend := lastIndex_overwritten h hes hf hlast hstored
  have hread := fun e he hb => entryAt_overwritten h hes hf hstored (e := e) he hb
  refine ⟨fun hno => absurd hlast (Nat.not_lt_of_le hno), fun _ => hstored, fun _ => ?_,
    fun _ e he hb => ?_, fun _ e he hb => ?_, fun _ e he hle => ?_⟩
  · rw [← hend]
    exact hholds.lastIndex
  · exact hholds.term e.index e.term (stampAt_of_entryAt (hread e he hb))
  · have hin := bounds_of_entryAt (hread e he hb)
    rw [MemStorage.entries_eq hne hin.1 (Nat.lt_add_one _)
      (Nat.succ_le_succ hin.2), limitSize_noLimit, Nat.add_sub_cancel_left,
      segment_one (hread e he hb)]
  · rw [hstored, overwritten, List.tail_cons] at he
    rcases List.mem_append.mp he with hold | hnew
    · have hlt := (List.mem_filter.mp hold).2
      exact absurd hle (Nat.not_le_of_lt (of_decide_eq_true hlt))
    · exact (List.mem_filter.mp hnew).1

end

/-- Appending overwrites exactly if the batch does not reach behind the dummy, or goes on
right behind the last index, or is what the store holds from its first index on; as
everywhere, no index is `u64::MAX`. -/
theorem append_overwrites_iff [ProtoMessage Entry] (h : core.WellFormed)
    (hes : ∀ k e, es[k]? = some e → e.index = f + k) (hf : f ≤ core.plain.lastIndex + 1) :
    (∃ core', core.append es = .ok (.ok (), core') ∧ Overwrites core core' f es) ↔
      f + es.length ≤ core.plain.base + 1 ∨
        max f (core.plain.base + 1) = core.plain.lastIndex + 1 ∨
        core.entries.tail.filter (fun e => f ≤ e.index) =
          es.filter (fun e => core.plain.base < e.index) := by
  have hbase := base_le_lastIndex (L := core.plain)
  have hrun := append_eq h.nonempty hes hf
  have hinv : (∃ core', core.append es = .ok (.ok (), core') ∧ Overwrites core core' f es) ↔
      Overwrites core (if core.plain.base + 1 < f + es.length ∧
          max f (core.plain.base + 1) = core.plain.lastIndex + 1
        then { core with entries := core.entries ++ es.drop (core.plain.base + 1 - f) }
        else core) f es := by
    rw [hrun]
    constructor
    · rintro ⟨core', heq, hover⟩
      cases heq
      exact hover
    · exact fun hover => ⟨_, rfl, hover⟩
  rw [hinv]
  rcases Nat.lt_or_ge (core.plain.base + 1) (f + es.length) with hlast | hlow
  · by_cases hcont : max f (core.plain.base + 1) = core.plain.lastIndex + 1
    · rw [if_pos ⟨hlast, hcont⟩]
      refine iff_of_true ?_ (Or.inr (Or.inl hcont))
      exact overwrites_of_stored h hes hf hlast (overwritten_of_continues h hes hcont)
    · rw [if_neg fun hboth => hcont hboth.2]
      have hstored := h.eq_overwritten_iff f es
      constructor
      · intro hover
        exact Or.inr (Or.inr (hstored.mp (hover.stored hlast)))
      · rintro (hlow | hcont' | hsame)
        · omega
        · exact absurd hcont' hcont
        · exact overwrites_of_stored h hes hf hlast (hstored.mpr hsame)
  · rw [if_neg fun hboth => Nat.not_le_of_lt hboth.1 hlow]
    refine iff_of_true ?_ (Or.inl hlow)
    have hno : ¬ core.plain.base + 1 < f + es.length := Nat.not_lt_of_le hlow
    exact ⟨fun _ => rfl, fun hlt => absurd hlt hno, fun hlt => absurd hlt hno,
      fun hlt => absurd hlt hno, fun hlt => absurd hlt hno, fun hlt => absurd hlt hno⟩

/-! Two entries of term `1` are stored, and the second is to be replaced. -/

def twoStored : MemStorageCore :=
  { entries := [{}, { term := 1, index := 1 }, { term := 1, index := 2 }] }

def replacement : List Entry := [{ term := 2, index := 2 }]

theorem wellFormed_twoStored : twoStored.WellFormed := ⟨by decide, index_of_range' (by decide)⟩

theorem append_overwrites_iff_replacement :
    (∃ core', twoStored.append replacement = .ok (.ok (), core') ∧
        Overwrites twoStored core' 2 replacement) ↔
      2 + replacement.length ≤ twoStored.plain.base + 1 ∨
        max 2 (twoStored.plain.base + 1) = twoStored.plain.lastIndex + 1 ∨
        twoStored.entries.tail.filter (fun e => 2 ≤ e.index) =
          replacement.filter (fun e => twoStored.plain.base < e.index) :=
  append_overwrites_iff wellFormed_twoStored (index_of_range' (by decide)) (by decide)

theorem not_overwrites_replacement :
    twoStored.WellFormed ∧ (∀ k e, replacement[k]? = some e → e.index = 2 + k) ∧
      2 ≤ twoStored.plain.lastIndex + 1 ∧
      ¬ ∃ core', twoStored.append replacement = .ok (.ok (), core') ∧
        Overwrites twoStored core' 2 replacement := by
  refine ⟨wellFormed_twoStored, index_of_range' (by decide), by decide, ?_⟩
  rintro ⟨core', hrun, hover⟩
  cases hrun
  have hstored := hover.stored (by decide)
  revert hstored
  decide

end MemStorageCore

end RsRaft
