import Mathlib.Data.List.Basic
import Mathlib.Order.Basic
import Mathlib.Tactic.Common

/-!
# The plain log

A replicated log with its compacted past cut off: the entries behind a base
position of which only the stamp (the term of its writer) is still known. This
is the log a reader should have in mind; how a program splits it over storage
tiers is the business of the layer below.

§1 entries · §2 overwriting a suffix · §3 stamps, and a log that continues
another · §4 splicing a batch in at the first mismatch · §5 agreement and log
matching between two logs · §6 what is left of a log that is compacted.
-/

/-- Entries carry the stamp of their writer. -/
class Stamped (α : Type) (τ : outParam Type) where
  stamp : α → τ

/-- The log behind position `base`: entry `k` of `tail` sits at index
`base + 1 + k`. -/
structure PlainLog (α τ : Type) where
  base : ℕ
  baseStamp : τ
  tail : List α
deriving DecidableEq

namespace PlainLog

open Stamped (stamp)

variable {α τ : Type} {L M : PlainLog α τ} {i j n : ℕ} {es : List α}

/-! ## §1  Entries -/

def lastIndex (L : PlainLog α τ) : ℕ := L.base + L.tail.length

/-- The entry at index `i`; the base is not an entry. -/
def entryAt (L : PlainLog α τ) (i : ℕ) : Option α :=
  if L.base < i then L.tail[i - (L.base + 1)]? else none

/-- The entries at the indices `i + 1, …, i + k`. -/
def segment (L : PlainLog α τ) (i k : ℕ) : List α := (L.tail.drop (i - L.base)).take k

theorem base_le_lastIndex : L.base ≤ L.lastIndex := Nat.le_add_right _ _

theorem entryAt_isSome_iff : (L.entryAt i).isSome ↔ L.base < i ∧ i ≤ L.lastIndex := by
  unfold entryAt lastIndex
  split
  · rename_i h
    rw [isSome_getElem?]
    omega
  · simp; omega

theorem bounds_of_entryAt {e : α} (h : L.entryAt i = some e) :
    L.base < i ∧ i ≤ L.lastIndex :=
  entryAt_isSome_iff.mp (by rw [h]; rfl)

theorem exists_entryAt (h₁ : L.base < i) (h₂ : i ≤ L.lastIndex) :
    ∃ e, L.entryAt i = some e :=
  Option.isSome_iff_exists.mp (entryAt_isSome_iff.mpr ⟨h₁, h₂⟩)

theorem mem_tail_iff {e : α} : e ∈ L.tail ↔ ∃ i, L.entryAt i = some e := by
  constructor
  · intro h
    obtain ⟨k, hk⟩ := List.mem_iff_getElem?.mp h
    refine ⟨L.base + 1 + k, ?_⟩
    rw [entryAt, if_pos (by omega), show L.base + 1 + k - (L.base + 1) = k by omega, hk]
  · rintro ⟨i, h⟩
    unfold entryAt at h
    split at h
    · exact List.mem_iff_getElem?.mpr ⟨_, h⟩
    · cases h

theorem segment_getElem? (hb : L.base ≤ i) {k m : ℕ} (hm : m < k) :
    (L.segment i k)[m]? = L.entryAt (i + 1 + m) := by
  rw [segment, List.getElem?_take_of_lt hm, List.getElem?_drop, entryAt, if_pos (by omega)]
  congr 1
  omega

theorem length_segment (hb : L.base ≤ i) {k : ℕ} (h : i + k ≤ L.lastIndex) :
    (L.segment i k).length = k := by
  unfold lastIndex at h
  rw [segment, List.length_take, List.length_drop]
  omega

theorem segment_zero (L : PlainLog α τ) (i : ℕ) : L.segment i 0 = [] := List.take_zero

theorem take_segment (L : PlainLog α τ) (i n k : ℕ) :
    (L.segment i n).take k = L.segment i (min k n) := List.take_take

theorem segment_one {e : α} (h : L.entryAt i = some e) : L.segment (i - 1) 1 = [e] := by
  have hb := (bounds_of_entryAt h).1
  rw [entryAt, if_pos hb] at h
  obtain ⟨hlt, rfl⟩ := List.getElem?_eq_some_iff.mp h
  rw [segment, show i - 1 - L.base = i - (L.base + 1) by omega,
    List.drop_eq_getElem_cons hlt, List.take_succ_cons, List.take_zero]

theorem segment_add (hb : L.base ≤ i) (m k : ℕ) :
    L.segment i (m + k) = L.segment i m ++ L.segment (i + m) k := by
  simp only [segment]
  rw [List.take_add, List.drop_drop, show i - L.base + m = i + m - L.base by omega]

/-- Two logs with the same entries in a range have the same segment there. -/
theorem segment_congr (hL : L.base ≤ i) (hM : M.base ≤ i) {k : ℕ} (hkL : i + k ≤ L.lastIndex)
    (hkM : i + k ≤ M.lastIndex) (h : ∀ j, j ≤ i + k → L.entryAt j = M.entryAt j) :
    L.segment i k = M.segment i k := by
  apply List.ext_getElem?
  intro m
  by_cases hm : m < k
  · rw [segment_getElem? hL hm, segment_getElem? hM hm, h _ (by omega)]
  · rw [List.getElem?_eq_none (by rw [length_segment hL hkL]; omega),
      List.getElem?_eq_none (by rw [length_segment hM hkM]; omega)]

/-- The whole log is one segment. -/
theorem segment_base : L.segment L.base (L.lastIndex - L.base) = L.tail := by
  rw [segment, Nat.sub_self, List.drop_zero]
  exact List.take_of_length_le (by unfold lastIndex; omega)

/-- A batch is the part of `M` behind index `i`. -/
def IsSegment (M : PlainLog α τ) (i : ℕ) (es : List α) : Prop :=
  ∀ k < es.length, M.entryAt (i + 1 + k) = es[k]?

theorem isSegment_segment (hb : M.base ≤ i) {k : ℕ} (h : i + k ≤ M.lastIndex) :
    IsSegment M i (M.segment i k) := by
  intro m hm
  rw [length_segment hb h] at hm
  rw [segment_getElem? hb hm]

/-! ## §2  Overwriting a suffix -/

/-- Keep everything up to index `i`, then continue with `es`. -/
def overwrite (L : PlainLog α τ) (i : ℕ) (es : List α) : PlainLog α τ :=
  { L with tail := L.tail.take (i - L.base) ++ es }

@[simp] theorem overwrite_base (L : PlainLog α τ) (i : ℕ) (es : List α) :
    (L.overwrite i es).base = L.base := rfl

@[simp] theorem overwrite_baseStamp (L : PlainLog α τ) (i : ℕ) (es : List α) :
    (L.overwrite i es).baseStamp = L.baseStamp := rfl

theorem lastIndex_overwrite (hb : L.base ≤ i) (hl : i ≤ L.lastIndex) :
    (L.overwrite i es).lastIndex = i + es.length := by
  unfold lastIndex at hl ⊢
  simp only [overwrite, List.length_append, List.length_take]
  omega

/-- At the end of the log nothing is cut. -/
theorem overwrite_lastIndex (L : PlainLog α τ) (es : List α) :
    L.overwrite L.lastIndex es = { L with tail := L.tail ++ es } := by
  simp [overwrite, lastIndex]

/-- Up to the cut nothing changes. -/
theorem entryAt_overwrite_le (hl : i ≤ L.lastIndex) (hj : j ≤ i) :
    (L.overwrite i es).entryAt j = L.entryAt j := by
  unfold lastIndex at hl
  unfold entryAt
  rw [overwrite_base]
  by_cases h : L.base < j
  · rw [if_pos h, if_pos h, overwrite,
      List.getElem?_append_left (by rw [List.length_take]; omega),
      List.getElem?_take_of_lt (by omega)]
  · rw [if_neg h, if_neg h]

/-- Behind the cut sits the batch. -/
theorem entryAt_overwrite_gt (es : List α) (hb : L.base ≤ i) (hl : i ≤ L.lastIndex) (k : ℕ) :
    (L.overwrite i es).entryAt (i + 1 + k) = es[k]? := by
  unfold lastIndex at hl
  have hlen : (L.tail.take (i - L.base)).length = i - L.base := by
    rw [List.length_take]; omega
  rw [entryAt, overwrite_base, if_pos (by omega), overwrite,
    List.getElem?_append_right (by omega), hlen]
  congr 1
  omega

theorem segment_overwrite_le (hl : i ≤ L.lastIndex) (hb : L.base ≤ j) {k : ℕ}
    (hj : j + k ≤ i) : (L.overwrite i es).segment j k = L.segment j k := by
  unfold lastIndex at hl
  simp only [segment, overwrite]
  rw [List.drop_append_of_le_length (by rw [List.length_take]; omega),
    List.take_append_of_le_length (by rw [List.length_drop, List.length_take]; omega),
    List.drop_take, List.take_take, Nat.min_eq_left (by omega)]

theorem segment_overwrite_ge (hb : L.base ≤ i) (hl : i ≤ L.lastIndex) (m k : ℕ) :
    (L.overwrite i es).segment (i + m) k = (es.drop m).take k := by
  unfold lastIndex at hl
  have hlen : (L.tail.take (i - L.base)).length = i - L.base := by
    rw [List.length_take]; omega
  simp only [segment, overwrite]
  rw [List.drop_append, hlen, List.drop_eq_nil_of_le (by omega), List.nil_append,
    show i + m - L.base - (i - L.base) = m by omega]

theorem drop_overwrite (es : List α) (hb : L.base ≤ i) (hl : i ≤ L.lastIndex) (hij : i ≤ j) :
    (L.overwrite i es).tail.drop (j - L.base) = es.drop (j - i) := by
  unfold lastIndex at hl
  have hlen : (L.tail.take (i - L.base)).length = i - L.base := by
    rw [List.length_take]; omega
  simp only [overwrite]
  rw [List.drop_append, hlen, List.drop_eq_nil_of_le (by omega), List.nil_append,
    show j - L.base - (i - L.base) = j - i by omega]

/-- A log that agrees up to `i` and is continued with the other's rest is the other. -/
theorem overwrite_of_agrees (hbase : M.base = L.base) (hstamp : M.baseStamp = L.baseStamp)
    (hb : L.base ≤ i) (hM : i ≤ M.lastIndex) (hL : i ≤ L.lastIndex)
    (h : ∀ j, j ≤ i → M.entryAt j = L.entryAt j) :
    M.overwrite i (L.tail.drop (i - L.base)) = L := by
  have hseg : M.segment L.base (i - L.base) = L.segment L.base (i - L.base) :=
    segment_congr (by omega) (Nat.le_refl _) (by omega) (by omega) fun j hj => h j (by omega)
  have htake : M.tail.take (i - L.base) = L.tail.take (i - L.base) := by
    simpa [segment, hbase] using hseg
  obtain ⟨b, s, l⟩ := L
  obtain ⟨b', s', l'⟩ := M
  simp only at hbase hstamp htake
  subst hbase hstamp
  simp only [overwrite]
  rw [htake, List.take_append_drop]

/-- Cutting deeper makes an earlier overwrite pointless. -/
theorem overwrite_overwrite_le (es : List α) (hij : i ≤ j) (hj : j ≤ L.lastIndex)
    (es' : List α) : (L.overwrite j es).overwrite i es' = L.overwrite i es' := by
  unfold lastIndex at hj
  have htake : (L.tail.take (j - L.base) ++ es).take (i - L.base)
      = L.tail.take (i - L.base) := by
    rw [List.take_append_of_le_length (by rw [List.length_take]; omega), List.take_take,
      Nat.min_eq_left (by omega)]
  simp only [overwrite, htake]

/-- Cutting inside the batch keeps its beginning. -/
theorem overwrite_overwrite_ge (es : List α) (hb : L.base ≤ j) (hj : j ≤ L.lastIndex)
    (hji : j ≤ i) (es' : List α) :
    (L.overwrite j es).overwrite i es' = L.overwrite j (es.take (i - j) ++ es') := by
  unfold lastIndex at hj
  have hlen : (L.tail.take (j - L.base)).length = j - L.base := by
    rw [List.length_take]; omega
  have htake : (L.tail.take (j - L.base) ++ es).take (i - L.base)
      = L.tail.take (j - L.base) ++ es.take (i - j) := by
    rw [List.take_append, hlen, List.take_of_length_le (by omega),
      show i - L.base - (j - L.base) = i - j by omega]
  simp only [overwrite, htake, List.append_assoc]

/-! ## §3  Stamps, and a log that continues another -/

variable [Stamped α τ]

/-- The stamp at index `i`, the base included. -/
def stampAt (L : PlainLog α τ) (i : ℕ) : Option τ :=
  if i = L.base then some L.baseStamp else (L.entryAt i).map stamp

theorem stampAt_isSome_iff : (L.stampAt i).isSome ↔ L.base ≤ i ∧ i ≤ L.lastIndex := by
  unfold stampAt
  split
  · rename_i h
    simp [h, lastIndex]
  · rw [Option.isSome_map, entryAt_isSome_iff]
    omega

theorem stampAt_eq_none_iff : L.stampAt i = none ↔ ¬ (L.base ≤ i ∧ i ≤ L.lastIndex) := by
  rw [← stampAt_isSome_iff, Option.not_isSome_iff_eq_none]

theorem bounds_of_stampAt {t : τ} (h : L.stampAt i = some t) :
    L.base ≤ i ∧ i ≤ L.lastIndex :=
  stampAt_isSome_iff.mp (by rw [h]; rfl)

theorem exists_stampAt (h₁ : L.base ≤ i) (h₂ : i ≤ L.lastIndex) :
    ∃ t, L.stampAt i = some t :=
  Option.isSome_iff_exists.mp (stampAt_isSome_iff.mpr ⟨h₁, h₂⟩)

theorem stampAt_base : L.stampAt L.base = some L.baseStamp := by
  rw [stampAt, if_pos rfl]

/-- Behind the base the stamp is the entry's. -/
theorem stampAt_of_gt (h : L.base < i) : L.stampAt i = (L.entryAt i).map stamp := by
  rw [stampAt, if_neg (by omega)]

theorem stampAt_of_entryAt {e : α} (h : L.entryAt i = some e) :
    L.stampAt i = some (stamp e) := by
  rw [stampAt_of_gt (bounds_of_entryAt h).1, h, Option.map_some]

/-- The stamp at the end of the log. -/
def lastStamp (L : PlainLog α τ) : τ := (L.tail.getLast?.map stamp).getD L.baseStamp

theorem stampAt_lastIndex : L.stampAt L.lastIndex = some L.lastStamp := by
  obtain ⟨b, s, l⟩ := L
  rcases List.eq_nil_or_concat l with rfl | ⟨l, e, rfl⟩
  · simp [stampAt, lastIndex, lastStamp]
  · rw [List.concat_eq_append]
    have he : (⟨b, s, l ++ [e]⟩ : PlainLog α τ).entryAt (b + (l ++ [e]).length) = some e := by
      rw [entryAt, if_pos (by simp),
        show b + (l ++ [e]).length - (b + 1) = l.length by simp; omega,
        List.getElem?_concat_length]
    rw [lastIndex, stampAt_of_entryAt he]
    simp [lastStamp]

/-- `M` is `L` with entries added at the end. -/
structure Continues (L M : PlainLog α τ) : Prop where
  base : M.base = L.base
  baseStamp : M.baseStamp = L.baseStamp
  tail : L.tail <+: M.tail

namespace Continues

omit [Stamped α τ]

variable {N : PlainLog α τ} {k : ℕ}

theorem refl (L : PlainLog α τ) : L.Continues L := ⟨rfl, rfl, List.prefix_refl _⟩

theorem trans (h : L.Continues M) (h' : M.Continues N) : L.Continues N :=
  ⟨h'.base.trans h.base, h'.baseStamp.trans h.baseStamp, h.tail.trans h'.tail⟩

theorem overwrite_end (L : PlainLog α τ) (es : List α) :
    L.Continues (L.overwrite L.lastIndex es) := by
  rw [overwrite_lastIndex]
  exact ⟨rfl, rfl, List.prefix_append _ _⟩

theorem lastIndex_le (h : L.Continues M) : L.lastIndex ≤ M.lastIndex := by
  rw [lastIndex, lastIndex, h.base]
  exact Nat.add_le_add_left h.tail.length_le _

/-- The entries that were there stay. -/
theorem entryAt_eq (h : L.Continues M) (hl : i ≤ L.lastIndex) : M.entryAt i = L.entryAt i := by
  obtain ⟨es, hes⟩ := h.tail
  have heq : M = L.overwrite L.lastIndex es := by
    rw [overwrite_lastIndex, hes, ← h.base, ← h.baseStamp]
  rw [heq, entryAt_overwrite_le (Nat.le_refl _) hl]

theorem segment_eq (h : L.Continues M) (hb : L.base ≤ i) (hl : i + k ≤ L.lastIndex) :
    M.segment i k = L.segment i k := by
  have hle := h.lastIndex_le
  exact segment_congr (h.base ▸ hb) hb (Nat.le_trans hl hle) hl
    fun j hj => h.entryAt_eq (Nat.le_trans hj hl)

end Continues

theorem Continues.stampAt_eq (h : L.Continues M) (hl : i ≤ L.lastIndex) :
    M.stampAt i = L.stampAt i := by
  rw [stampAt, stampAt, h.base, h.baseStamp, h.entryAt_eq hl]

/-- All stamps of the log, the base's first. -/
def stamps (L : PlainLog α τ) : List τ := L.baseStamp :: L.tail.map stamp

theorem stampAt_eq_getElem? (h : L.base ≤ i) : L.stampAt i = L.stamps[i - L.base]? := by
  rcases Nat.eq_or_lt_of_le h with rfl | hgt
  · simp [stampAt, stamps]
  · rw [stampAt_of_gt hgt, entryAt, if_pos hgt, stamps,
      show i - L.base = i - (L.base + 1) + 1 by omega, List.getElem?_cons_succ,
      List.getElem?_map]

theorem mem_stamps_of_stampAt {t : τ} (h : L.stampAt i = some t) : t ∈ L.stamps := by
  rw [stampAt_eq_getElem? (bounds_of_stampAt h).1] at h
  exact List.mem_of_getElem? h

/-- Stamps never fall along the log. -/
def Nondecreasing [LE τ] (L : PlainLog α τ) : Prop :=
  ∀ i j s t, i ≤ j → L.stampAt i = some s → L.stampAt j = some t → s ≤ t

theorem nondecreasing_of_pairwise [Preorder τ] (h : L.stamps.Pairwise (· ≤ ·)) :
    Nondecreasing L := by
  intro i j s t hij hs ht
  rw [stampAt_eq_getElem? (bounds_of_stampAt hs).1] at hs
  rw [stampAt_eq_getElem? (bounds_of_stampAt ht).1] at ht
  rcases Nat.eq_or_lt_of_le (show i - L.base ≤ j - L.base by omega) with heq | hlt
  · rw [heq, ht] at hs
    cases hs
    exact le_refl _
  · obtain ⟨hi, rfl⟩ := List.getElem?_eq_some_iff.mp hs
    obtain ⟨hj, rfl⟩ := List.getElem?_eq_some_iff.mp ht
    exact List.pairwise_iff_getElem.mp h _ _ hi hj hlt

theorem stampAt_overwrite_le (hl : i ≤ L.lastIndex) (hj : j ≤ i) :
    (L.overwrite i es).stampAt j = L.stampAt j := by
  unfold stampAt
  rw [entryAt_overwrite_le hl hj]
  rfl

/-! ## §4  Splicing a batch in at the first mismatch -/

section Splice

variable [DecidableEq τ]

/-- How many entries of the batch, to be placed from index `i + 1` on, carry
the stamp the log already has there; `none` if all do. -/
def firstMismatch (L : PlainLog α τ) : ℕ → List α → Option ℕ
  | _, [] => none
  | i, e :: es =>
      if L.stampAt (i + 1) = some (stamp e) then (firstMismatch L (i + 1) es).map (· + 1)
      else some 0

/-- Place the batch behind index `i`: what matches stays, and from the first
mismatch on the log is the batch. -/
def splice (L : PlainLog α τ) (i : ℕ) (es : List α) : PlainLog α τ :=
  match L.firstMismatch i es with
  | none => L
  | some k => L.overwrite (i + k) (es.drop k)

theorem firstMismatch_none (h : L.firstMismatch i es = none) :
    ∀ k e, es[k]? = some e → L.stampAt (i + 1 + k) = some (stamp e) := by
  induction es generalizing i with
  | nil =>
      intro k e he
      simp at he
  | cons a es ih =>
      intro k e he
      unfold firstMismatch at h
      split at h
      · rename_i ha
        have hrest : L.firstMismatch (i + 1) es = none := by simpa using h
        cases k with
        | zero =>
            obtain rfl : a = e := by simpa using he
            exact ha
        | succ k =>
            have hk := ih hrest k e (by simpa using he)
            rwa [show i + 1 + 1 + k = i + 1 + (k + 1) by omega] at hk
      · cases h

/-- The first mismatch is one, and everything before it matches. -/
theorem firstMismatch_some {k : ℕ} (h : L.firstMismatch i es = some k) :
    (∃ e, es[k]? = some e ∧ L.stampAt (i + 1 + k) ≠ some (stamp e)) ∧
    ∀ m e, m < k → es[m]? = some e → L.stampAt (i + 1 + m) = some (stamp e) := by
  induction es generalizing i k with
  | nil => cases h
  | cons a es ih =>
      unfold firstMismatch at h
      split at h
      · -- the first entry matches: the mismatch is the one of the rest
        rename_i ha
        obtain ⟨k', hk', rfl⟩ := Option.map_eq_some_iff.mp h
        obtain ⟨⟨e, he, hne⟩, hbelow⟩ := ih hk'
        constructor
        · refine ⟨e, by simpa using he, ?_⟩
          rwa [show i + 1 + 1 + k' = i + 1 + (k' + 1) by omega] at hne
        · intro m e' hm he'
          cases m with
          | zero =>
              obtain rfl : a = e' := by simpa using he'
              exact ha
          | succ m =>
              have hm' := hbelow m e' (by omega) (by simpa using he')
              rwa [show i + 1 + 1 + m = i + 1 + (m + 1) by omega] at hm'
      · rename_i ha
        obtain rfl : 0 = k := by simpa using h
        constructor
        · exact ⟨a, rfl, by simpa using ha⟩
        · intro m e hm
          omega

theorem firstMismatch_lt {k : ℕ} (h : L.firstMismatch i es = some k) : k < es.length := by
  obtain ⟨⟨e, he, _⟩, _⟩ := firstMismatch_some h
  exact (List.getElem?_eq_some_iff.mp he).1

/-- The matching part of the batch lies inside the log. -/
theorem add_firstMismatch_le {k : ℕ} (hl : i ≤ L.lastIndex)
    (h : L.firstMismatch i es = some k) : i + k ≤ L.lastIndex := by
  cases k with
  | zero => exact hl
  | succ k =>
      have hk := firstMismatch_lt h
      obtain ⟨_, hbelow⟩ := firstMismatch_some h
      -- the entry before the mismatch matches something
      have hs := bounds_of_stampAt
        (hbelow k es[k] (by omega) (List.getElem?_eq_getElem (by omega)))
      omega

/-- A batch that matches throughout lies inside the log. -/
theorem add_length_le_of_none (hl : i ≤ L.lastIndex)
    (h : L.firstMismatch i es = none) : i + es.length ≤ L.lastIndex := by
  cases hes : es.length with
  | zero => exact hl
  | succ k =>
      have hs := bounds_of_stampAt
        (firstMismatch_none h k es[k] (List.getElem?_eq_getElem (by omega)))
      omega

@[simp] theorem splice_base : (L.splice i es).base = L.base := by
  unfold splice; split <;> rfl

@[simp] theorem splice_baseStamp : (L.splice i es).baseStamp = L.baseStamp := by
  unfold splice; split <;> rfl

/-- The whole batch fits into the spliced log. -/
theorem le_lastIndex_splice (hb : L.base ≤ i) (hl : i ≤ L.lastIndex) :
    i + es.length ≤ (L.splice i es).lastIndex := by
  unfold splice
  split
  · rename_i h
    exact add_length_le_of_none hl h
  · rename_i k h
    have hk := firstMismatch_lt h
    rw [lastIndex_overwrite (by omega) (add_firstMismatch_le hl h), List.length_drop]
    omega

/-- Splicing changes nothing up to `i`. -/
theorem entryAt_splice_le (hl : i ≤ L.lastIndex) (hj : j ≤ i) :
    (L.splice i es).entryAt j = L.entryAt j := by
  unfold splice
  split
  · rfl
  · rename_i k h
    exact entryAt_overwrite_le (add_firstMismatch_le hl h) (by omega)

theorem stampAt_splice_le (hl : i ≤ L.lastIndex) (hj : j ≤ i) :
    (L.splice i es).stampAt j = L.stampAt j := by
  unfold stampAt
  rw [entryAt_splice_le hl hj]
  simp

/-- Every entry of the batch is found, by stamp, where it belongs. -/
theorem stampAt_splice (hb : L.base ≤ i) (hl : i ≤ L.lastIndex) {k : ℕ} {e : α}
    (he : es[k]? = some e) : (L.splice i es).stampAt (i + 1 + k) = some (stamp e) := by
  unfold splice
  split
  · rename_i h
    exact firstMismatch_none h k e he
  · rename_i m h
    have hm := add_firstMismatch_le hl h
    by_cases hk : k < m
    · rw [stampAt_overwrite_le hm (by omega)]
      exact (firstMismatch_some h).2 k e hk he
    · apply stampAt_of_entryAt
      have := entryAt_overwrite_gt (es.drop m) (show L.base ≤ i + m by omega) hm (k - m)
      rw [show i + m + 1 + (k - m) = i + 1 + k by omega] at this
      rw [this, List.getElem?_drop, show m + (k - m) = k by omega, he]

/-- A log that is not left alone ends with the batch. -/
theorem splice_eq_or_lastIndex (hb : L.base ≤ i) (hl : i ≤ L.lastIndex) :
    L.splice i es = L ∨ (L.splice i es).lastIndex = i + es.length := by
  unfold splice
  split
  · exact Or.inl rfl
  · rename_i k h
    have hk := firstMismatch_lt h
    right
    rw [lastIndex_overwrite (by omega) (add_firstMismatch_le hl h), List.length_drop]
    omega

theorem firstMismatch_of_match
    (h : ∀ k e, es[k]? = some e → L.stampAt (i + 1 + k) = some (stamp e)) :
    L.firstMismatch i es = none := by
  cases hk : L.firstMismatch i es with
  | none => rfl
  | some k =>
      obtain ⟨⟨e, he, hne⟩, _⟩ := firstMismatch_some hk
      exact absurd (h k e he) hne

/-- Without a mismatch the log stays as it is. -/
theorem splice_of_match
    (h : ∀ k e, es[k]? = some e → L.stampAt (i + 1 + k) = some (stamp e)) :
    L.splice i es = L := by
  unfold splice
  rw [firstMismatch_of_match h]

/-- The second time nothing mismatches. -/
theorem firstMismatch_splice (hb : L.base ≤ i) (hl : i ≤ L.lastIndex) :
    (L.splice i es).firstMismatch i es = none :=
  firstMismatch_of_match fun _ _ he => stampAt_splice hb hl he

/-- An entry behind the batch goes away only if some entry of the batch
mismatches one the log already holds. -/
theorem exists_conflict_of_dropped (hb : L.base ≤ i) {e : α} (hj : i + es.length < j)
    (he : L.entryAt j = some e) (hne : (L.splice i es).entryAt j ≠ some e) :
    ∃ k d t, es[k]? = some d ∧ L.stampAt (i + 1 + k) = some t ∧ t ≠ stamp d := by
  unfold splice at hne
  split at hne
  · exact absurd he hne
  · rename_i k hk
    obtain ⟨⟨d, hd, hmis⟩, _⟩ := firstMismatch_some hk
    have hjl := (bounds_of_entryAt he).2
    have hlt := firstMismatch_lt hk
    obtain ⟨t, ht⟩ := exists_stampAt (show L.base ≤ i + 1 + k by omega)
      (show i + 1 + k ≤ L.lastIndex by omega)
    exact ⟨k, d, t, hd, ht, fun h => hmis (by rw [ht, h])⟩

end Splice

/-! ## §5  Agreement and log matching

The follower log `L` may have been compacted further than the leader log `M`;
what lies behind its base is all that can be compared. -/

/-- `L` agrees with `M` at every index up to `n`. -/
structure AgreesUpTo (L M : PlainLog α τ) (n : ℕ) : Prop where
  stamp : ∀ j, L.base ≤ j → j ≤ n → L.stampAt j = M.stampAt j
  entry : ∀ j, L.base < j → j ≤ n → L.entryAt j = M.entryAt j

/-- The same stamp at the same index implies the same prefix. -/
def Matching (L M : PlainLog α τ) : Prop :=
  ∀ i t, L.stampAt i = some t → M.stampAt i = some t → AgreesUpTo L M i

/-- Matching, as far as the first log reaches: what has to be looked at. -/
def MatchingInside (L M : PlainLog α τ) : Prop :=
  ∀ i ≤ L.lastIndex, L.stampAt i = M.stampAt i → ∀ j ≤ i,
    (L.base ≤ j → L.stampAt j = M.stampAt j) ∧ (L.base < j → L.entryAt j = M.entryAt j)

instance [DecidableEq α] [DecidableEq τ] (L M : PlainLog α τ) :
    Decidable (MatchingInside L M) :=
  inferInstanceAs (Decidable (∀ i ≤ L.lastIndex, L.stampAt i = M.stampAt i → ∀ j ≤ i,
    (L.base ≤ j → L.stampAt j = M.stampAt j) ∧ (L.base < j → L.entryAt j = M.entryAt j)))

theorem MatchingInside.matching (h : MatchingInside L M) : Matching L M := by
  intro i t hi hi'
  have hj := h i (bounds_of_stampAt hi).2 (by rw [hi, hi'])
  exact ⟨fun j hb hle => (hj j hle).1 hb, fun j hb hle => (hj j hle).2 hb⟩

theorem AgreesUpTo.mono (h : AgreesUpTo L M n) {m : ℕ} (hm : m ≤ n) : AgreesUpTo L M m where
  stamp j hb hj := h.stamp j hb (by omega)
  entry j hb hj := h.entry j hb (by omega)

/-- A log that ends inside its agreement with `M` matches it. -/
theorem AgreesUpTo.matching (h : AgreesUpTo L M n) (hn : L.lastIndex ≤ n) : Matching L M := by
  intro i t hL _
  exact h.mono (Nat.le_trans (bounds_of_stampAt hL).2 hn)

section Append

variable [DecidableEq τ]

omit [DecidableEq τ] in
/-- As far as a part of `M` matches, the logs agree: the last matching stamp
carries the whole prefix. -/
theorem agreesUpTo_of_match (hmat : Matching L M) {t : τ} (hL : L.stampAt i = some t)
    (hM : M.stampAt i = some t) (hes : IsSegment M i es) {k : ℕ} (hk : k ≤ es.length)
    (h : ∀ m e, m < k → es[m]? = some e → L.stampAt (i + 1 + m) = some (stamp e)) :
    AgreesUpTo L M (i + k) := by
  cases k with
  | zero => exact hmat i t hL hM
  | succ k =>
      have he : es[k]? = some es[k] := List.getElem?_eq_getElem (by omega)
      have hMk := hes k (by omega)
      rw [he] at hMk
      have hagree := hmat (i + 1 + k) _ (h k _ (by omega) he) (stampAt_of_entryAt hMk)
      exact hagree.mono (by omega)

/-- Splicing a part of `M` in behind a matching index makes the log agree with
`M` as far as that part reaches. -/
theorem agreesUpTo_splice (hmat : Matching L M) {t : τ} (hL : L.stampAt i = some t)
    (hM : M.stampAt i = some t) (hes : IsSegment M i es) :
    AgreesUpTo (L.splice i es) M (i + es.length) := by
  obtain ⟨hb, hl⟩ := bounds_of_stampAt hL
  unfold splice
  split
  · rename_i h
    exact agreesUpTo_of_match hmat hL hM hes (Nat.le_refl _)
      fun m e _ he => firstMismatch_none h m e he
  · rename_i k h
    have hlt := firstMismatch_lt h
    have hle := add_firstMismatch_le hl h
    have hlow : AgreesUpTo L M (i + k) :=
      agreesUpTo_of_match hmat hL hM hes (by omega) (firstMismatch_some h).2
    -- up to the mismatch the log is the old one, behind it the rest of the part
    have hentry : ∀ j, L.base < j → j ≤ i + es.length →
        (L.overwrite (i + k) (es.drop k)).entryAt j = M.entryAt j := by
      intro j hj hjn
      by_cases hjk : j ≤ i + k
      · rw [entryAt_overwrite_le hle hjk, hlow.entry j hj hjk]
      · have hgt := entryAt_overwrite_gt (es.drop k) (show L.base ≤ i + k by omega) hle
          (j - (i + k + 1))
        rw [show i + k + 1 + (j - (i + k + 1)) = j by omega] at hgt
        rw [hgt, List.getElem?_drop, ← hes (k + (j - (i + k + 1))) (by omega)]
        congr 1
        omega
    refine ⟨?_, hentry⟩
    intro j hj hjn
    by_cases hjk : j ≤ i + k
    · rw [stampAt_overwrite_le hle hjk]
      exact hlow.stamp j hj hjk
    · have hMb : M.base < j := by
        have := (bounds_of_stampAt hM).1
        omega
      rw [stampAt_of_gt (show (L.overwrite (i + k) (es.drop k)).base < j by
        rw [overwrite_base]; omega), hentry j (by omega) hjn, stampAt_of_gt hMb]

/-- Splicing a part of `M` in never undoes an agreement already reached. -/
theorem AgreesUpTo.splice (hn : AgreesUpTo L M n) (hmat : Matching L M) {t : τ}
    (hL : L.stampAt i = some t) (hM : M.stampAt i = some t) (hes : IsSegment M i es) :
    AgreesUpTo (L.splice i es) M n := by
  obtain ⟨hb, hl⟩ := bounds_of_stampAt hL
  by_cases hin : n ≤ i + es.length
  · exact (agreesUpTo_splice hmat hL hM hes).mono hin
  · -- the agreement covers the whole batch, so nothing mismatches
    rw [splice_of_match]
    · exact hn
    · intro k e he
      have hk := (List.getElem?_eq_some_iff.mp he).1
      have hMk := hes k hk
      rw [he] at hMk
      rw [hn.stamp _ (by omega) (by omega)]
      exact stampAt_of_entryAt hMk

/-- Log matching survives splicing a part of `M` in. -/
theorem Matching.splice (hmat : Matching L M) {t : τ} (hL : L.stampAt i = some t)
    (hM : M.stampAt i = some t) (hes : IsSegment M i es) : Matching (L.splice i es) M := by
  obtain ⟨hb, hl⟩ := bounds_of_stampAt hL
  have hagree := agreesUpTo_splice hmat hL hM hes
  cases h : L.firstMismatch i es with
  | none =>
      rw [show L.splice i es = L by unfold PlainLog.splice; rw [h]]
      exact hmat
  | some k =>
      have hlt := firstMismatch_lt h
      apply hagree.matching
      rw [show L.splice i es = L.overwrite (i + k) (es.drop k) by
        unfold PlainLog.splice; rw [h]]
      rw [lastIndex_overwrite (by omega) (add_firstMismatch_le hl h), List.length_drop]
      omega

end Append

/-! Over a common base agreement is an equivalence. -/

/-- `L` and `M` have the same base and agree at every index up to `n`. -/
structure SameUpTo (L M : PlainLog α τ) (n : ℕ) : Prop extends AgreesUpTo L M n where
  base : M.base = L.base

namespace SameUpTo

variable {N : PlainLog α τ} {m : ℕ}

theorem refl (L : PlainLog α τ) (n : ℕ) : SameUpTo L L n :=
  ⟨⟨fun _ _ _ => rfl, fun _ _ _ => rfl⟩, rfl⟩

theorem symm (h : SameUpTo L M n) : SameUpTo M L n where
  base := h.base.symm
  stamp j hb hj := (h.stamp j (by rwa [← h.base]) hj).symm
  entry j hb hj := (h.entry j (by rwa [← h.base]) hj).symm

theorem trans (h : SameUpTo L M n) (h' : SameUpTo M N n) : SameUpTo L N n where
  base := h'.base.trans h.base
  stamp j hb hj := (h.stamp j hb hj).trans (h'.stamp j (by rwa [h.base]) hj)
  entry j hb hj := (h.entry j hb hj).trans (h'.entry j (by rwa [h.base]) hj)

theorem mono (h : SameUpTo L M n) (hm : m ≤ n) : SameUpTo L M m :=
  ⟨h.toAgreesUpTo.mono hm, h.base⟩

/-- What one log holds inside the agreement, the other holds too. -/
theorem stampAt_eq (h : SameUpTo L M n) (hi : i ≤ n) {t : τ} (ht : L.stampAt i = some t) :
    M.stampAt i = some t := by
  rw [← h.stamp i (bounds_of_stampAt ht).1 hi, ht]

end SameUpTo

omit [Stamped α τ] in
/-- A part of a log stays one when the log is continued. -/
theorem IsSegment.continues (h : IsSegment L i es) (hl : i + es.length ≤ L.lastIndex)
    (hc : L.Continues M) : IsSegment M i es := by
  intro k hk
  rw [hc.entryAt_eq (by omega)]
  exact h k hk

/-- A log is the same as each that continues it, as far as it reaches. -/
theorem Continues.sameUpTo (h : L.Continues M) (hn : n ≤ L.lastIndex) : SameUpTo L M n where
  base := h.base
  stamp _ _ hj := (h.stampAt_eq (Nat.le_trans hj hn)).symm
  entry _ _ hj := (h.entryAt_eq (Nat.le_trans hj hn)).symm

/-! ## §6  What is left of a log that is compacted

Reads and writes behind the base do not see that something was cut off, so a compacted
log can be followed by the log that never was. -/

/-- `L` is what is left of `M` behind the base of `L`. -/
structure Remains (L M : PlainLog α τ) : Prop where
  base_le : M.base ≤ L.base
  baseStamp : M.stampAt L.base = some L.baseStamp
  tail : L.tail = M.tail.drop (L.base - M.base)

namespace Remains

variable {N : PlainLog α τ} {k : ℕ}

theorem refl (L : PlainLog α τ) : Remains L L where
  base_le := Nat.le_refl _
  baseStamp := stampAt_base
  tail := by
    rw [Nat.sub_self]
    rfl

theorem lastIndex_eq (h : Remains L M) : L.lastIndex = M.lastIndex := by
  have hle := (bounds_of_stampAt h.baseStamp).2
  have hb := h.base_le
  unfold lastIndex at hle ⊢
  rw [h.tail, List.length_drop]
  omega

theorem entryAt_eq (h : Remains L M) (hb : L.base < i) : L.entryAt i = M.entryAt i := by
  have hle := h.base_le
  rw [entryAt, if_pos hb, entryAt, if_pos (by omega), h.tail, List.getElem?_drop]
  congr 1
  omega

theorem stampAt_eq (h : Remains L M) (hb : L.base ≤ i) : L.stampAt i = M.stampAt i := by
  rcases Nat.eq_or_lt_of_le hb with rfl | hlt
  · rw [stampAt_base, h.baseStamp]
  · rw [stampAt_of_gt hlt, h.entryAt_eq hlt, stampAt_of_gt (Nat.lt_of_le_of_lt h.base_le hlt)]

/-- What is still there was there. -/
theorem stampAt_of (h : Remains L M) {t : τ} (ht : L.stampAt i = some t) :
    M.stampAt i = some t := by
  rw [← h.stampAt_eq (bounds_of_stampAt ht).1, ht]

theorem lastStamp_eq (h : Remains L M) : L.lastStamp = M.lastStamp := by
  have hlast := h.stampAt_of stampAt_lastIndex
  rw [h.lastIndex_eq, stampAt_lastIndex] at hlast
  exact (Option.some.inj hlast).symm

theorem segment_eq (h : Remains L M) (hb : L.base ≤ i) (k : ℕ) :
    L.segment i k = M.segment i k := by
  have hle := h.base_le
  rw [segment, segment, h.tail, List.drop_drop,
    show L.base - M.base + (i - L.base) = i - M.base by omega]

theorem trans (h : Remains L M) (h' : Remains M N) : Remains L N where
  base_le := Nat.le_trans h'.base_le h.base_le
  baseStamp := h'.stampAt_of h.baseStamp
  tail := by
    have hle := h.base_le
    have hle' := h'.base_le
    rw [h.tail, h'.tail, List.drop_drop,
      show M.base - N.base + (L.base - M.base) = L.base - N.base by omega]

/-- Overwriting what is left is overwriting the log. -/
theorem overwrite (h : Remains L M) (hb : L.base ≤ i) (hl : i ≤ L.lastIndex) (es : List α) :
    Remains (L.overwrite i es) (M.overwrite i es) where
  base_le := h.base_le
  baseStamp := by
    rw [overwrite_base, overwrite_baseStamp,
      stampAt_overwrite_le (h.lastIndex_eq ▸ hl) hb]
    exact h.baseStamp
  tail := by
    have hle := h.base_le
    have hlast := h.lastIndex_eq
    have hlen : L.base - M.base ≤ (M.tail.take (i - M.base)).length := by
      unfold lastIndex at hl hlast
      rw [List.length_take]
      omega
    simp only [PlainLog.overwrite]
    rw [h.tail, List.drop_append_of_le_length hlen, List.drop_take,
      show i - M.base - (L.base - M.base) = i - L.base by omega]

section Splice

variable [DecidableEq τ]

theorem firstMismatch_eq (h : Remains L M) (hb : L.base ≤ i) (es : List α) :
    L.firstMismatch i es = M.firstMismatch i es := by
  induction es generalizing i with
  | nil => rfl
  | cons e es ih =>
      rw [firstMismatch, firstMismatch, h.stampAt_eq (Nat.le_succ_of_le hb),
        ih (Nat.le_succ_of_le hb)]

/-- Splicing a batch into what is left is splicing it into the log. -/
theorem splice (h : Remains L M) (hb : L.base ≤ i) (hl : i ≤ L.lastIndex) (es : List α) :
    Remains (L.splice i es) (M.splice i es) := by
  unfold PlainLog.splice
  rw [← h.firstMismatch_eq hb es]
  cases hk : L.firstMismatch i es with
  | none => exact h
  | some k =>
      exact h.overwrite (Nat.le_trans hb (Nat.le_add_right i k)) (add_firstMismatch_le hl hk) _

end Splice

end Remains

omit [Stamped α τ] in
/-- The entries up to `n` are the same, wherever both logs still hold them. -/
def HeldAlike (L M : PlainLog α τ) (n : ℕ) : Prop :=
  ∀ j, L.base < j → M.base < j → j ≤ n → L.entryAt j = M.entryAt j

/-- Of logs that are the same, what is left is the same. -/
theorem SameUpTo.heldAlike {L' M' : PlainLog α τ} (h : SameUpTo L M n) (hL : Remains L' L)
    (hM : Remains M' M) : HeldAlike L' M' n := by
  intro j hj hj' hn
  rw [hL.entryAt_eq hj, hM.entryAt_eq hj', h.entry j (Nat.lt_of_le_of_lt hL.base_le hj) hn]

end PlainLog
