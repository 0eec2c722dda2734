import Mathlib.Algebra.BigOperators.Group.List.Basic
import RsRaft.Eraftpb

/-!
# `util.rs`: the size limit on a batch

`limit_size` keeps the longest beginning of a batch that fits, unless entries
that take no space stand in front of one too large; and limiting a batch before
more is put behind it changes nothing.
-/

namespace RsRaft

/-- `u64::MAX`. -/
def NO_LIMIT : ℕ := 2 ^ 64 - 1

section

variable {α : Type} [ProtoMessage α]

/-- The `take_while` of `limit_size`, with the running total it closes over. -/
def takeWhileSize (max : ℕ) : ℕ → List α → List α
  | _, [] => []
  | size, e :: es =>
      let size' := size + ProtoMessage.computeSize e
      if size = 0 ∨ size' ≤ max then e :: takeWhileSize max size' es else []

/-- Keep the longest prefix of the entries within `max` bytes. -/
def limitSize (entries : List α) (max : ℕ) : List α :=
  if NO_LIMIT = max ∨ entries.length ≤ 1 then entries
  else entries.take (takeWhileSize max 0 entries).length

/-- The first entry passes whatever its size. -/
theorem takeWhileSize_cons_zero (max : ℕ) (e : α) (es : List α) :
    takeWhileSize max 0 (e :: es) = e :: takeWhileSize max (ProtoMessage.computeSize e) es := by
  rw [takeWhileSize, if_pos (Or.inl rfl), Nat.zero_add]

theorem takeWhileSize_isPrefix (max size : ℕ) (es : List α) :
    takeWhileSize max size es <+: es := by
  induction es generalizing size with
  | nil => exact List.prefix_refl _
  | cons e es ih =>
      rw [takeWhileSize]
      split
      · exact List.cons_prefix_cons.mpr ⟨rfl, ih _⟩
      · exact List.nil_prefix

/-- The test on the number of entries only saves work. -/
theorem limitSize_eq (entries : List α) (max : ℕ) :
    limitSize entries max =
      if NO_LIMIT = max then entries else takeWhileSize max 0 entries := by
  unfold limitSize
  by_cases hmax : NO_LIMIT = max
  · rw [if_pos (Or.inl hmax), if_pos hmax]
  · rw [if_neg hmax]
    split
    · rename_i hlen
      have hlen : entries.length ≤ 1 := by tauto
      match entries, hlen with
      | [], _ => rfl
      | [e], _ => exact (takeWhileSize_cons_zero max e []).symm
    · exact (List.prefix_iff_eq_take.mp (takeWhileSize_isPrefix max 0 entries)).symm

theorem limitSize_isPrefix (entries : List α) (max : ℕ) : limitSize entries max <+: entries := by
  rw [limitSize_eq]
  split
  · exact List.prefix_refl _
  · exact takeWhileSize_isPrefix max 0 entries

@[simp] theorem limitSize_noLimit (entries : List α) : limitSize entries NO_LIMIT = entries := by
  rw [limitSize_eq, if_pos rfl]

/-- Whatever the sizes, a limited batch is the beginning of the batch. -/
theorem limitSize_isTake (entries : List α) (max : ℕ) :
    ∃ k, limitSize entries max = entries.take k :=
  ⟨_, List.prefix_iff_eq_take.mp (limitSize_isPrefix entries max)⟩

/-! ## Limiting in two rounds -/

/-- A batch that is cut short is cut at the same place in front of any other. -/
theorem takeWhileSize_append {max size : ℕ} {es : List α}
    (h : (takeWhileSize max size es).length < es.length) (es' : List α) :
    takeWhileSize max size (es ++ es') = takeWhileSize max size es := by
  induction es generalizing size with
  | nil => cases h
  | cons e es ih =>
      rw [List.cons_append, takeWhileSize, takeWhileSize]
      by_cases hfit : size = 0 ∨ size + ProtoMessage.computeSize e ≤ max
      · rw [takeWhileSize, if_pos hfit, List.length_cons, List.length_cons] at h
        rw [if_pos hfit, if_pos hfit, ih (by omega)]
      · rw [if_neg hfit, if_neg hfit]

theorem limitSize_append {max : ℕ} {es : List α}
    (h : (limitSize es max).length < es.length) (es' : List α) :
    limitSize (es ++ es') max = limitSize es max := by
  rw [limitSize_eq] at h
  rw [limitSize_eq, limitSize_eq]
  by_cases hmax : NO_LIMIT = max
  · rw [if_pos hmax] at h
    exact absurd h (Nat.lt_irrefl _)
  · rw [if_neg hmax] at h
    rw [if_neg hmax, if_neg hmax, takeWhileSize_append h]

/-- A batch that is not cut short passes whole. -/
theorem limitSize_eq_self {max : ℕ} {es : List α}
    (h : ¬ (limitSize es max).length < es.length) : limitSize es max = es :=
  (limitSize_isPrefix es max).eq_of_length_le (Nat.le_of_not_lt h)

/-! ## What the limit promises -/

def totalSize (es : List α) : ℕ := (es.map ProtoMessage.computeSize).sum

@[simp] theorem totalSize_nil : totalSize ([] : List α) = 0 := rfl

@[simp] theorem totalSize_cons (e : α) (es : List α) :
    totalSize (e :: es) = ProtoMessage.computeSize e + totalSize es := by
  rw [totalSize, List.map_cons, List.sum_cons]
  rfl

theorem totalSize_append (es es' : List α) :
    totalSize (es ++ es') = totalSize es + totalSize es' := by
  rw [totalSize, List.map_append, List.sum_append]
  rfl

/-- A batch the limit lets pass: one entry always does. -/
def Within (max : ℕ) (es : List α) : Prop :=
  max = NO_LIMIT ∨ es.length ≤ 1 ∨ totalSize es ≤ max

/-- The longest beginning of `es` that the limit lets pass. -/
structure LongestWithin (max : ℕ) (es out : List α) : Prop where
  isPrefix : out <+: es
  within : Within max out
  longest : ∀ out', out' <+: es → Within max out' → out'.length ≤ out.length

/-- Behind a first entry, the entries are taken as long as the running total allows. -/
theorem takeWhileSize_within (max : ℕ) {size : ℕ} (hsize : 0 < size) (es : List α) :
    takeWhileSize max size es = [] ∨ size + totalSize (takeWhileSize max size es) ≤ max := by
  induction es generalizing size with
  | nil => exact Or.inl rfl
  | cons e es ih =>
      rw [takeWhileSize]
      split
      · rename_i hfit
        right
        have hle : size + ProtoMessage.computeSize e ≤ max := by omega
        rw [totalSize_cons]
        rcases ih (show 0 < size + ProtoMessage.computeSize e by omega) with hnil | hrest
        · rw [hnil, totalSize_nil]
          omega
        · omega
      · exact Or.inl rfl

theorem takeWhileSize_longest {max size : ℕ} {es out : List α} (hout : out <+: es)
    (hle : size + totalSize out ≤ max) : out.length ≤ (takeWhileSize max size es).length := by
  induction es generalizing size out with
  | nil => rw [List.prefix_nil.mp hout]; exact Nat.zero_le _
  | cons e es ih =>
      cases out with
      | nil => exact Nat.zero_le _
      | cons a out =>
          obtain ⟨rfl, hrest⟩ := List.cons_prefix_cons.mp hout
          rw [totalSize_cons] at hle
          rw [takeWhileSize, if_pos (Or.inr (by omega)), List.length_cons, List.length_cons]
          exact Nat.succ_le_succ (ih hrest (by omega))

/-- Whatever the sizes, no longer beginning passes the limit. -/
theorem length_le_limitSize {max : ℕ} {es out : List α} (hout : out <+: es)
    (hwithin : Within max out) : out.length ≤ (limitSize es max).length := by
  rw [limitSize_eq]
  split
  · exact hout.length_le
  · rename_i hmax
    cases es with
    | nil => exact hout.length_le
    | cons e es =>
        rcases hwithin with rfl | hone | hle
        · exact absurd rfl hmax
        · rw [takeWhileSize_cons_zero, List.length_cons]
          omega
        · exact takeWhileSize_longest hout (by rwa [Nat.zero_add])

/-! ## Entries that take no space

The test for the first entry is made on the running total, which is still `0`
behind entries of size `0`. -/

/-- Entries that take no space leave the running total at `0`. -/
theorem takeWhileSize_append_of_empty {max : ℕ} {es : List α}
    (h : ∀ e ∈ es, ProtoMessage.computeSize e = 0) (es' : List α) :
    takeWhileSize max 0 (es ++ es') = es ++ takeWhileSize max 0 es' := by
  induction es with
  | nil => rfl
  | cons e es ih =>
      obtain ⟨he, hes⟩ := List.forall_mem_cons.mp h
      rw [List.cons_append, takeWhileSize_cons_zero, he, ih hes, List.cons_append]

/-- The limit is kept, or broken by the first entry that takes space. -/
theorem takeWhileSize_zero_within (max : ℕ) (es : List α) :
    totalSize (takeWhileSize max 0 es) ≤ max ∨
      ∃ front e, takeWhileSize max 0 es = front ++ [e] ∧
        (∀ d ∈ front, ProtoMessage.computeSize d = 0) ∧ max < ProtoMessage.computeSize e := by
  induction es with
  | nil => exact Or.inl (Nat.zero_le _)
  | cons e es ih =>
      rw [takeWhileSize_cons_zero]
      by_cases he : ProtoMessage.computeSize e = 0
      · rw [he]
        rcases ih with hle | ⟨front, d, hcut, hempty, hlt⟩
        · left
          rw [totalSize_cons, he, Nat.zero_add]
          exact hle
        · right
          refine ⟨e :: front, d, ?_, List.forall_mem_cons.mpr ⟨he, hempty⟩, hlt⟩
          rw [hcut]
          rfl
      · rcases takeWhileSize_within max (Nat.pos_of_ne_zero he) es with hnil | hle
        · rw [hnil]
          rcases Nat.lt_or_ge max (ProtoMessage.computeSize e) with hlt | hge
          · exact Or.inr ⟨[], e, rfl, fun d hd => (List.not_mem_nil hd).elim, hlt⟩
          · left
            rw [totalSize_cons, totalSize_nil]
            exact hge
        · left
          rwa [totalSize_cons]

/-- Right behind one or more entries that take no space comes an entry beyond the
limit. -/
def Overruns (max : ℕ) (es : List α) : Prop :=
  ∃ front e rest, es = front ++ e :: rest ∧ front ≠ [] ∧
    (∀ d ∈ front, ProtoMessage.computeSize d = 0) ∧ max < ProtoMessage.computeSize e

theorem not_overruns_of_pos {es : List α} (hpos : ∀ e ∈ es, 0 < ProtoMessage.computeSize e)
    (max : ℕ) : ¬ Overruns max es := by
  rintro ⟨front, e, rest, rfl, hne, hempty, hlt⟩
  cases front with
  | nil => exact hne rfl
  | cons d front =>
      have hd := hpos d (List.mem_append_left _ List.mem_cons_self)
      have hd' := hempty d List.mem_cons_self
      omega

/-- An entry beyond the limit passes as the first one that takes space. -/
theorem within_takeWhileSize_iff {max : ℕ} (hmax : max ≠ NO_LIMIT) {es : List α} :
    Within max (takeWhileSize max 0 es) ↔ ¬ Overruns max es := by
  constructor
  · rintro hwithin ⟨front, e, rest, rfl, hne, hempty, hlt⟩
    rw [takeWhileSize_append_of_empty hempty, takeWhileSize_cons_zero] at hwithin
    rcases hwithin with hno | hlen | hle
    · exact hmax hno
    · rw [List.length_append, List.length_cons] at hlen
      have hpos := List.length_pos_iff.mpr hne
      omega
    · rw [totalSize_append, totalSize_cons] at hle
      omega
  · intro hno
    rcases takeWhileSize_zero_within max es with hle | ⟨front, e, hcut, hempty, hlt⟩
    · exact Or.inr (Or.inr hle)
    · right; left
      rw [hcut]
      cases front with
      | nil => exact Nat.le_refl 1
      | cons d front =>
          obtain ⟨rest, hrest⟩ := takeWhileSize_isPrefix max 0 es
          rw [hcut, List.append_assoc] at hrest
          exact absurd ⟨d :: front, e, rest, hrest.symm, List.cons_ne_nil _ _, hempty, hlt⟩ hno

theorem within_limitSize_iff {max : ℕ} {es : List α} :
    Within max (limitSize es max) ↔ max = NO_LIMIT ∨ ¬ Overruns max es := by
  rw [limitSize_eq]
  by_cases hmax : max = NO_LIMIT
  · rw [if_pos hmax.symm]
    exact iff_of_true (Or.inl hmax) (Or.inl hmax)
  · rw [if_neg (Ne.symm hmax), within_takeWhileSize_iff hmax]
    exact (or_iff_right hmax).symm

/-- Entries that take space are cut at the last one that fits. -/
theorem limitSize_longestWithin {es : List α} (hpos : ∀ e ∈ es, 0 < ProtoMessage.computeSize e)
    (max : ℕ) : LongestWithin max es (limitSize es max) where
  isPrefix := limitSize_isPrefix es max
  within := within_limitSize_iff.mpr (Or.inr (not_overruns_of_pos hpos max))
  longest _ hout hwithin := length_le_limitSize hout hwithin

/-! ## The limit on any batch -/

/-- A batch is limited to the longest beginning that fits, and at the same place
whatever comes behind it. -/
structure Limits (max : ℕ) (es : List α) : Prop where
  unlimited : max = NO_LIMIT → limitSize es max = es
  longest : LongestWithin max es (limitSize es max)
  append : (limitSize es max).length < es.length →
    ∀ es', limitSize (es ++ es') max = limitSize es max

/-- Every batch is limited that way but one with an entry beyond the limit right behind
entries that take no space. -/
theorem limits_iff (max : ℕ) (es : List α) :
    Limits max es ↔ max = NO_LIMIT ∨ ¬ Overruns max es := by
  rw [← within_limitSize_iff]
  constructor
  · intro h
    exact h.longest.within
  · intro hwithin
    refine ⟨?_, ?_, fun hcut es' => limitSize_append hcut es'⟩
    · rintro rfl
      exact limitSize_noLimit es
    · exact ⟨limitSize_isPrefix es max, hwithin, fun out' => length_le_limitSize⟩

end

/-- The empty entry takes no space, and the one behind it four bytes: both are kept. -/
theorem not_limits_emptyFirst :
    ¬ Limits 1 ([{}, { term := 1, index := 1 }] : List Entry) := by
  intro h
  rcases h.longest.within with hno | hlen | hle
  · exact absurd hno (by decide)
  · exact absurd hlen (by decide)
  · exact absurd hle (by decide)

end RsRaft
