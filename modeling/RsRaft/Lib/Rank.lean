import Mathlib.Data.List.Sort

/-!
# Picking the `k`-th largest value

Sorting a list in descending order and reading position `k` answers every
question "do at least `k + 1` of the values reach `N`?" at once.
-/

namespace Rank

variable {α : Type} [LinearOrder α]

/-- In a descending list, the value at position `k` reaches `N` exactly when
`k + 1` values do. -/
theorem le_getElem_iff_of_pairwise {l : List α} (hl : l.Pairwise (· ≥ ·)) :
    ∀ {k : ℕ} {x : α} (N : α), l[k]? = some x →
      (N ≤ x ↔ k + 1 ≤ l.countP (N ≤ ·)) := by
  induction hl with
  | nil => intro k x N h; simp at h
  | @cons a l ha hl ih =>
    intro k x N h
    cases k with
    | zero =>
      obtain rfl : a = x := by simpa using h
      constructor
      · intro hN
        simp [hN]
      · intro hc
        obtain ⟨b, hb, hNb⟩ := List.countP_pos_iff.mp (Nat.lt_of_lt_of_le Nat.zero_lt_one hc)
        rcases List.mem_cons.mp hb with rfl | hb
        · simpa using hNb
        · exact le_trans (by simpa using hNb) (ha b hb)
    | succ k =>
      have hk : l[k]? = some x := by simpa using h
      have hih := ih N hk
      by_cases hN : N ≤ a
      · rw [List.countP_cons_of_pos (by simpa using hN), hih]
        omega
      · -- nothing behind `a` is larger, so nobody reaches `N`
        have hzero : l.countP (N ≤ ·) = 0 := by
          rw [List.countP_eq_zero]
          intro b hb hNb
          exact hN (le_trans (by simpa using hNb) (ha b hb))
        rw [List.countP_cons_of_neg (by simpa using hN), hih, hzero]
        omega

/-- The value at position `k` of the descending sort reaches `N` exactly when
`k + 1` of the values do. -/
theorem le_sorted_getElem_iff (l : List α) {k : ℕ} {x : α} (N : α)
    (h : (l.insertionSort (· ≥ ·))[k]? = some x) :
    N ≤ x ↔ k + 1 ≤ l.countP (N ≤ ·) := by
  rw [le_getElem_iff_of_pairwise (List.pairwise_insertionSort (· ≥ ·) l) N h,
    (List.perm_insertionSort (· ≥ ·) l).countP_eq]

end Rank
