import Mathlib.Logic.Basic
import Mathlib.Data.List.Basic

/-!
# A property of every call of a run

`EveryCall next P is s` says that along the run of the calls `is` from state
`s`, every call meets `P` in the state before it. Two such properties agree on
all runs if they agree wherever an invariant holds and one of them keeps it.
-/

variable {σ ι : Type} {next : σ → ι → σ → Prop} {A P Q : σ → ι → Prop} {Inv : σ → Prop}

/-- Every call of the run meets `P` in the state before it; where a call leads nowhere,
the run ends. -/
def EveryCall (next : σ → ι → σ → Prop) (P : σ → ι → Prop) : List ι → σ → Prop
  | [], _ => True
  | i :: is, s => P s i ∧ ∀ s', next s i s' → EveryCall next P is s'

namespace EveryCall

/-- Among the runs whose calls all meet `A`, the invariant makes `P` and `Q` the same. -/
theorem iff_of_invariant (hiff : ∀ s i, Inv s → A s i → (P s i ↔ Q s i))
    (hkeep : ∀ s i s', Inv s → A s i → Q s i → next s i s' → Inv s') {is : List ι} {s : σ}
    (h : Inv s) (hA : EveryCall next A is s) :
    EveryCall next P is s ↔ EveryCall next Q is s := by
  induction is generalizing s with
  | nil => exact Iff.rfl
  | cons i is ih =>
      obtain ⟨hA, hrest⟩ := hA
      rw [EveryCall, EveryCall, hiff s i h hA]
      refine and_congr_right fun hQ => forall_congr' fun s' => forall_congr' fun hnext => ?_
      exact ih (hkeep s i s' h hA hQ hnext) (hrest s' hnext)

theorem of_forall (h : ∀ s i, P s i) (is : List ι) (s : σ) : EveryCall next P is s := by
  induction is generalizing s with
  | nil => trivial
  | cons i is ih => exact ⟨h s i, fun s' _ => ih s'⟩

end EveryCall
