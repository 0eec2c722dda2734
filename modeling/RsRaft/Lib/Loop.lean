import Mathlib.Data.Nat.Notation
import Mathlib.Logic.Relation

/-!
# Loops that end when a round says so

A round of a loop is done with a result, goes on from a new state, or fails. The
loop itself runs on fuel. Where every round keeps an invariant and lowers a
variant, enough fuel gives the result, and the same one however much it is.
-/

/-- What a round comes to. -/
inductive Round (σ τ : Type) where
  | done (t : τ)
  | next (s : σ)
deriving DecidableEq, Repr

namespace Round

variable {π σ τ : Type} {s s' : σ} {Inv : σ → Prop}

/-- Rounds until one is done; `none` stands for running out of fuel. -/
def loop (round : σ → Except π (Round σ τ)) : (fuel : ℕ) → σ → Except π (Option τ)
  | 0, _ => pure none
  | fuel + 1, s => do
      match ← round s with
      | .done t => pure (some t)
      | .next s' => loop round fuel s'

variable {round : σ → Except π (Round σ τ)}

/-- Some rounds from `s` lead to `s'`. -/
def Leads (round : σ → Except π (Round σ τ)) : σ → σ → Prop :=
  Relation.ReflTransGen fun s s' => round s = .ok (.next s')

theorem loop_of_done {t : τ} (h : round s = .ok (.done t)) (fuel : ℕ) :
    loop round (fuel + 1) s = .ok (some t) := by
  rw [loop, h]
  rfl

theorem loop_of_next (h : round s = .ok (.next s')) (fuel : ℕ) :
    loop round (fuel + 1) s = loop round fuel s' := by
  rw [loop, h]
  rfl

/-- What a round from a state of the invariant comes to. -/
inductive Advance (round : σ → Except π (Round σ τ)) (Inv : σ → Prop) (variant : σ → ℕ)
    (Post : τ → Prop) (s : σ) : Prop
  | done (t : τ) (run : round s = .ok (.done t)) (post : Post t)
  | next (s' : σ) (run : round s = .ok (.next s')) (inv : Inv s') (lt : variant s' < variant s)

/-- Every round advances. -/
def Advances (round : σ → Except π (Round σ τ)) (Inv : σ → Prop) (variant : σ → ℕ)
    (Post : τ → Prop) : Prop :=
  ∀ s, Inv s → Advance round Inv variant Post s

namespace Advances

variable {variant : σ → ℕ} {Post : τ → Prop}

/-- Fuel beyond the variant is enough. -/
theorem loop_returns (h : Advances round Inv variant Post) (hs : Inv s) :
    ∃ t, Post t ∧ ∀ fuel, variant s < fuel → loop round fuel s = .ok (some t) := by
  induction hn : variant s using Nat.strongRecOn generalizing s with
  | _ n ih =>
      subst hn
      cases h s hs with
      | done t run post =>
          refine ⟨t, post, fun fuel hfuel => ?_⟩
          obtain ⟨k, rfl⟩ := Nat.exists_eq_succ_of_ne_zero (Nat.ne_zero_of_lt hfuel)
          exact loop_of_done run k
      | next s' run inv lt =>
          obtain ⟨t, post, hrest⟩ := ih _ lt inv rfl
          refine ⟨t, post, fun fuel hfuel => ?_⟩
          obtain ⟨k, rfl⟩ := Nat.exists_eq_succ_of_ne_zero (Nat.ne_zero_of_lt hfuel)
          rw [loop_of_next run]
          exact hrest k (Nat.lt_of_lt_of_le lt (Nat.le_of_lt_succ hfuel))

/-- A round that goes on keeps the invariant and lowers the variant. -/
theorem of_next (h : Advances round Inv variant Post) (hs : Inv s)
    (hnext : round s = .ok (.next s')) : Inv s' ∧ variant s' < variant s := by
  cases h s hs with
  | done t run post =>
      rw [run] at hnext
      cases hnext
  | next s₁ run inv lt =>
      rw [run] at hnext
      cases hnext
      exact ⟨inv, lt⟩

/-- Wherever the rounds lead, the invariant holds. -/
theorem of_leads (h : Advances round Inv variant Post) (hs : Inv s)
    (hleads : Leads round s s') : Inv s' := by
  induction hleads with
  | refl => exact hs
  | tail _ hnext ih => exact (h.of_next ih hnext).1

end Advances

end Round
