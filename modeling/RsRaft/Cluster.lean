import RsRaft.Run

/-!
# A cluster of nodes

Every member has its node, the trace of everything it ever did, and a flag that
says a panic stopped it. A step of the cluster is one call on one running
member: a tick, or the delivery of a message that some member has queued for
it. Nothing is ever removed from a queue, so messages arrive late, repeatedly,
in any order, or never. The random timeouts of a call are arbitrary.
-/

namespace RsRaft

structure Member (T : Type) where
  raft : Raft T
  trace : List Event := []
  stopped : Bool := false

/-- The member after a call on it. -/
def Member.after {T : Type} (M : Member T) {α : Type} (o : Outcome Panic Event (Raft T) α) :
    Member T where
  raft := o.state
  trace := M.trace ++ o.trace
  stopped := match o.value with
    | .ok _ => M.stopped
    | .error _ => true

theorem Member.after_raft {T : Type} (M : Member T) {α : Type}
    (o : Outcome Panic Event (Raft T) α) : (M.after o).raft = o.state := rfl

/-- The members by their id. -/
abbrev Cluster (T : Type) : Type := ℕ → Option (Member T)

namespace Cluster

variable {T : Type}

/-- The calls the cluster may make on member `n`. -/
inductive MayCall (C : Cluster T) (n : ℕ) : Input → Prop
  | tick : MayCall C n .tick
  | deliver {k : ℕ} {K : Member T} {m : Message} (hk : C k = some K) (hm : m ∈ K.raft.msgs)
      (hto : m.to_ = n) : MayCall C n (.step m)

variable [Storage T] [ProtoMessage Entry]

/-- One step: member `n` runs the call `i` with the random numbers `rng`. -/
inductive Step (C : Cluster T) : Cluster T → Prop
  | call {n : ℕ} {M : Member T} {i : Input} (rng : ℕ → ℕ) (hn : C n = some M)
      (hrunning : M.stopped = false) (hi : MayCall C n i) :
      Step C (Function.update C n
        (some (Member.after M (Raft.handle i { M.raft with rng := rng }))))

/-- The clusters a run from `C₀` goes through. -/
inductive Reachable (C₀ : Cluster T) : Cluster T → Prop
  | refl : Reachable C₀ C₀
  | step {C C' : Cluster T} (h : Reachable C₀ C) (h' : Step C C') : Reachable C₀ C'

omit [Storage T] [ProtoMessage Entry] in
/-- Followers of any term and vote under distinct non-zero ids, nothing queued,
and the voters `V` everywhere. -/
structure Initial (V : Finset ℕ) (C : Cluster T) : Prop where
  id : ∀ n M, C n = some M → M.raft.id = n ∧ n ≠ 0
  follower : ∀ n M, C n = some M → M.raft.state = .FOLLOWER
  quiet : ∀ n M, C n = some M → M.raft.msgs = [] ∧ M.trace = []
  voters : ∀ n M, C n = some M →
    ∃ prs, M.raft.prs = some prs ∧ prs.voterIds.keys.toFinset = V

/-! Three members. -/

/-- Member `n` as a cluster starts with it. -/
structure Fresh (V : Finset ℕ) (n : ℕ) (M : Member T) : Prop where
  id : M.raft.id = n
  follower : M.raft.state = .FOLLOWER
  msgs : M.raft.msgs = []
  trace : M.trace = []
  voters : ∃ prs, M.raft.prs = some prs ∧ prs.voterIds.keys.toFinset = V

def trio (M₁ M₂ M₃ : Member T) : Cluster T :=
  Function.update (Function.update (Function.update (fun _ => none) 1 (some M₁))
    2 (some M₂)) 3 (some M₃)

omit [Storage T] [ProtoMessage Entry] in
theorem trio_initial {V : Finset ℕ} {M₁ M₂ M₃ : Member T} (h₁ : Fresh V 1 M₁)
    (h₂ : Fresh V 2 M₂) (h₃ : Fresh V 3 M₃) : Initial V (trio M₁ M₂ M₃) := by
  have hfresh : ∀ n M, trio M₁ M₂ M₃ n = some M → n ≠ 0 ∧ Fresh V n M := by
    intro n M h
    by_cases hn₃ : n = 3
    · obtain rfl : M₃ = M := by simpa [trio, hn₃] using h
      exact ⟨by omega, hn₃ ▸ h₃⟩
    · by_cases hn₂ : n = 2
      · obtain rfl : M₂ = M := by simpa [trio, hn₂] using h
        exact ⟨by omega, hn₂ ▸ h₂⟩
      · by_cases hn₁ : n = 1
        · obtain rfl : M₁ = M := by simpa [trio, hn₁] using h
          exact ⟨by omega, hn₁ ▸ h₁⟩
        · simp [trio, hn₁, hn₂, hn₃] at h
  constructor
  · exact fun n M h => ⟨(hfresh n M h).2.id, (hfresh n M h).1⟩
  · exact fun n M h => (hfresh n M h).2.follower
  · exact fun n M h => ⟨(hfresh n M h).2.msgs, (hfresh n M h).2.trace⟩
  · exact fun n M h => (hfresh n M h).2.voters

end Cluster

end RsRaft
