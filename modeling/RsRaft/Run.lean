import RsRaft.RaftMoves

/-!
# Runs of one node

A run is a sequence of `tick` and `step` calls with arbitrary messages. A panic
ends it: the state is the one the panicking call left, the trace goes up to the
panic.
-/

namespace RsRaft

/-- One call from outside. -/
inductive Input where
  | tick
  | step (msg : Message)
deriving DecidableEq, Repr

/-- The message a call makes the node handle. -/
def Input.msgOf {T : Type} (i : Input) (r : Raft T) : Message :=
  match i with
  | .tick => r.hupOf
  | .step msg => msg

namespace Raft

open Call Ctl

variable {T : Type} [Storage T] [ProtoMessage Entry]

def handle (i : Input) : Call Panic Event (Raft T) Unit :=
  match i with
  | .tick => do
      let _ ← tick
      pure ()
  | .step msg => do
      let _ ← step msg
      pure ()

def run (is : List Input) : Call Panic Event (Raft T) Unit := is.forM handle

/-- Every call of the run meets `P` in the state before it. -/
def EveryStep (P : Raft T → Input → Prop) : List Input → Raft T → Prop
  | [], _ => True
  | i :: is, r => P r i ∧ ∀ r' es, handle i r = ⟨.ok (), r', es⟩ → EveryStep P is r'

/-- A follower of term `0` over an empty in-memory store. -/
def memNode (id : ℕ) (voters learners : List ℕ) : Raft MemStorage where
  id := id
  raftLog := { store := {}, unstable := Unstable.new 1, committed := 0, applied := 0 }
  prs := some (ProgressSet.ofIds voters learners)

theorem run_cons (i : Input) (is : List Input) (r : Raft T) :
    run (i :: is) r = (handle i >>= fun _ => run is) r := rfl

/-- A call is a sequence of moves. -/
theorem does_handle (i : Input) (r : Raft T) :
    Does (moving T (i.msgOf r)) r (handle i) (fun _ _ => True) := by
  cases i with
  | tick => exact Does.bind (does_tick r) fun _ _ _ => Does.pure trivial
  | step msg => exact Does.bind (does_step msg r) fun _ _ _ => Does.pure trivial

end Raft

end RsRaft
