import RsRaft.Eraftpb

/-!
# Errors and panics

`Error` and `StorageError` are the crate's error types; `io::Error`,
`ProtobufError` and the boxed storage error are carried by their text. `Panic`
names the ways a call can stop: the crate's own `panic!`s, its failed
assertions and `unwrap`s, and the index checks of the standard library.
-/

namespace RsRaft

inductive StorageError where
  | Compacted
  | Unavailable
  | SnapshotOutOfDate
  | SnapshotTemporarilyUnavailable
  | Other (err : String)
deriving DecidableEq, Repr

inductive Error where
  | Io (err : String)
  | Store (err : StorageError)
  | StepLocalMsg
  | StepPeerNotFound
  | ProposalDropped
  | ConfigInvalid (desc : String)
  | Codec (err : String)
  | Exists (id : ℕ) (set : String)
  | NotExists (id : ℕ) (set : String)
deriving DecidableEq, Repr

inductive Panic where
  /-- `v[i]` or `v[a..b]` outside of `v`. -/
  | indexOutOfBounds
  /-- `unwrap` or `expect` on an `Err`. -/
  | unwrapErr (err : Error)
  /-- `unwrap` on a `None`. -/
  | unwrapNone
  /-- A failed `assert!` or `assert_ne!`. -/
  | assertion
  /-- `gen_range` on an empty range. -/
  | emptyRange
  /-- `unimplemented!()`. -/
  | unimplemented
  /-- `"{} unexpected error: {:?}"`. -/
  | unexpectedError (err : Error)
  /-- `"{} entry {} conflict with committed entry {}"`. -/
  | conflictCommitted (idx committed : ℕ)
  /-- `"{} to_commit {} is out of range [last_index {}]"`. -/
  | commitOutOfRange (toCommit lastIndex : ℕ)
  /-- `"{} applied({}) is out of range [prev_applied({}), committed({})]"`. -/
  | appliedOutOfRange (applied prevApplied committed : ℕ)
  /-- `"{} after {} is out of range [committed {}]"`. -/
  | appendOutOfRange (after committed : ℕ)
  /-- `"{} invalid slice {} > {}"`. -/
  | invalidSlice (low high : ℕ)
  /-- `"{} slice[{}, {}] out of bound[{}, {}]"`. -/
  | sliceOutOfBound (low high firstIndex lastIndex : ℕ)
  /-- `"{} invalid unstable.slice {} > {}"`. -/
  | invalidUnstableSlice (low high : ℕ)
  /-- `"{} unstable.slice[{}, {}] out of bound[{}, {}]"`. -/
  | unstableOutOfBound (low high offset upper : ℕ)
  /-- `"index out of the bound"`. -/
  | storageOutOfBound
  /-- `"Snapshot {} is out of bound lastIndex({})"`. -/
  | snapshotOutOfBound (idx lastIndex : ℕ)
  /-- `"Compact {} is out of bound lastIndex({})"`. -/
  | compactOutOfBound (idx lastIndex : ℕ)
  /-- `"Missing log entry[last: {}, append at: {}]"`. -/
  | missingLogEntry (last appendAt : ℕ)
  /-- `"{} entries[{}:{}], is unavailable form storage"`. -/
  | entriesUnavailable (low high : ℕ)
  /-- `"{} term should be set when sending {:?}"`. -/
  | termNotSet (msgType : MessageType)
  /-- `"not a vote message: {:?}"`. -/
  | notVoteMessage (msgType : MessageType)
  /-- `"{} need non-empty snapshot"`. -/
  | emptySnapshot
  /-- `"{} is sending append in unhandle state {:?}"`. -/
  | unhandledState
  /-- `"cannot add into a full inflights"`. -/
  | fullInflights
  /-- `"cannot find correspond read state from pending map"`. -/
  | readStateNotFound
  /-- `"{} cannot specify both new(peers/learners) and ConfState.(Nodes/Learners)"`. -/
  | peersSpecifiedTwice
  /-- `"{}"`, the error of a peer that could not be inserted. -/
  | peerNotInserted (err : Error)
  /-- `"{} hs.commit {} is out of range [{}, {}]"`. -/
  | hardStateOutOfRange (commit committed lastIndex : ℕ)
deriving DecidableEq, Repr

/-! Reduction of the `Except` monad, for running panicking calls by `simp`. -/

section

variable {π α β : Type}

@[simp] theorem ok_bind (a : α) (f : α → Except π β) :
    ((Except.ok a : Except π α) >>= f) = f a := rfl

@[simp] theorem pure_eq_ok (a : α) : (pure a : Except π α) = .ok a := rfl

/-- Peel a computation that returned apart. -/
theorem bind_eq_ok {x : Except π α} {f : α → Except π β} {b : β}
    (h : (x >>= f) = .ok b) : ∃ a, x = .ok a ∧ f a = .ok b := by
  cases x with
  | error p => cases h
  | ok a => exact ⟨a, rfl, h⟩

theorem map_eq_ok {x : Except π α} {f : α → β} {b : β} (h : x.map f = .ok b) :
    ∃ a, x = .ok a ∧ f a = b := by
  cases x with
  | error p => cases h
  | ok a => exact ⟨a, rfl, Except.ok.inj h⟩

theorem bind_ne_error {x : Except π α} {f : α → Except π β} {p : π} (hx : x ≠ .error p)
    (hf : ∀ a, f a ≠ .error p) : (x >>= f) ≠ .error p := by
  cases x with
  | error p' => exact fun h => hx (congrArg _ (Except.error.inj h))
  | ok a => exact hf a

end

/-- A result type that wraps up the raft errors. -/
abbrev Result (α : Type) : Type := Except Error α

/-- `unwrap` on the `Result` of a call that may itself panic. -/
def unwrap {α : Type} (x : Except Panic (Result α)) : Except Panic α := do
  match ← x with
  | .ok a => pure a
  | .error e => throw (.unwrapErr e)

@[simp] theorem unwrap_ok {α : Type} (a : α) : unwrap (.ok (.ok a)) = .ok a := rfl

theorem unwrap_ne_error {α : Type} {x : Except Panic (Result α)} {p : Panic} (hx : x ≠ .error p)
    (hp : ∀ e, Panic.unwrapErr e ≠ p) : unwrap x ≠ .error p := by
  refine bind_ne_error hx fun res => ?_
  cases res with
  | error e => exact fun h => hp e (Except.error.inj h)
  | ok a => exact nofun

/-- `&v[low..high]`. -/
def sliceVec {α : Type} (v : List α) (low high : ℕ) : Except Panic (List α) :=
  if low ≤ high ∧ high ≤ v.length then .ok ((v.drop low).take (high - low))
  else .error .indexOutOfBounds

end RsRaft
