import RsRaft.LogUnstable
import RsRaft.Storage

/-!
# `raft_log.rs`: the log over a store and an unstable tail

Reading methods run in `Except Panic`; a mutating method returns the new log
next to its value, so a call that panics has no new log.
-/

namespace RsRaft

structure RaftLog (T : Type) where
  store : T
  unstable : Unstable
  committed : ℕ
  applied : ℕ
deriving DecidableEq, Repr

namespace RaftLog

variable {T : Type} [Storage T]

def new (storage : T) : Except Panic (RaftLog T) := do
  let firstIndex ← unwrap (Storage.firstIndex storage)
  let lastIndex ← unwrap (Storage.lastIndex storage)
  pure
    { store := storage
      committed := wrappingSub firstIndex 1
      applied := wrappingSub firstIndex 1
      unstable := Unstable.new (lastIndex + 1) }

def firstIndex (log : RaftLog T) : Except Panic ℕ :=
  match log.unstable.maybeFirstIndex with
  | some idx => .ok idx
  | none => unwrap (Storage.firstIndex log.store)

def lastIndex (log : RaftLog T) : Except Panic ℕ :=
  match log.unstable.maybeLastIndex with
  | some idx => .ok idx
  | none => unwrap (Storage.lastIndex log.store)

def term (log : RaftLog T) (idx : ℕ) : Except Panic (Result ℕ) := do
  let dummyIndex := wrappingSub (← log.firstIndex) 1
  -- outside of the log the term reads `0`, without an error
  if idx < dummyIndex then pure (.ok 0)
  else
    let last ← log.lastIndex
    if idx > last then pure (.ok 0)
    else
      match ← log.unstable.maybeTerm idx with
      | some term => pure (.ok term)
      | none =>
          match ← Storage.term log.store idx with
          | .ok term => pure (.ok term)
          | .error (.Store .Compacted) => pure (.error (.Store .Compacted))
          | .error (.Store .Unavailable) => pure (.error (.Store .Unavailable))
          | .error e => throw (.unexpectedError e)

def lastTerm (log : RaftLog T) : Except Panic ℕ := do
  let last ← log.lastIndex
  match ← log.term last with
  | .ok t => pure t
  | .error e => throw (.unexpectedError e)

def matchTerm (log : RaftLog T) (idx term : ℕ) : Except Panic Bool := do
  match ← log.term idx with
  | .ok t => pure (t == term)
  | .error _ => pure false

/-- The index of the first entry the log does not hold with its term, or `0`. -/
def findConflict (log : RaftLog T) : List Entry → Except Panic ℕ
  | [] => pure 0
  | e :: es => do
      if ← log.matchTerm e.index e.term then findConflict log es else pure e.index

def commitTo (log : RaftLog T) (toCommit : ℕ) : Except Panic (RaftLog T) :=
  if log.committed ≥ toCommit then pure log
  else do
    let last ← log.lastIndex
    if last < toCommit then throw (.commitOutOfRange toCommit last)
    else pure { log with committed := toCommit }

def appliedTo (log : RaftLog T) (idx : ℕ) : Except Panic (RaftLog T) :=
  if idx = 0 then pure log
  else if log.committed < idx ∨ idx < log.applied then
    throw (.appliedOutOfRange idx log.applied log.committed)
  else pure { log with applied := idx }

omit [Storage T] in
def stableTo (log : RaftLog T) (idx term : ℕ) : Except Panic (RaftLog T) := do
  let unstable ← log.unstable.stableTo idx term
  pure { log with unstable := unstable }

omit [Storage T] in
def stableSnapshotTo (log : RaftLog T) (idx : ℕ) : RaftLog T :=
  { log with unstable := log.unstable.stableSnapshotTo idx }

def append (log : RaftLog T) (entries : List Entry) : Except Panic (ℕ × RaftLog T) :=
  match entries with
  | [] => do
      let last ← log.lastIndex
      pure (last, log)
  | e :: _ =>
      let after := wrappingSub e.index 1
      if after < log.committed then throw (.appendOutOfRange after log.committed)
      else do
        let unstable ← log.unstable.truncateAndAppend entries
        let log' : RaftLog T := { log with unstable := unstable }
        let last ← log'.lastIndex
        pure (last, log')

def maybeAppend (log : RaftLog T) (idx term committed : ℕ) (entries : List Entry) :
    Except Panic (Option ℕ × RaftLog T) := do
  let lastNewIndex := idx + entries.length
  if ← log.matchTerm idx term then
    let conflictIdx ← log.findConflict entries
    let log' ←
      (if conflictIdx = 0 then pure log
      else if conflictIdx ≤ log.committed then
        throw (.conflictCommitted conflictIdx log.committed)
      else do
        let offset := idx + 1
        -- an underflowing `conflict_idx - offset` is out of range as well
        let rest ← sliceVec entries (wrappingSub conflictIdx offset) entries.length
        let r ← log.append rest
        pure r.2 : Except Panic (RaftLog T))
    let log'' ← log'.commitTo (min committed lastNewIndex)
    pure (some lastNewIndex, log'')
  else pure (none, log)

omit [Storage T] in
def unstableEntries (log : RaftLog T) : Option (List Entry) :=
  if log.unstable.entries = [] then none else some log.unstable.entries

def isUpToDate (log : RaftLog T) (lastIndex term : ℕ) : Except Panic Bool := do
  let lt ← log.lastTerm
  let li ← log.lastIndex
  pure (decide (term > lt) || (term == lt && decide (lastIndex ≥ li)))

def maybeCommit (log : RaftLog T) (maxIndex term : ℕ) : Except Panic (Bool × RaftLog T) :=
  if maxIndex > log.committed then do
    let t ← log.term maxIndex
    if t.toOption.getD 0 = term then do
      let log' ← log.commitTo maxIndex
      pure (true, log')
    else pure (false, log)
  else pure (false, log)

def snapshot (log : RaftLog T) : Except Panic (Result Snapshot) :=
  match log.unstable.snapshot with
  | some s => pure (.ok s)
  | none => Storage.snapshot log.store

def mustCheckOutOfBounds (log : RaftLog T) (low high : ℕ) : Except Panic (Option Error) :=
  if low > high then throw (.invalidSlice low high)
  else do
    let firstIndex ← log.firstIndex
    if low < firstIndex then pure (some (.Store .Compacted))
    else
      let last ← log.lastIndex
      let length := last + 1 - firstIndex
      if low < firstIndex ∨ high > firstIndex + length then
        throw (.sliceOutOfBound low high firstIndex last)
      else pure none

variable [ProtoMessage Entry]

/-- The part of `slice` that comes from the store; `none` is the early return. -/
def storedSlice (log : RaftLog T) (low high maxSize : ℕ) :
    Except Panic (Result (List Entry)) := do
  match ← Storage.entries log.store low (min high log.unstable.offset) maxSize with
  | .ok es => pure (.ok es)
  | .error (.Store .Compacted) => pure (.error (.Store .Compacted))
  | .error (.Store .Unavailable) =>
      throw (.entriesUnavailable low (min high log.unstable.offset))
  | .error e => throw (.unexpectedError e)

/-- The part of `slice` that comes from the unstable tail, and the final limit. -/
def unstableSlice (log : RaftLog T) (low high maxSize : ℕ) (stored : List Entry) :
    Except Panic (Result (List Entry)) :=
  if high > log.unstable.offset then do
    let tail ← log.unstable.slice (max low log.unstable.offset) high
    pure (.ok (limitSize (stored ++ tail) maxSize))
  else pure (.ok (limitSize stored maxSize))

def slice (log : RaftLog T) (low high maxSize : ℕ) : Except Panic (Result (List Entry)) := do
  match ← log.mustCheckOutOfBounds low high with
  | some e => pure (.error e)
  | none =>
      if low ≥ high then pure (.ok [])
      else if low < log.unstable.offset then
        match ← log.storedSlice low high maxSize with
        | .error e => pure (.error e)
        | .ok stored =>
            -- the store's size limit already cut the batch short
            if stored.length < min high log.unstable.offset - low then pure (.ok stored)
            else log.unstableSlice low high maxSize stored
      else log.unstableSlice low high maxSize []

def entries (log : RaftLog T) (idx maxSize : ℕ) : Except Panic (Result (List Entry)) := do
  let last ← log.lastIndex
  if idx > last then pure (.ok []) else log.slice idx (last + 1) maxSize

/-- `all_entries` calls itself as long as the read is `Compacted`; `fuel` bounds how
often, and `none` stands for running out of it. -/
def allEntries (log : RaftLog T) : (fuel : ℕ) → Except Panic (Option (List Entry))
  | 0 => pure none
  | fuel + 1 => do
      let first ← log.firstIndex
      match ← log.entries first NO_LIMIT with
      | .ok es => pure (some es)
      | .error (.Store .Compacted) => allEntries log fuel
      | .error e => throw (.unexpectedError e)

def nextEntriesSince (log : RaftLog T) (sinceIdx : ℕ) : Except Panic (Option (List Entry)) := do
  let offset := max (sinceIdx + 1) (← log.firstIndex)
  if log.committed + 1 > offset then
    match ← log.slice offset (log.committed + 1) NO_LIMIT with
    | .ok es => pure (some es)
    | .error e => throw (.unexpectedError e)
  else pure none

def nextEntries (log : RaftLog T) : Except Panic (Option (List Entry)) :=
  log.nextEntriesSince log.applied

omit [ProtoMessage Entry] in
def hasNextEntriesSince (log : RaftLog T) (sinceIdx : ℕ) : Except Panic Bool := do
  let offset := max (sinceIdx + 1) (← log.firstIndex)
  pure (decide (log.committed + 1 > offset))

omit [ProtoMessage Entry] in
def hasNextEntries (log : RaftLog T) : Except Panic Bool :=
  log.hasNextEntriesSince log.applied

omit [Storage T] [ProtoMessage Entry] in
def restore (log : RaftLog T) (snapshot : Snapshot) : RaftLog T :=
  { log with
    committed := snapshot.metadata.index
    unstable := log.unstable.restore snapshot }

/-! ## What the cursors' methods leave alone -/

omit [ProtoMessage Entry] in
theorem commitTo_frame {log log' : RaftLog T} {c : ℕ} (h : log.commitTo c = .ok log') :
    log'.store = log.store ∧ log'.unstable = log.unstable := by
  unfold commitTo at h
  split at h
  · cases h
    exact ⟨rfl, rfl⟩
  · obtain ⟨last, _, h⟩ := bind_eq_ok h
    split at h
    · cases h
    · cases h
      exact ⟨rfl, rfl⟩

omit [ProtoMessage Entry] in
theorem maybeCommit_frame {log log' : RaftLog T} {i t : ℕ} {b : Bool}
    (h : log.maybeCommit i t = .ok (b, log')) :
    log'.store = log.store ∧ log'.unstable = log.unstable := by
  unfold maybeCommit at h
  split at h
  · obtain ⟨s, _, h⟩ := bind_eq_ok h
    split at h
    · obtain ⟨log₁, hc, h⟩ := bind_eq_ok h
      cases h
      exact commitTo_frame hc
    · cases h
      exact ⟨rfl, rfl⟩
  · cases h
    exact ⟨rfl, rfl⟩

end RaftLog

end RsRaft
