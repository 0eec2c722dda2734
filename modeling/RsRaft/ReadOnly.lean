import RsRaft.Errors
import RsRaft.Lib.KeyMap

/-!
# `read_only.rs`: pending read-index requests
-/

namespace RsRaft

inductive ReadOnlyOption where
  | Safe
  | LeaseBase
deriving DecidableEq, Repr

structure ReadIndexStatus where
  req : Message
  index : ℕ
  acks : AList fun _ : ℕ => Unit := ∅
deriving DecidableEq

structure ReadOnly where
  option : ReadOnlyOption := .Safe
  pendingReadIndex : AList fun _ : Bytes => ReadIndexStatus := ∅
  readIndexQueue : List Bytes := []
deriving DecidableEq

namespace ReadOnly

def new (option : ReadOnlyOption) : ReadOnly := { option := option }

def addRequest (ro : ReadOnly) (index : ℕ) (msg : Message) : Except Panic ReadOnly :=
  match msg.entries with
  | [] => throw .indexOutOfBounds
  | e :: _ =>
      let key := e.data
      if key ∈ ro.pendingReadIndex then pure ro
      else
        pure
          { ro with
            pendingReadIndex :=
              ro.pendingReadIndex.insert key { req := msg, index := index }
            readIndexQueue := ro.readIndexQueue ++ [key] }

/-- The senders acknowledged so far and the receiver itself. -/
def recvAck (ro : ReadOnly) (msg : Message) : (AList fun _ : ℕ => Unit) × ReadOnly :=
  match ro.pendingReadIndex.lookup msg.context with
  | none => (∅, ro)
  | some readStatus =>
      let readStatus := { readStatus with acks := readStatus.acks.orInsert msg.from_ () }
      (readStatus.acks.orInsert msg.to_ (),
        { ro with pendingReadIndex := ro.pendingReadIndex.replace msg.context readStatus })

/-- The closure of `position`: the first place of `ctx`, with every element looked at
expected in the map. -/
def position (ro : ReadOnly) (ctx : Bytes) : List Bytes → Except Panic (Option ℕ)
  | [] => pure none
  | x :: xs =>
      if x ∉ ro.pendingReadIndex then throw .readStateNotFound
      else if x = ctx then pure (some 0)
      else do
        let i ← position ro ctx xs
        pure (i.map (· + 1))

/-- The loop of `advance`: take `n` contexts from the front of the queue, and their
statuses out of the map. -/
def popFront (ro : ReadOnly) : (n : ℕ) → Except Panic (List ReadIndexStatus × ReadOnly)
  | 0 => pure ([], ro)
  | n + 1 =>
      match ro.readIndexQueue with
      | [] => throw .unwrapNone
      | rs :: queue =>
          match ro.pendingReadIndex.lookup rs with
          | none => throw .unwrapNone
          | some status => do
              let ro' : ReadOnly :=
                { ro with
                  pendingReadIndex := ro.pendingReadIndex.erase rs
                  readIndexQueue := queue }
              let (rss, ro'') ← popFront ro' n
              pure (status :: rss, ro'')

def advance (ro : ReadOnly) (msg : Message) : Except Panic (List ReadIndexStatus × ReadOnly) := do
  match ← ro.position msg.context ro.readIndexQueue with
  | none => pure ([], ro)
  | some i => ro.popFront (i + 1)

def pendingReadCount (ro : ReadOnly) : ℕ := ro.readIndexQueue.length

def lastPendingRequestCtx (ro : ReadOnly) : Option Bytes := ro.readIndexQueue.getLast?

end ReadOnly

end RsRaft
