import RsRaft.Errors
import RsRaft.Lib.KeyMap
import RsRaft.Lib.Rank

/-!
# `progress.rs`: the leader's view of its peers

`ProgressSet` maps every peer to its `Progress` and splits the ids into voters
and learners. A hash set is a map to `Unit`. The `sort_buffer` is scratch
space and left out; the two `debug_assert!`s of the consistency check are
absent in a release build and here.

§1 inflights · §2 the progress of one peer · §3 the progress set · §4 quorum
facts.
-/

namespace RsRaft

def majority (total : ℕ) : ℕ := total / 2 + 1

/-! ## §1  Inflights -/

/-- A ring buffer; `capacity` is that of the vector behind it. -/
structure Inflights where
  start : ℕ := 0
  count : ℕ := 0
  buffer : List ℕ := []
  capacity : ℕ
deriving DecidableEq, Repr

namespace Inflights

def new (cap : ℕ) : Inflights := { capacity := cap }

def cap (ins : Inflights) : ℕ := ins.capacity

def full (ins : Inflights) : Bool := ins.count == ins.cap

def add (ins : Inflights) (inflight : ℕ) : Except Panic Inflights :=
  if ins.full then throw .fullInflights
  else
    let next := ins.start + ins.count
    let next := if next ≥ ins.cap then next - ins.cap else next
    -- the buffer grows one slot at a time, so a slot behind its end was skipped
    if ¬ next ≤ ins.buffer.length then throw .assertion
    else if next = ins.buffer.length then
      pure { ins with buffer := ins.buffer ++ [inflight], count := ins.count + 1 }
    else pure { ins with buffer := ins.buffer.set next inflight, count := ins.count + 1 }

/-- The loop of `free_to` with `left` rounds to go: how many were freed, and the slot
behind them. -/
def freeScan (ins : Inflights) (to_ : ℕ) : (left i idx : ℕ) → Except Panic (ℕ × ℕ)
  | 0, i, idx => pure (i, idx)
  | left + 1, i, idx =>
      match ins.buffer[idx]? with
      | none => throw .indexOutOfBounds
      | some v =>
          if to_ < v then pure (i, idx)
          else
            let idx := idx + 1
            let idx := if idx ≥ ins.cap then idx - ins.cap else idx
            freeScan ins to_ left (i + 1) idx

def freeTo (ins : Inflights) (to_ : ℕ) : Except Panic Inflights :=
  if ins.count = 0 then pure ins
  else
    match ins.buffer[ins.start]? with
    | none => throw .indexOutOfBounds
    | some v =>
        if to_ < v then pure ins
        else do
          let (i, idx) ← ins.freeScan to_ ins.count 0 ins.start
          pure { ins with count := ins.count - i, start := idx }

def freeFirstOne (ins : Inflights) : Except Panic Inflights :=
  match ins.buffer[ins.start]? with
  | none => throw .indexOutOfBounds
  | some start => ins.freeTo start

def reset (ins : Inflights) : Inflights := { ins with count := 0, start := 0 }

end Inflights

/-! ## §2  The progress of one peer -/

inductive ProgressState where
  | Probe
  | Replicate
  | Snapshot
deriving DecidableEq, Repr

structure Progress where
  matched : ℕ
  nextIdx : ℕ
  state : ProgressState
  paused : Bool
  pendingSnapshot : ℕ
  recentActive : Bool
  ins : Inflights
deriving DecidableEq, Repr

namespace Progress

/-- The argument `next_idx` is not used. -/
def new (_nextIdx insSize : ℕ) : Progress where
  matched := 0
  nextIdx := 0
  state := .Probe
  paused := false
  pendingSnapshot := 0
  recentActive := false
  ins := Inflights.new insSize

def resetState (pr : Progress) (state : ProgressState) : Progress :=
  { pr with paused := false, pendingSnapshot := 0, state := state, ins := pr.ins.reset }

def reset (pr : Progress) (nextIdx : ℕ) : Progress where
  matched := 0
  nextIdx := nextIdx
  state := .Probe
  paused := false
  pendingSnapshot := 0
  recentActive := false
  ins := pr.ins.reset

def becomeProbe (pr : Progress) : Progress :=
  if pr.state = .Snapshot then
    let pendingSnapshot := pr.pendingSnapshot
    let pr := pr.resetState .Probe
    { pr with nextIdx := max (pr.matched + 1) (pendingSnapshot + 1) }
  else
    let pr := pr.resetState .Probe
    { pr with nextIdx := pr.matched + 1 }

def becomeReplicate (pr : Progress) : Progress :=
  { pr.resetState .Replicate with nextIdx := pr.matched + 1 }

/-- The snapshot's index goes to `next_idx`; `pending_snapshot` stays `0`. -/
def becomeSnapshot (pr : Progress) (snapshotIdx : ℕ) : Progress :=
  { pr.resetState .Snapshot with nextIdx := snapshotIdx }

def snapshotFailure (pr : Progress) : Progress := { pr with pendingSnapshot := 0 }

def maybeSnapshotAbort (pr : Progress) : Bool :=
  pr.state == .Snapshot && decide (pr.matched ≥ pr.pendingSnapshot)

def resume (pr : Progress) : Progress := { pr with paused := false }

def pause (pr : Progress) : Progress := { pr with paused := true }

def maybeUpdate (pr : Progress) (n : ℕ) : Bool × Progress :=
  let needUpdate := pr.matched < n
  let pr := if needUpdate then { pr with matched := n }.resume else pr
  (needUpdate, if pr.nextIdx < n + 1 then { pr with nextIdx := n + 1 } else pr)

def optimisticUpdate (pr : Progress) (n : ℕ) : Progress := { pr with nextIdx := n + 1 }

/-- A replicating peer's rejection is stale unless it is behind what is matched; a
probed peer's is compared with the index asked for only. -/
def maybeDecrTo (pr : Progress) (rejected last : ℕ) : Bool × Progress :=
  if pr.state = .Replicate then
    if rejected ≤ pr.matched then (false, pr) else (true, { pr with nextIdx := pr.matched + 1 })
  else if pr.nextIdx = 0 ∨ pr.nextIdx - 1 ≠ rejected then (false, pr)
  else
    let pr := { pr with nextIdx := min rejected (last + 1) }
    let pr := if pr.nextIdx < 1 then { pr with nextIdx := 1 } else pr
    (true, pr.resume)

def isPaused (pr : Progress) : Bool :=
  match pr.state with
  | .Probe => pr.paused
  | .Replicate => pr.ins.full
  | .Snapshot => true

end Progress

/-! ## §3  The progress set -/

inductive CandidacyStatus where
  | Elected
  | Eligible
  | Ineligible
deriving DecidableEq, Repr

structure Configuration where
  voters : AList fun _ : ℕ => Unit := ∅
  learners : AList fun _ : ℕ => Unit := ∅
deriving DecidableEq

structure ProgressSet where
  progress : AList fun _ : ℕ => Progress := ∅
  configuration : Configuration := {}
deriving DecidableEq

namespace ProgressSet

def withCapacity (_voters _learners : ℕ) : ProgressSet := {}

def voterIds (prs : ProgressSet) : AList fun _ : ℕ => Unit := prs.configuration.voters

def learnerIds (prs : ProgressSet) : AList fun _ : ℕ => Unit := prs.configuration.learners

/-- The entries of the voters, in the order of the progress map. -/
def voters (prs : ProgressSet) : List (Sigma fun _ : ℕ => Progress) :=
  prs.progress.entries.filter fun e => decide (e.1 ∈ prs.voterIds)

def get (prs : ProgressSet) (id : ℕ) : Option Progress := prs.progress.lookup id

/-- Store a progress back through `get_mut`. -/
def put (prs : ProgressSet) (id : ℕ) (pr : Progress) : ProgressSet :=
  { prs with progress := prs.progress.replace id pr }

def assertProgressAndConfigurationConsistent (prs : ProgressSet) : Except Panic Unit :=
  if prs.configuration.voters.size + prs.configuration.learners.size = prs.progress.size
  then .ok () else .error .assertion

def insertVoter (prs : ProgressSet) (id : ℕ) (progress : Progress) :
    Except Panic (Result Unit × ProgressSet) :=
  if id ∈ prs.progress then
    if id ∈ prs.learnerIds then pure (.error (.Exists id "learners"), prs)
    else pure (.error (.Exists id "voters"), prs)
  else do
    let prs' : ProgressSet :=
      { progress := prs.progress.insert id progress
        configuration :=
          { prs.configuration with voters := prs.configuration.voters.orInsert id () } }
    prs'.assertProgressAndConfigurationConsistent
    pure (.ok (), prs')

/-- The second message says `votes` where `insertVoter` says `voters`. -/
def insertLearner (prs : ProgressSet) (id : ℕ) (progress : Progress) :
    Except Panic (Result Unit × ProgressSet) :=
  if id ∈ prs.progress then
    if id ∈ prs.learnerIds then pure (.error (.Exists id "learners"), prs)
    else pure (.error (.Exists id "votes"), prs)
  else do
    let prs' : ProgressSet :=
      { progress := prs.progress.insert id progress
        configuration :=
          { prs.configuration with learners := prs.configuration.learners.orInsert id () } }
    prs'.assertProgressAndConfigurationConsistent
    pure (.ok (), prs')

def remove (prs : ProgressSet) (id : ℕ) : Except Panic (Option Progress × ProgressSet) := do
  let prs' : ProgressSet :=
    { progress := prs.progress.erase id
      configuration :=
        { voters := prs.configuration.voters.erase id
          learners := prs.configuration.learners.erase id } }
  prs'.assertProgressAndConfigurationConsistent
  pure (prs.progress.lookup id, prs')

/-- The id is taken out of the voters as well, where it should be put in. -/
def promoteLearner (prs : ProgressSet) (id : ℕ) : Except Panic (Result Unit × ProgressSet) :=
  if id ∈ prs.configuration.learners then
    let prs' : ProgressSet :=
      { prs with
        configuration :=
          { prs.configuration with learners := prs.configuration.learners.erase id } }
    if id ∈ prs'.configuration.voters then do
      let prs'' : ProgressSet :=
        { prs' with
          configuration :=
            { prs'.configuration with voters := prs'.configuration.voters.erase id } }
      prs''.assertProgressAndConfigurationConsistent
      pure (.ok (), prs'')
    else pure (.error (.NotExists id "voters"), prs')
  else pure (.error (.NotExists id "learners"), prs)

def maximalCommittedIndex (prs : ProgressSet) : Except Panic ℕ :=
  let matched := (prs.voters.map fun e => e.2.matched).insertionSort (· ≥ ·)
  match matched[matched.length / 2]? with
  | some m => .ok m
  | none => .error .indexOutOfBounds

/-- The counts are those of all answers, whoever sent them. -/
def candidacyStatus (prs : ProgressSet) (votes : AList fun _ : ℕ => Bool) :
    CandidacyStatus :=
  let (accepted, total) := votes.entries.foldl
    (fun (acc : ℕ × ℕ) e => (if e.2 then acc.1 + 1 else acc.1, acc.2 + 1)) (0, 0)
  let quorum := majority prs.voterIds.size
  let rejected := total - accepted
  if accepted ≥ quorum then .Elected
  -- the two names are swapped: a lost election is `Eligible`, an open one `Ineligible`
  else if rejected = quorum then .Eligible
  else .Ineligible

def hasQuorum (prs : ProgressSet) (potentialQuorum : AList fun _ : ℕ => Unit) : Bool :=
  decide (potentialQuorum.size ≥ majority prs.voterIds.size)

end ProgressSet

/-! ## §4  Quorum facts -/

/-- The ids that granted, among those that answered. -/
def granters (votes : AList fun _ : ℕ => Bool) : Finset ℕ := votes.keysWhere fun _ b => b

/-- The ids that rejected, among those that answered. -/
def rejecters (votes : AList fun _ : ℕ => Bool) : Finset ℕ := votes.keysWhere fun _ b => !b

namespace ProgressSet

theorem foldl_votes (l : List (Sigma fun _ : ℕ => Bool)) : ∀ a t : ℕ,
    l.foldl (fun (acc : ℕ × ℕ) e => (if e.2 then acc.1 + 1 else acc.1, acc.2 + 1)) (a, t)
      = (a + l.countP (·.2), t + l.countP (·.2) + l.countP (fun e => !e.2)) := by
  induction l with
  | nil => intro a t; rfl
  | cons e l ih =>
      intro a t
      rw [List.foldl_cons, ih]
      obtain ⟨k, b⟩ := e
      cases b with
      | false => exact Prod.ext (by simp) (by simp; omega)
      | true => exact Prod.ext (by simp; omega) (by simp; omega)

/-- The status in terms of who granted and who rejected. -/
theorem candidacyStatus_eq (prs : ProgressSet) (votes : AList fun _ : ℕ => Bool) :
    prs.candidacyStatus votes =
      if majority prs.voterIds.size ≤ (granters votes).card then .Elected
      else if (rejecters votes).card = majority prs.voterIds.size then .Eligible
      else .Ineligible := by
  have hg : (granters votes).card = votes.entries.countP (·.2) :=
    AList.card_keysWhere _ _
  have hr : (rejecters votes).card = votes.entries.countP (fun e => !e.2) :=
    AList.card_keysWhere _ _
  simp only [candidacyStatus, foldl_votes, Nat.zero_add, ge_iff_le, hg, hr]
  congr 2
  rw [Nat.add_sub_cancel_left]

end ProgressSet

theorem mem_granters {votes : AList fun _ : ℕ => Bool} {id : ℕ} :
    id ∈ granters votes ↔ votes.lookup id = some true := by
  simp [granters, AList.mem_keysWhere]

/-- Counting a vote adds its sender at most, and only if the vote is granted. -/
theorem mem_granters_orInsert {votes : AList fun _ : ℕ => Bool} {k id : ℕ} {vote : Bool}
    (h : k ∈ granters (votes.orInsert id vote)) :
    k ∈ granters votes ∨ (k = id ∧ vote = true) := by
  rw [mem_granters] at h
  rcases AList.lookup_orInsert h with hold | ⟨hid, hvote, _⟩
  · exact Or.inl (mem_granters.mpr hold)
  · exact Or.inr ⟨hid, hvote.symm⟩

theorem mem_rejecters {votes : AList fun _ : ℕ => Bool} {id : ℕ} :
    id ∈ rejecters votes ↔ votes.lookup id = some false := by
  simp [rejecters, AList.mem_keysWhere]

namespace ProgressSet

/-- Every peer with a progress is a voter or a learner, and none is both. -/
structure WellFormed (prs : ProgressSet) : Prop where
  members : ∀ id, id ∈ prs.progress ↔ id ∈ prs.voterIds ∨ id ∈ prs.learnerIds
  disjoint : ∀ id ∈ prs.voterIds, id ∉ prs.learnerIds

/-- The voters that hold the log up to `N`. -/
def reached (prs : ProgressSet) (N : ℕ) : Finset ℕ :=
  prs.progress.keysWhere fun id pr => decide (id ∈ prs.voterIds) && decide (N ≤ pr.matched)

/-- The progress set of peers nothing is known about yet. -/
def ofIds (voters learners : List ℕ) : ProgressSet where
  progress := (voters ++ learners).foldr (fun n m => m.insert n (Progress.new 1 256)) ∅
  configuration :=
    { voters := voters.foldr (fun n m => m.insert n ()) ∅
      learners := learners.foldr (fun n m => m.insert n ()) ∅ }

theorem wellFormed_ofIds {vs ls : List ℕ} (h : ∀ id ∈ vs, id ∉ ls) :
    (ofIds vs ls).WellFormed where
  members id := by
    simp only [ofIds, voterIds, learnerIds, AList.mem_foldr_insert, List.mem_append]
  disjoint id := by
    simp only [ofIds, voterIds, learnerIds, AList.mem_foldr_insert]
    exact h id

variable {prs : ProgressSet} {id N mci : ℕ}

theorem mem_reached :
    id ∈ prs.reached N ↔ id ∈ prs.voterIds ∧ ∃ pr, prs.get id = some pr ∧ N ≤ pr.matched := by
  simp only [reached, AList.mem_keysWhere, Bool.and_eq_true, decide_eq_true_eq, get]
  constructor
  · rintro ⟨pr, hpr, hid, hN⟩
    exact ⟨hid, pr, hpr, hN⟩
  · rintro ⟨hid, pr, hpr, hN⟩
    exact ⟨pr, hpr, hid, hN⟩

theorem reached_subset : prs.reached N ⊆ prs.voterIds.keys.toFinset := by
  intro id hid
  rw [List.mem_toFinset]
  exact (mem_reached.mp hid).1

theorem WellFormed.length_voters (h : prs.WellFormed) :
    prs.voters.length = prs.voterIds.size := by
  have hkeys : prs.progress.keysWhere (fun id _ => decide (id ∈ prs.voterIds))
      = prs.voterIds.keys.toFinset := by
    ext id
    rw [AList.mem_keysWhere, List.mem_toFinset]
    constructor
    · rintro ⟨pr, _, hid⟩
      exact AList.mem_keys.mp (by simpa using hid)
    · intro hid
      obtain ⟨pr, hpr⟩ :=
        AList.mem_iff_exists_lookup.mp ((h.members id).mpr (Or.inl hid))
      exact ⟨pr, hpr, decide_eq_true hid⟩
  rw [← AList.card_keys, ← hkeys, AList.card_keysWhere, List.countP_eq_length_filter, voters]

theorem countP_matched (prs : ProgressSet) (N : ℕ) :
    (prs.voters.map fun e => e.2.matched).countP (N ≤ ·) = (prs.reached N).card := by
  rw [reached, AList.card_keysWhere, List.countP_map, voters, List.countP_filter]
  congr 1
  funext e
  simp [Bool.and_comm]

/-- The maximal committed index exists as soon as there is a voter. -/
theorem WellFormed.maximalCommittedIndex (h : prs.WellFormed) (hne : 0 < prs.voterIds.size) :
    ∃ mci, prs.maximalCommittedIndex = .ok mci := by
  have hlen : ((prs.voters.map fun e => e.2.matched).insertionSort (· ≥ ·)).length / 2
      < ((prs.voters.map fun e => e.2.matched).insertionSort (· ≥ ·)).length := by
    rw [List.length_insertionSort, List.length_map, h.length_voters]
    omega
  unfold ProgressSet.maximalCommittedIndex
  dsimp only
  split
  · exact ⟨_, rfl⟩
  · rename_i hnone
    have hout := List.getElem?_eq_none_iff.mp hnone
    omega

/-- It is the greatest index a majority of the voters has reached. -/
theorem WellFormed.le_maximalCommittedIndex_iff (h : prs.WellFormed)
    (hmci : prs.maximalCommittedIndex = .ok mci) (N : ℕ) :
    N ≤ mci ↔ majority prs.voterIds.size ≤ (prs.reached N).card := by
  unfold ProgressSet.maximalCommittedIndex at hmci
  dsimp only at hmci
  split at hmci
  · rename_i m hm
    cases hmci
    rw [Rank.le_sorted_getElem_iff _ N hm, countP_matched, List.length_insertionSort,
      List.length_map, h.length_voters, majority]
  · cases hmci

end ProgressSet

/-- Two majorities of one set share a member. -/
theorem majority_inter_nonempty {V S₁ S₂ : Finset ℕ} (h₁ : S₁ ⊆ V) (h₂ : S₂ ⊆ V)
    (hc₁ : majority V.card ≤ S₁.card) (hc₂ : majority V.card ≤ S₂.card) :
    (S₁ ∩ S₂).Nonempty := by
  apply Finset.inter_nonempty_of_card_lt_card_add_card h₁ h₂
  unfold majority at hc₁ hc₂
  omega

end RsRaft
